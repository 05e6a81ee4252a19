import ClientRegistry.Client.Tokens
import ClientRegistry.Database.Engine
import ClientRegistry.Database.Migration
import ClientRegistry.Logging.Output
import ClientRegistry.Proofs.Registry.Ledger
import ClientRegistry.Proofs.Registry.Simulation
import ClientRegistry.Proofs.Uri.Derivation
import ClientRegistry.Proofs.Workspace.Reachable
import ClientRegistry.Workspace.Run
import ClientRegistry.Proofs.Uri.Literal
import ClientRegistry.Proofs.Uri.Readable
import ClientRegistry.Proofs.Uri.Completeness
import ClientRegistry.Proofs.Number.Digits
import ClientRegistry.Proofs.Number.Rounding
import ClientRegistry.Proofs.Number.Shortest
import ClientRegistry.Proofs.Json.Number
import ClientRegistry.Proofs.Json.Shaped
import ClientRegistry.Proofs.Json.Text
import ClientRegistry.Proofs.Json.RoundTrip
import ClientRegistry.Proofs.Json.Read
import ClientRegistry.Proofs.Time.Text
import ClientRegistry.Proofs.Time.Reading
import ClientRegistry.Proofs.Snapshot.Validation
import ClientRegistry.Proofs.Text.Order
import ClientRegistry.Proofs.Snapshot.Json
import ClientRegistry.Proofs.Snapshot.Client
import ClientRegistry.Proofs.Snapshot.Portable
import ClientRegistry.Proofs.Snapshot.RoundTrip
import ClientRegistry.Proofs.Value.Order
import ClientRegistry.Proofs.Json.Scan
import ClientRegistry.Proofs.Snapshot.Spelling
import ClientRegistry.Proofs.Snapshot.Decoding
import ClientRegistry.Proofs.Snapshot.Faithful
import ClientRegistry.Proofs.Store.Parts
import ClientRegistry.Proofs.Store.Ranked
import ClientRegistry.Proofs.Store.Laid
import ClientRegistry.Proofs.Store.Copied
import ClientRegistry.Proofs.Store.Edited
import ClientRegistry.Proofs.Store.Holding
import ClientRegistry.Proofs.Store.Grounded
import ClientRegistry.Proofs.Store.Sealed
import ClientRegistry.Proofs.Store.Leading
import ClientRegistry.Proofs.Workspace.Backing
import ClientRegistry.Proofs.Workspace.Following
import ClientRegistry.Proofs.Workspace.Options
import ClientRegistry.Proofs.Workspace.Moves
import ClientRegistry.Proofs.Workspace.Isolation
import ClientRegistry.Proofs.Store.Untouched
import ClientRegistry.Proofs.Store.Reading
import ClientRegistry.Proofs.Store.Exposed
import ClientRegistry.Proofs.Workspace.Answers
import ClientRegistry.Proofs.Workspace.View
import ClientRegistry.Proofs.Client.Calls
import ClientRegistry.Proofs.Client.Building
import ClientRegistry.Proofs.Store.Extended
import ClientRegistry.Proofs.Workspace.Extended
import ClientRegistry.Proofs.Workspace.Building
import ClientRegistry.Proofs.Client.Loading
import ClientRegistry.Proofs.Workspace.Replacing
import ClientRegistry.Proofs.Store.Parted
import ClientRegistry.Proofs.Workspace.Parted
import ClientRegistry.Proofs.Workspace.Exported
import ClientRegistry.Proofs.Workspace.Exporting
import ClientRegistry.Proofs.Client.Secret
import ClientRegistry.Proofs.Client.Masked
import ClientRegistry.Proofs.Value.Edited
import ClientRegistry.Proofs.Store.Veiled
import ClientRegistry.Proofs.Workspace.Veiled
import ClientRegistry.Proofs.Workspace.Veiling
import ClientRegistry.Proofs.Workspace.Secrecy
import ClientRegistry.Proofs.Settings.Hash
import ClientRegistry.Proofs.Registry.UnitOfWork
import ClientRegistry.Proofs.Database.MigrationUrl
import ClientRegistry.Proofs.Client.Deriving
import ClientRegistry.Proofs.Workspace.Revising
import ClientRegistry.Proofs.Workspace.Deriving
import ClientRegistry.Proofs.Registry.Rearranged
import ClientRegistry.Proofs.Scope.Refusal
import ClientRegistry.Proofs.Logging.Container
import ClientRegistry.Proofs.Logging.Emitted
import ClientRegistry.Proofs.Json.Escaped
import ClientRegistry.Proofs.Logging.JsonLine
import ClientRegistry.Proofs.Logging.Setup
import ClientRegistry.Proofs.Snapshot.Scopes
import ClientRegistry.Proofs.Workspace.Lookup
import ClientRegistry.Proofs.Value.Sets
import ClientRegistry.Proofs.Client.Alike
import ClientRegistry.Proofs.Client.Interleaved
import ClientRegistry.Proofs.Configuration
import ClientRegistry.Proofs.Registry.Changes
