import ClientRegistry.Client.Draft
import ClientRegistry.Client.Listing
import ClientRegistry.Json.Written

/-! Snapshots: the serializable form of a client. Sets are listed in order, and a client is
rebuilt through a draft, so that a tampered snapshot is refused like any other bad input. -/

namespace ClientRegistry

/-- The keys of the two settings are texts; `Snapshot.ofInput` sees to it. -/
structure Snapshot where
  id : String
  clientId : String
  issuedAt : Option Moment
  secret : Option String
  secretExpiresAt : Option Moment
  name : String
  authMethods : List String
  grantTypes : List String
  redirectUris : List String
  scopes : List String
  clientSettings : Options
  tokenSettings : Options
  deriving Inhabited

namespace Snapshot

def optional {α : Type} (f : α → Value) : Option α → Value
  | some a => f a
  | none => .null

def texts (xs : List String) : Value := .list (xs.map .text)

def named (s : Snapshot) : List (String × Value) :=
  [("id", .text s.id), ("client_id", .text s.clientId),
    ("client_id_issued_at", optional .moment s.issuedAt),
    ("client_secret", optional .text s.secret),
    ("client_secret_expires_at", optional .moment s.secretExpiresAt),
    ("client_name", .text s.name), ("token_endpoint_auth_methods", texts s.authMethods),
    ("grant_types", texts s.grantTypes), ("redirect_uris", texts s.redirectUris),
    ("scopes", texts s.scopes), ("client_settings", .dict s.clientSettings),
    ("token_settings", .dict s.tokenSettings)]

def same (a b : Snapshot) : Bool :=
  Value.sameList (a.named.map (·.2)) (b.named.map (·.2))

/-- The printed form of named values: all but the secret. -/
def printedNamed (named : List (String × Value)) : List Char :=
  Printed.recordText "RegisteredClientSnapshot" (named.filter fun f => f.1 != "client_secret")

def printed (s : Snapshot) : List Char :=
  printedNamed s.named

/-- The JSON text of named values: one object with the fields in order. What a field contains
may not be nested too deep. -/
def jsonOfNamed (named : List (String × Value)) : Except Fault (List Char) :=
  if named.all fun f => Json.depth f.2 ≤ Json.deepest + 1 then
    Json.write (.dict (named.map fun f => (.text f.1, f.2)))
  else .error .notWritable

def toJson (s : Snapshot) : Except Fault (List Char) :=
  jsonOfNamed s.named

def text? : Value → Option String
  | .text s => some s
  | _ => none

def textList? : Value → Option (List String)
  | .list xs => xs.mapM text?
  | _ => none

def optional? {α : Type} (f : Value → Option α) : Value → Option (Option α)
  | .null => some none
  | v => (f v).map some

def moment? : Value → Option Moment
  | .moment m => some m
  | _ => none

def options? : Value → Option Options
  | .dict es => some es
  | _ => none

/-- The snapshot of named values, if each is of its field's type. -/
def ofNamed? (fields : List (String × Value)) : Option Snapshot := do
  let get := fun (name : String) => (fields.find? fun f => f.1 == name).map (·.2)
  let id ← (get "id").bind text?
  let clientId ← (get "client_id").bind text?
  let issuedAt ← (get "client_id_issued_at").bind (optional? moment?)
  let secret ← (get "client_secret").bind (optional? text?)
  let secretExpiresAt ← (get "client_secret_expires_at").bind (optional? moment?)
  let name ← (get "client_name").bind text?
  let authMethods ← (get "token_endpoint_auth_methods").bind textList?
  let grantTypes ← (get "grant_types").bind textList?
  let redirectUris ← (get "redirect_uris").bind textList?
  let scopes ← (get "scopes").bind textList?
  let clientSettings ← (get "client_settings").bind options?
  let tokenSettings ← (get "token_settings").bind options?
  some ⟨id, clientId, issuedAt, secret, secretExpiresAt, name, authMethods, grantTypes,
    redirectUris, scopes, clientSettings, tokenSettings⟩

/-- The token of a name, which is not empty. -/
def tokenOf (kind : TokenKind) (name : String) : Except Fault Value :=
  if name.isEmpty then .error (.emptyToken kind) else .ok (.token kind (.text name))

def tokensOf (kind : TokenKind) (names : List String) : Except Fault (List Value) :=
  (names.mapM (tokenOf kind)).map Value.toMembers

/-- The draft that a snapshot describes; methods are converted before grants. -/
def toDraft (s : Snapshot) : Except Fault Draft := do
  let d ← Draft.withId (.text s.id)
  let methods ← tokensOf .authMethod s.authMethods
  let grants ← tokensOf .grantType s.grantTypes
  .ok { d with
    clientId := .text s.clientId
    issuedAt := optional .moment s.issuedAt
    secret := optional .text s.secret
    secretExpiresAt := optional .moment s.secretExpiresAt
    name := .text s.name
    methods
    grants
    redirectUris := Value.toMembers (s.redirectUris.map .text)
    scopes := Value.toMembers (s.scopes.map .text)
    clientSettings := .bag .client s.clientSettings
    tokenSettings := .bag .token s.tokenSettings }

def toClient (s : Snapshot) : Outcome Client := do
  let d ← Outcome.ofExcept s.toDraft
  d.build

end Snapshot

end ClientRegistry
