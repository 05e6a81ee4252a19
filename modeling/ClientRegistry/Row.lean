import ClientRegistry.Client.Draft
import ClientRegistry.Client.Listing

/-! Table rows: the stored form of a client. A row may have been edited by hand, so its columns
hold any values, and reading it back goes through a draft. -/

namespace ClientRegistry

structure Row extends Fields
  deriving Inhabited

namespace Row

def columns (r : Row) : List (String × Value) := r.toFields.named

/-- A row of named values; columns that are not named are null. -/
def ofNamed (given : List (String × Value)) : Except Fault Row :=
  match Fields.blank.withAll? given with
  | some f => .ok ⟨f⟩
  | none => .error .badType

def ofClient (c : Client) : Except Fault Row := do
  let methods ← Listing.ofTokens c.methods
  let grants ← Listing.ofTokens c.grants
  let redirectUris ← Listing.ofMembers c.redirectUris
  let scopes ← Listing.ofMembers c.scopes
  .ok ⟨{ c.fields with
    methods := .list methods
    grants := .list grants
    redirectUris := .list redirectUris
    scopes := .list scopes
    clientSettings := .dict c.clientSettings
    tokenSettings := .dict c.tokenSettings }⟩

/-- The entries of a collection column; an empty or absent collection has none. -/
def entries (v : Value) : Except Fault (List Value) :=
  if v.truthy then
    match v.items? with
    | some xs => .ok xs
    | none => .error .badType
  else .ok []

/-- The token of a stored name, which may be of any type that members of sets can have. -/
def tokenOf (kind : TokenKind) (v : Value) : Except Fault Value :=
  if !v.truthy then .error (.emptyToken kind)
  else if v.hashable then .ok (.token kind v)
  else .error .badType

def tokens (kind : TokenKind) (v : Value) : Except Fault (List Value) := do
  let xs ← entries v
  let ts ← xs.mapM (tokenOf kind)
  .ok (Value.toMembers ts)

def memberSet (v : Value) : Except Fault (List Value) := do
  let xs ← entries v
  if xs.all Value.hashable then .ok (Value.toMembers xs) else .error .badType

/-- The draft that a row describes; columns are read in order. -/
def toDraft (r : Row) : Except Fault Draft := do
  let d ← Draft.withId r.id
  let methods ← tokens .authMethod r.methods
  let grants ← tokens .grantType r.grants
  let redirectUris ← memberSet r.redirectUris
  let scopes ← memberSet r.scopes
  let clientSettings ← Bag.ofMapping .client r.clientSettings
  let tokenSettings ← Bag.ofMapping .token r.tokenSettings
  .ok { d with
    clientId := r.clientId
    issuedAt := r.issuedAt
    secret := r.secret
    secretExpiresAt := r.secretExpiresAt
    name := r.name
    methods
    grants
    redirectUris
    scopes
    clientSettings := clientSettings.value
    tokenSettings := tokenSettings.value }

def toClient (r : Row) : Outcome Client := do
  let d ← Outcome.ofExcept r.toDraft
  d.build

end Row

end ClientRegistry
