import ClientRegistry.Client.Basic

/-! Drafts of clients. A draft accumulates fields in any order; `Draft.build` checks them and
fills in the name and the authentication methods. A failed build leaves the draft as it is. -/

namespace ClientRegistry

/-- Absent scalars and absent settings are null. -/
structure Draft where
  id : Value
  clientId : Value
  issuedAt : Value
  secret : Value
  secretExpiresAt : Value
  name : Value
  methods : List Value
  grants : List Value
  redirectUris : List Value
  scopes : List Value
  clientSettings : Value
  tokenSettings : Value
  deriving Inhabited

inductive ScalarField where
  | id
  | clientId
  | issuedAt
  | secret
  | secretExpiresAt
  | name
  | clientSettings
  | tokenSettings
  deriving DecidableEq

inductive SetField where
  | methods
  | grants
  | redirectUris
  | scopes
  deriving DecidableEq

namespace Draft

def empty (id : Value) : Draft :=
  ⟨id, .null, .null, .null, .null, .null, [], [], [], [], .null, .null⟩

/-- A draft needs an id. -/
def withId (id : Value) : Except Fault Draft :=
  if id.truthy then .ok (empty id) else .error (.emptyArgument "id")

def ofClient (c : Client) : Draft :=
  ⟨c.id, c.clientId, c.issuedAt, c.secret, c.secretExpiresAt, c.name, c.methods, c.grants,
    c.redirectUris, c.scopes, .bag .client c.clientSettings, .bag .token c.tokenSettings⟩

def members (d : Draft) : SetField → List Value
  | .methods => d.methods
  | .grants => d.grants
  | .redirectUris => d.redirectUris
  | .scopes => d.scopes

def withMembers (d : Draft) (field : SetField) (xs : List Value) : Draft :=
  match field with
  | .methods => { d with methods := xs }
  | .grants => { d with grants := xs }
  | .redirectUris => { d with redirectUris := xs }
  | .scopes => { d with scopes := xs }

/-- Replaces a scalar field; only an empty id is refused. -/
def assign (d : Draft) (field : ScalarField) (v : Value) : Except Fault Draft :=
  match field with
  | .id => if v.truthy then .ok { d with id := v } else .error (.emptyArgument "id")
  | .clientId => .ok { d with clientId := v }
  | .issuedAt => .ok { d with issuedAt := v }
  | .secret => .ok { d with secret := v }
  | .secretExpiresAt => .ok { d with secretExpiresAt := v }
  | .name => .ok { d with name := v }
  | .clientSettings => .ok { d with clientSettings := v }
  | .tokenSettings => .ok { d with tokenSettings := v }

def add (d : Draft) (field : SetField) (v : Value) : Except Fault Draft :=
  if v.hashable then .ok (d.withMembers field (Value.insertMember (d.members field) v))
  else .error .badType

inductive Call where
  | assign (field : ScalarField) (v : Value)
  | add (field : SetField) (v : Value)
  | edit (field : SetField) (edits : List (Edit Value))

/-- A refused assignment or addition changes nothing; a failed batch of edits keeps the edits
before the one that failed. -/
def apply (d : Draft) : Call → Draft × Option Fault
  | .assign field v => match d.assign field v with
    | .ok d' => (d', none)
    | .error e => (d, some e)
  | .add field v => match d.add field v with
    | .ok d' => (d', none)
    | .error e => (d, some e)
  | .edit field edits =>
    let (xs, fault) := Edit.run Edit.onSet edits (d.members field)
    (d.withMembers field xs, fault)

def applyAll (d : Draft) (calls : List Call) : Draft :=
  calls.foldl (fun d c => (d.apply c).1) d

def missingField? (d : Draft) : Option String :=
  if !d.clientId.truthy then some "client_id"
  else if d.grants.isEmpty then some "authorization_grant_types"
  else if authorizationCode.memberOf d.grants && d.redirectUris.isEmpty then some "redirect_uris"
  else none

def rejected (d : Draft) (field : String) : LogRecord :=
  ⟨.warning, .builder,
    "Rejected registration id=".toList ++ d.id.displayed ++ ": ".toList ++ field.toList
      ++ " cannot be empty".toList,
    [(.registrationId, d.id), (.clientId, d.clientId), (.field, .text field)], none⟩

def built (c : Client) : LogRecord :=
  ⟨.debug, .builder,
    "Built registered client id=".toList ++ c.id.displayed ++ " client_id=".toList
      ++ c.clientId.displayed,
    [(.registrationId, c.id), (.clientId, c.clientId)], none⟩

/-- A copy of given settings, or an empty bag. What is no bag cannot be copied. -/
def copySettings (kind : BagKind) : Value → Except Fault Value
  | .null => .ok (.bag kind [])
  | .bag k options => .ok (.bag k options)
  | _ => .error .noAttribute

/-- The name defaults to the id and the methods to the basic one. -/
def complete (d : Draft) (clientSettings tokenSettings : Value) : Fields :=
  { id := d.id
    clientId := d.clientId
    issuedAt := d.issuedAt
    secret := d.secret
    secretExpiresAt := d.secretExpiresAt
    name := if d.name.truthy then d.name else d.id
    methods := .frozen (if d.methods.isEmpty then [clientSecretBasic] else d.methods)
    grants := .frozen d.grants
    redirectUris := .frozen d.redirectUris
    scopes := .frozen d.scopes
    clientSettings
    tokenSettings }

/-- Checks the draft and returns the client. Missing fields come first, in their order, then
scopes, then redirect URIs. Every call logs one record, unless a value is of a wrong type. -/
def build (d : Draft) : Outcome Client :=
  match d.missingField? with
  | some field => .reject (d.rejected field) (.missingField field)
  | none => do
    Validation.scopes d.scopes
    Validation.redirectUris d.redirectUris
    let clientSettings ← Outcome.ofExcept (copySettings .client d.clientSettings)
    let tokenSettings ← Outcome.ofExcept (copySettings .token d.tokenSettings)
    let c ← Client.make (d.complete clientSettings tokenSettings)
    Outcome.record (built c)
    pure c

end Draft

end ClientRegistry
