import ClientRegistry.Settings.Draft
import ClientRegistry.Validation
import ClientRegistry.Value.Digest

/-! Registered clients. A client exists only if its fields passed `Client.make`, which checks
them in a fixed order and refuses the first that fails. -/

namespace ClientRegistry

/-- Twelve values that are offered as the fields of a client. -/
structure Fields where
  id : Value
  clientId : Value
  issuedAt : Value
  secret : Value
  secretExpiresAt : Value
  name : Value
  methods : Value
  grants : Value
  redirectUris : Value
  scopes : Value
  clientSettings : Value
  tokenSettings : Value
  deriving Inhabited

namespace Fields

def blank : Fields :=
  ⟨.null, .null, .null, .null, .null, .null, .null, .null, .null, .null, .null, .null⟩

def named (f : Fields) : List (String × Value) :=
  [("id", f.id), ("client_id", f.clientId), ("client_id_issued_at", f.issuedAt),
    ("client_secret", f.secret), ("client_secret_expires_at", f.secretExpiresAt),
    ("client_name", f.name), ("client_authentication_methods", f.methods),
    ("authorization_grant_types", f.grants), ("redirect_uris", f.redirectUris),
    ("scopes", f.scopes), ("client_settings", f.clientSettings),
    ("token_settings", f.tokenSettings)]

def with? (f : Fields) (name : String) (v : Value) : Option Fields :=
  match name with
  | "id" => some { f with id := v }
  | "client_id" => some { f with clientId := v }
  | "client_id_issued_at" => some { f with issuedAt := v }
  | "client_secret" => some { f with secret := v }
  | "client_secret_expires_at" => some { f with secretExpiresAt := v }
  | "client_name" => some { f with name := v }
  | "client_authentication_methods" => some { f with methods := v }
  | "authorization_grant_types" => some { f with grants := v }
  | "redirect_uris" => some { f with redirectUris := v }
  | "scopes" => some { f with scopes := v }
  | "client_settings" => some { f with clientSettings := v }
  | "token_settings" => some { f with tokenSettings := v }
  | _ => none

def withAll? (f : Fields) (changes : List (String × Value)) : Option Fields :=
  changes.foldlM (fun f (c : String × Value) => f.with? c.1 c.2) f

def ofNamed? (given : List (String × Value)) : Option Fields :=
  if blank.named.all fun f => given.any fun g => g.1 == f.1 then blank.withAll? given else none

end Fields

/-- Sets are given by their members and settings by their options. -/
structure Client where
  id : Value
  clientId : Value
  issuedAt : Value
  secret : Value
  secretExpiresAt : Value
  name : Value
  methods : List Value
  grants : List Value
  redirectUris : List Value
  scopes : List Value
  clientSettings : Options
  tokenSettings : Options
  deriving Inhabited

/-- The grant that needs a redirect URI. -/
def authorizationCode : Value := .token .grantType (.text "authorization_code")

/-- The method of clients without credentials. -/
def noneMethod : Value := .token .authMethod (.text "none")

/-- The method of clients that name no other. -/
def clientSecretBasic : Value := .token .authMethod (.text "client_secret_basic")

namespace Client

def fields (c : Client) : Fields :=
  ⟨c.id, c.clientId, c.issuedAt, c.secret, c.secretExpiresAt, c.name, .frozen c.methods,
    .frozen c.grants, .frozen c.redirectUris, .frozen c.scopes, .bag .client c.clientSettings,
    .bag .token c.tokenSettings⟩

/-- A public client authenticates by no method. -/
def isPublic (c : Client) : Bool :=
  c.methods.length == 1 && noneMethod.memberOf c.methods

def frozenMembers (field : String) : Value → Except Fault (List Value)
  | .frozen xs => .ok xs
  | _ => .error (.notFrozenSet field)

def settingsOf (field : String) (kind : BagKind) : Value → Except Fault Options
  | .bag k options => if k = kind then .ok options else .error (.notSettings field kind)
  | _ => .error (.notSettings field kind)

/-- The record of offered fields whose sets and settings are of the right kind. -/
def shape (f : Fields) : Except Fault Client := do
  let methods ← frozenMembers "client_authentication_methods" f.methods
  let grants ← frozenMembers "authorization_grant_types" f.grants
  let redirectUris ← frozenMembers "redirect_uris" f.redirectUris
  let scopes ← frozenMembers "scopes" f.scopes
  let clientSettings ← settingsOf "client_settings" .client f.clientSettings
  let tokenSettings ← settingsOf "token_settings" .token f.tokenSettings
  .ok ⟨f.id, f.clientId, f.issuedAt, f.secret, f.secretExpiresAt, f.name, methods, grants,
    redirectUris, scopes, clientSettings, tokenSettings⟩

/-- The first required field that is empty. -/
def missingField? (c : Client) : Option String :=
  if !c.clientId.truthy then some "client_id"
  else if !c.name.truthy then some "client_name"
  else if c.grants.isEmpty then some "authorization_grant_types"
  else if c.methods.isEmpty then some "client_authentication_methods"
  else if authorizationCode.memberOf c.grants && c.redirectUris.isEmpty then some "redirect_uris"
  else none

/-- Checks a record: its id, its required fields, its scopes, its redirect URIs. -/
def check (c : Client) : Outcome Unit :=
  if !c.id.truthy then .fail (.emptyArgument "id")
  else match c.missingField? with
    | some field => .fail (.missingField field)
    | none => do
      Validation.scopes c.scopes
      Validation.redirectUris c.redirectUris

def make (f : Fields) : Outcome Client := do
  let c ← Outcome.ofExcept (shape f)
  check c
  pure c

def values (c : Client) : List Value :=
  [c.id, c.clientId, c.issuedAt, c.secret, c.secretExpiresAt, c.name, .frozen c.methods,
    .frozen c.grants, .frozen c.redirectUris, .frozen c.scopes, .bag .client c.clientSettings,
    .bag .token c.tokenSettings]

/-- Clients are the same if their fields are, the secret included. -/
def same (a b : Client) : Bool :=
  Value.sameList a.values b.values

def digest (c : Client) : Digest :=
  .sequence (Value.digestList c.values)

/-- The fields that a printed client shows; the secret is not among them. -/
def shownFields (c : Client) : List (String × Value) :=
  [("id", c.id), ("client_id", c.clientId), ("client_id_issued_at", c.issuedAt),
    ("client_secret_expires_at", c.secretExpiresAt), ("client_name", c.name),
    ("client_authentication_methods", .frozen c.methods),
    ("authorization_grant_types", .frozen c.grants), ("redirect_uris", .frozen c.redirectUris),
    ("scopes", .frozen c.scopes), ("client_settings", .bag .client c.clientSettings),
    ("token_settings", .bag .token c.tokenSettings)]

end Client

namespace Printed

/-- A record as its type's name and its fields with their names. -/
def recordText (typeName : String) (fields : List (String × Value)) : List Char :=
  typeName.toList ++ '(' ::
    commaSeparated (fields.map fun f => f.1.toList ++ '=' :: f.2.printed) ++ [')']

end Printed

namespace Client

def printed (c : Client) : List Char :=
  Printed.recordText "RegisteredClient" c.shownFields

end Client

end ClientRegistry
