import ClientRegistry.Json.Reading
import ClientRegistry.Snapshot.Basic
import ClientRegistry.Time.Iso

/-! Validation of the data of a snapshot: field by field, in order, with every finding listed.
Values that a program passes and values that were read from JSON differ in two points only:
byte strings, which JSON has none of, and integers of more than 64 bits. -/

namespace ClientRegistry.Snapshot

inductive Origin where
  | program
  | json
  deriving DecidableEq

/-- A validated value, or the findings against it. -/
abbrev Checked (α : Type) := Except (List SnapshotFinding) α

def finding {α : Type} (flaw : SnapshotFlaw) (path : List PathStep) : Checked α :=
  .error [⟨flaw, path⟩]

def checkText (path : List PathStep) : Value → Checked String
  | .text s => .ok s
  | .bytes bs => match Json.utf8? bs with
    | some cs => .ok (String.ofList cs)
    | none => finding .notUtf8 path
  | _ => finding .notText path

def checkOptionalText (path : List PathStep) : Value → Checked (Option String)
  | .null => .ok none
  | v => (checkText path v).map some

def checkReading (path : List PathStep) (cs : List Char) : Checked (Option Moment) :=
  match Moment.readText cs with
  | .moment m => .ok (some m)
  | .outsideCalendar => finding .momentOutside path
  | .unreadable => finding .momentUnreadable path

def checkFound (path : List PathStep) : Option Moment → Checked (Option Moment)
  | some m => .ok (some m)
  | none => finding .momentOutside path

def fitsWord (n : Int) : Bool :=
  -9223372036854775808 ≤ n && n ≤ 9223372036854775807

/-- A moment is given as one, as a text, or as a number of seconds. -/
def checkMoment (origin : Origin) (path : List PathStep) : Value → Checked (Option Moment)
  | .null => .ok none
  | .moment m => .ok (some m)
  | .text s => checkReading path s.toList
  | .bytes bs => match Json.utf8? bs with
    | some cs => checkReading path cs
    | none => finding .momentUnreadable path
  | .int n =>
    if fitsWord n then checkFound path (Moment.ofUnixInt? n)
    else match origin, Binary64.ofInt n with
      | .program, .finite s m e => checkFound path (Moment.ofUnixReal? (.finite s m e))
      | _, _ => finding .notMoment path
  | .real x => checkFound path (Moment.ofUnixReal? x)
  | _ => finding .notMoment path

/-- Collects the values of a list or all findings against its items. -/
def collect {α : Type} : List (Checked α) → Checked (List α)
  | [] => .ok []
  | c :: rest => match c, collect rest with
    | .ok a, .ok as => .ok (a :: as)
    | .ok _, .error es => .error es
    | .error es, .ok _ => .error es
    | .error es, .error fs => .error (es ++ fs)

/-- The items of a list; a program may also pass a tuple or a set. -/
def listItems? (origin : Origin) : Value → Option (List Value)
  | .list xs => some xs
  | .tuple xs => if origin = .program then some xs else none
  | .set xs => if origin = .program then some xs else none
  | .frozen xs => if origin = .program then some xs else none
  | _ => none

def checkTexts (origin : Origin) (field : String) (v : Value) : Checked (List String) :=
  match listItems? origin v with
  | none => finding .notList [.name field]
  | some xs =>
    collect (xs.zipIdx.map fun x => checkText [.name field, .index x.2] x.1)

/-- How a finding names a key: integers of 64 bits as they are, other keys printed. -/
def keyStep (k : Value) : PathStep :=
  match k.integer? with
  | some n => if fitsWord n then .index n else .name (String.ofList k.printed)
  | none => .name (String.ofList k.printed)

def checkKey (field : String) (k : Value) : Checked Value :=
  (checkText [.name field, keyStep k, .name "[key]"] k).map .text

/-- Entries whose keys are texts, or byte strings that encode texts. The last value of a text
counts. -/
def checkEntries {α : Type} (field : String) (es : List (Value × α)) :
    Checked (List (Value × α)) :=
  (collect (es.map fun e => (checkKey field e.1).map fun k => (k, e.2))).map Entries.ofList

def checkOptions (field : String) : Value → Checked Options
  | .dict es => checkEntries field es
  | _ => finding .notDict [.name field]

def given (data : List (String × Value)) (field : String) : Option Value :=
  (data.find? fun d => d.1 == field).map (·.2)

def required {α : Type} (data : List (String × Value)) (field : String)
    (check : Value → Checked α) : Checked α :=
  match given data field with
  | some v => check v
  | none => finding .missing [.name field]

def defaulted {α : Type} (data : List (String × Value)) (field : String) (default : α)
    (check : Value → Checked α) : Checked α :=
  match given data field with
  | some v => check v
  | none => .ok default

def findings {α : Type} : Checked α → List SnapshotFinding
  | .ok _ => []
  | .error es => es

/-- The snapshot of given data. Unknown fields are ignored. -/
def ofInput (origin : Origin) (data : List (String × Value)) : Except Fault Snapshot :=
  let id := required data "id" (checkText [.name "id"])
  let clientId := required data "client_id" (checkText [.name "client_id"])
  let issuedAt := defaulted data "client_id_issued_at" none
    (checkMoment origin [.name "client_id_issued_at"])
  let secret := defaulted data "client_secret" none (checkOptionalText [.name "client_secret"])
  let secretExpiresAt := defaulted data "client_secret_expires_at" none
    (checkMoment origin [.name "client_secret_expires_at"])
  let name := required data "client_name" (checkText [.name "client_name"])
  let texts := fun field => defaulted data field [] (checkTexts origin field)
  let authMethods := texts "token_endpoint_auth_methods"
  let grantTypes := texts "grant_types"
  let redirectUris := texts "redirect_uris"
  let scopes := texts "scopes"
  let options := fun field => defaulted data field [] (checkOptions field)
  let clientSettings := options "client_settings"
  let tokenSettings := options "token_settings"
  match id, clientId, issuedAt, secret, secretExpiresAt, name, authMethods, grantTypes,
      redirectUris, scopes, clientSettings, tokenSettings with
  | .ok id, .ok clientId, .ok issuedAt, .ok secret, .ok secretExpiresAt, .ok name,
      .ok authMethods, .ok grantTypes, .ok redirectUris, .ok scopes, .ok clientSettings,
      .ok tokenSettings =>
    .ok ⟨id, clientId, issuedAt, secret, secretExpiresAt, name, authMethods, grantTypes,
      redirectUris, scopes, clientSettings, tokenSettings⟩
  | _, _, _, _, _, _, _, _, _, _, _, _ =>
    .error (.badSnapshot (findings id ++ findings clientId ++ findings issuedAt ++ findings secret
      ++ findings secretExpiresAt ++ findings name ++ findings authMethods ++ findings grantTypes
      ++ findings redirectUris ++ findings scopes ++ findings clientSettings
      ++ findings tokenSettings))

def ofClient (c : Client) : Except Fault Snapshot := do
  let authMethods ← Listing.ofTokens c.methods
  let grantTypes ← Listing.ofTokens c.grants
  let redirectUris ← Listing.ofMembers c.redirectUris
  let scopes ← Listing.ofMembers c.scopes
  ofInput .program
    [("id", c.id), ("client_id", c.clientId), ("client_id_issued_at", c.issuedAt),
      ("client_secret", c.secret), ("client_secret_expires_at", c.secretExpiresAt),
      ("client_name", c.name), ("token_endpoint_auth_methods", .list authMethods),
      ("grant_types", .list grantTypes), ("redirect_uris", .list redirectUris),
      ("scopes", .list scopes), ("client_settings", .dict c.clientSettings),
      ("token_settings", .dict c.tokenSettings)]

def keyName : Value × Value → Option (String × Value)
  | (.text s, v) => some (s, v)
  | _ => none

/-- The snapshot of a JSON value, which is an object. -/
def ofJsonValue : Value → Except Fault Snapshot
  | .dict es => ofInput .json (es.filterMap keyName)
  | _ => .error (.badSnapshot [⟨.notObject, []⟩])

def ofJson (cs : List Char) : Except Fault Snapshot :=
  match Json.read? cs with
  | some v => ofJsonValue v
  | none => .error (.badSnapshot [⟨.malformed, []⟩])

def ofJsonBytes (bs : List UInt8) : Except Fault Snapshot :=
  match Json.utf8? bs with
  | some cs => ofJson cs
  | none => .error (.badSnapshot [⟨.malformed, []⟩])

end ClientRegistry.Snapshot
