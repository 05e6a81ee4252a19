import ClientRegistry.Database.Query
import ClientRegistry.Fault
import ClientRegistry.Text.Word

/-! Database URLs: a driver's name, credentials, a host with its port, a database and a query.
Only the name has to be there; what cannot be read after it is left aside. -/

namespace ClientRegistry.Database

/-- The parts of a URL. A text that is absent and one that is empty are both the empty text. -/
structure Url where
  driver : List Char
  user : List Char
  password : List Char
  host : List Char
  port : Option Int
  database : List Char
  query : Query

namespace Url

def isNameChar (c : Char) : Bool :=
  Text.isWord c || c == '+'

/-- The name in front of `://`, and the rest. -/
def takeName? (cs : List Char) : Option (List Char × List Char) :=
  let name := cs.takeWhile isNameChar
  match name, cs.drop name.length with
  | _ :: _, ':' :: '/' :: '/' :: rest => some (name, rest)
  | _, _ => none

/-- User and password in front of an at sign, and the rest. A password goes up to the first at
sign after the colon; a user alone goes up to the last one before a colon or a slash. -/
def takeCredentials (cs : List Char) : List Char × List Char × List Char :=
  let user := cs.takeWhile fun c => c != ':' && c != '/'
  let behind := cs.drop user.length
  match behind.head?, Text.cut '@' (behind.drop 1) with
  | some ':', (password, some rest) => (user, password, rest)
  | _, _ => match Text.cutLast? '@' user with
    | some (user, host) => (user, [], host ++ behind)
    | none => ([], [], cs)

/-- A host in brackets: what stands before the last closing one, and the rest. -/
def takeBracketed? : List Char → Option (List Char × List Char)
  | '[' :: cs =>
    let bound := cs.takeWhile fun c => c != '/' && c != '?'
    match Text.cutLast? ']' bound with
    | some (c :: host, behind) => some (c :: host, behind ++ cs.drop bound.length)
    | _ => none
  | _ => none

def takeHost (cs : List Char) : List Char × List Char :=
  match takeBracketed? cs with
  | some found => found
  | none => cs.span fun c => c != '/' && c != ':' && c != '?'

/-- The port behind a colon, and the rest. A colon without a number is refused. -/
def takePort : List Char → Except Fault (Option Int × List Char)
  | ':' :: cs =>
    let (text, rest) := cs.span fun c => c != '/' && c != '?'
    match Integer.ofText text with
    | .ok port => .ok (some port, rest)
    | .error flaw => .error (.badInteger (String.ofList text) flaw)
  | cs => .ok (none, cs)

/-- The database behind a slash, and the rest. -/
def takeDatabase : List Char → List Char × List Char
  | '/' :: cs => cs.span (· != '?')
  | cs => ([], cs)

/-- The query behind a question mark; it ends with its line. -/
def queryOf : List Char → Query
  | '?' :: cs => Query.ofText (cs.takeWhile (· != '\n'))
  | _ => Query.empty

def ofText (cs : List Char) : Except Fault Url :=
  match takeName? cs with
  | none => .error (.badUrl .unreadable)
  | some (driver, cs) => do
    let (user, password, cs) := takeCredentials cs
    let (host, cs) := takeHost cs
    let (port, cs) ← takePort cs
    let (database, cs) := takeDatabase cs
    .ok ⟨driver, user, password, host, port, database, queryOf cs⟩

end Url

end ClientRegistry.Database
