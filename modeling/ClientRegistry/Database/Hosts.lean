import ClientRegistry.Database.Query
import ClientRegistry.Fault
import ClientRegistry.Uri.Chars

/-! Several hosts in the query of a URL: `host=a:1&host=b:2`, or `host=a,b&port=1,2`. The two
forms do not mix. -/

namespace ClientRegistry.Database

/-- Hosts and ports in order. Without any port there is no list of them; a port that is left open
is `none`. -/
structure Hosts where
  names : List (List Char)
  ports : Option (List (Option Int))

/-- The hosts of a query before its ports are read; whether they carry their ports themselves. -/
structure HostTexts where
  integrated : Bool
  names : List (List Char)
  ports : Option (List (List Char))

namespace Hosts

/-- The characters of a host that may stand in front of its port. -/
def isHostChar (c : Char) : Bool :=
  Uri.isLetter c || Uri.isDigit c || c == '-' || c == '.'

/-- A host and its port in one text. A line break at the end does not count. -/
def withPort? (cs : List Char) : Option (List Char × List Char) :=
  match cs.span isHostChar with
  | (host, ':' :: rest) =>
    let (port, behind) := rest.span fun c => (Text.digit? c).isSome
    if behind.isEmpty || behind == ['\n'] then some (host, port) else none
  | _ => none

/-- A host and the texts behind its colons; without a colon its port is left open. -/
def columns (cs : List Char) : List (List Char) :=
  match Text.splitAll ':' cs with
  | [host] => [host, []]
  | parts => parts

/-- The hosts of repeated options. What stands behind a second colon is left aside if another
host does without it. -/
def repeated (values : List (List Char)) : Except Fault HostTexts :=
  let rows := values.map columns
  if rows.all fun row => 2 < row.length then .error .manyParts
  else .ok ⟨true, rows.map (·.getD 0 []), some (rows.map (·.getD 1 []))⟩

def listed (portGiven : Bool) (value : List Char) : HostTexts :=
  match portGiven, Text.splitAll ',' value with
  | false, [host] => match withPort? host with
    | some (host, port) => ⟨true, [host], some [port]⟩
    | none => ⟨false, [host], none⟩
  | _, names => ⟨false, names, none⟩

def texts (q : Query) : Except Fault HostTexts :=
  match q.values "host" with
  | [] => .ok ⟨false, [], none⟩
  | [value] => .ok (listed (!(q.values "port").isEmpty) value)
  | values => repeated values

/-- The texts of the ports, which stand with the hosts or in options of their own. -/
def portTexts (q : Query) (hosts : HostTexts) : Except Fault (Option (List (List Char))) :=
  match q.values "port" with
  | [] => .ok hosts.ports
  | values =>
    if hosts.integrated then .error (.badUrl .unfit)
    else match values with
      | [value] => .ok (some (Text.splitAll ',' value))
      | _ => .ok (some values)

def portOf (text : List Char) : Except Fault (Option Int) :=
  if text.isEmpty then .ok none
  else match Integer.ofText text with
    | .ok port => .ok (some port)
    | .error _ => .error (.badUrl .unfit)

/-- One port may stand for no host or for one host; else there are as many ports as hosts. -/
def countsFit (hosts ports : Nat) : Bool :=
  hosts == ports || (hosts ≤ 1 && ports ≤ 1)

def ofQuery (q : Query) : Except Fault Hosts := do
  let hosts ← texts q
  match ← portTexts q hosts with
  | none => .ok ⟨hosts.names, none⟩
  | some given =>
    let ports ← given.mapM portOf
    if countsFit hosts.names.length ports.length then .ok ⟨hosts.names, some ports⟩
    else .error (.badUrl .unfit)

/-- Of several hosts each has a name and a port other than zero. -/
def complete (h : Hosts) : Bool :=
  h.names.length ≤ 1
    || (h.names.all (fun name => !name.isEmpty)
      && (match h.ports with
        | some ports => ports.all fun port => port.getD 0 != 0
        | none => false))

end Hosts

end ClientRegistry.Database
