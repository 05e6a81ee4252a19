import ClientRegistry.Row

/-! The registry over a table of rows. Rows are found by the value of a column; storing a row
replaces the row of the same id. Each access to the session is noted. -/

namespace ClientRegistry

abbrev Table := List Row

/-- What a select yields: ids only, or whole rows. -/
inductive Selection where
  | ids
  | rows
  deriving DecidableEq

inductive Access where
  | select (what : Selection) (clientId : Value)
  | get (id : Value)
  | merge (id : Value)
  | flush
  | commit
  | rollback

namespace Table

def withClientId (t : Table) (clientId : Value) : List Row :=
  t.filter fun r => r.clientId.same clientId

def get? (t : Table) (id : Value) : Option Row :=
  t.find? fun r => r.id.same id

/-- A row takes the place of the row with its id, or comes last. -/
def merge (t : Table) (row : Row) : Table :=
  match t with
  | [] => [row]
  | r :: rest => if r.id.same row.id then row :: rest else r :: merge rest row

/-- The only row of a result; two rows are one too many. -/
def single? : List Row → Except Fault (Option Row)
  | [] => .ok none
  | [r] => .ok (some r)
  | _ => .error .manyRows

end Table

/-- A session works on a private copy of the table. -/
structure Session where
  table : Table
  accesses : List Access

namespace Session

def start (t : Table) : Session := ⟨t, []⟩

def note (s : Session) (a : Access) : Session :=
  { s with accesses := s.accesses ++ [a] }

/-- Stores a client unless its client id belongs to a row of another id. -/
def save (s : Session) (c : Client) : Session × Except Fault Unit :=
  let s := s.note (.select .ids c.clientId)
  match Table.single? (s.table.withClientId c.clientId) with
  | .error e => (s, .error e)
  | .ok owner =>
    let foreign := match owner with
      | some r => !r.id.isNull && !r.id.same c.id
      | none => false
    if foreign then (s, .error (.alreadyExists c.clientId))
    else match Row.ofClient c with
      | .error e => (s, .error e)
      | .ok row =>
        (({ s with table := s.table.merge row }.note (.merge c.id)).note .flush, .ok ())

def rebuilt : Option Row → Outcome (Option Client)
  | none => pure none
  | some r => do
    let c ← r.toClient
    pure (some c)

def findById (s : Session) (key : Value) : Session × Outcome (Option Client) :=
  if !key.truthy then (s, .fail (.emptyArgument "id"))
  else (s.note (.get key), rebuilt (s.table.get? key))

def findByClientId (s : Session) (key : Value) : Session × Outcome (Option Client) :=
  if !key.truthy then (s, .fail (.emptyArgument "client_id"))
  else
    let s := s.note (.select .rows key)
    match Table.single? (s.table.withClientId key) with
    | .error e => (s, .fail e)
    | .ok row => (s, rebuilt row)

/-- Writes a row as it stands, past all checks. -/
def putRow (s : Session) (row : Row) : Session :=
  { s with table := s.table.merge row }

end Session

end ClientRegistry
