import ClientRegistry.Registry.Table

/-! A unit of work: a body of registry calls in one session, committed as a whole if no fault
leaves it and rolled back as a whole if one does. -/

namespace ClientRegistry

/-- One step of a body. `saveFound` saves what the first one of some earlier steps found, told
by their positions, and another client if none of them found any. -/
inductive WorkStep where
  | save (c : Client)
  | saveFound (positions : List Nat) (otherwise : Except Fault Client)
  | findById (key : Value)
  | findByClientId (key : Value)
  | putRow (row : Row)
  | raise (fault : Fault)

/-- A fault of a step that is `caught` stays inside the body. -/
structure BodyStep where
  step : WorkStep
  caught : Bool

/-- What a body has done so far: the answers of its steps, and what it logged. -/
structure Work where
  session : Session
  answers : List (Except Fault (Option Client))
  log : List LogRecord

namespace Work

def start (t : Table) : Work := ⟨.start t, [], []⟩

def save (w : Work) (c : Client) : Work × Option Fault :=
  let (session, r) := w.session.save c
  match r with
  | .ok _ => ({ w with session, answers := w.answers ++ [.ok none] }, none)
  | .error e => ({ w with session, answers := w.answers ++ [.error e] }, some e)

def fail (w : Work) (e : Fault) : Work × Option Fault :=
  ({ w with answers := w.answers ++ [.error e] }, some e)

/-- The first client that a step of a list of positions found. -/
def found? (w : Work) : List Nat → Option Client
  | [] => none
  | position :: rest => match w.answers[position]? with
    | some (.ok (some c)) => some c
    | _ => w.found? rest

def perform (w : Work) : WorkStep → Work × Option Fault
  | .save c => w.save c
  | .saveFound positions otherwise => match w.found? positions, otherwise with
    | some c, _ => w.save c
    | none, .ok c => w.save c
    | none, .error e => w.fail e
  | .findById key => answer w (w.session.findById key)
  | .findByClientId key => answer w (w.session.findByClientId key)
  | .putRow row =>
    ({ w with session := w.session.putRow row, answers := w.answers ++ [.ok none] }, none)
  | .raise e => w.fail e
where
  answer (w : Work) (found : Session × Outcome (Option Client)) : Work × Option Fault :=
    let w' : Work :=
      ⟨found.1, w.answers ++ [found.2.result], w.log ++ found.2.log⟩
    match found.2.result with
    | .ok _ => (w', none)
    | .error e => (w', some e)

/-- Runs a body up to the first fault that is not caught. -/
def run (w : Work) : List BodyStep → Work × Option Fault
  | [] => (w, none)
  | s :: rest =>
    match w.perform s.step with
    | (w', none) => run w' rest
    | (w', some e) => if s.caught then run w' rest else (w', some e)

end Work

/-- The end of a unit of work: the table that others see, and the fault that left the body. -/
structure Settled where
  table : Table
  answers : List (Except Fault (Option Client))
  accesses : List Access
  raised : Option Fault
  log : List LogRecord

def rolledBack (e : Fault) : LogRecord :=
  ⟨.warning, .session, "Rolled back database session".toList, [], some e⟩

/-- Whether there is a database to work on, and what its commits fail with if they fail. -/
structure Backend where
  configured : Bool
  refusal : Option Fault

def Backend.ready : Backend := ⟨true, none⟩

def undo (t : Table) (w : Work) (session : Session) (e : Fault) : Settled :=
  ⟨t, w.answers, (session.note .rollback).accesses, some e, w.log ++ [rolledBack e]⟩

/-- Runs a body on a table. A fault of the body or of the commit undoes the whole body; without
a configured database there is no session at all. -/
def unitOfWork (backend : Backend) (t : Table) (body : List BodyStep) : Settled :=
  if backend.configured then
    match (Work.start t).run body with
    | (w, none) =>
      let session := w.session.note .commit
      match backend.refusal with
      | none => ⟨w.session.table, w.answers, session.accesses, none, w.log⟩
      | some e => undo t w session e
    | (w, some e) => undo t w w.session e
  else ⟨t, [], [], some .notConfigured, []⟩

end ClientRegistry
