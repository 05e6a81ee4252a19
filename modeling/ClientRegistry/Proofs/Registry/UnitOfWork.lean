import ClientRegistry.Proofs.Registry.Simulation

/-! A unit of work is all or nothing. No step of a body commits, rolls back or speaks for the
session; what a body leaves in the table is told by its answers, one row for each accepted save.
It is committed if no fault leaves the body and undone if one does. -/

namespace ClientRegistry

namespace Outcome

variable {α β : Type} {x : Outcome α} {f : α → Outcome β}

/-- Nothing is logged by the session. -/
def Silent (x : Outcome α) : Prop := ∀ r ∈ x.log, r.channel ≠ .session

theorem Silent.bind (first : x.Silent) (rest : ∀ a, (f a).Silent) : (x >>= f).Silent := by
  obtain ⟨result, log⟩ := x
  cases result with
  | error e => exact first
  | ok a =>
      intro r member
      rcases List.mem_append.mp member with old | new
      · exact first r old
      · exact rest a r new

end Outcome

namespace Validation

end Validation

/-- Commits and rollbacks, which end a unit of work. -/
def Access.ends : Access → Bool
  | commit => true
  | rollback => true
  | _ => false

/-- The client that is found at the first of some positions among the answers so far, and another
one if there is none at any of them. -/
def chosen (before : List Answer) : List Nat → Except Fault Client → Except Fault Client
  | [], otherwise => otherwise
  | position :: rest, otherwise => match before[position]? with
    | some (.ok (some c)) => .ok c
    | _ => chosen before rest otherwise

/-- The rows that a step stores, by its answer: an accepted save stores the row of its client, and
what is refused stores nothing. -/
inductive Stores (before : List Answer) : WorkStep → Answer → List Row → Prop
  | save {c : Client} {row : Row} (written : Row.ofClient c = .ok row) :
      Stores before (.save c) (.ok none) [row]
  | saveFound {positions : List Nat} {otherwise : Except Fault Client} {c : Client} {row : Row}
      (found : chosen before positions otherwise = .ok c) (written : Row.ofClient c = .ok row) :
      Stores before (.saveFound positions otherwise) (.ok none) [row]
  | putRow (row : Row) : Stores before (.putRow row) (.ok none) [row]
  | findById (key : Value) (found : Option Client) : Stores before (.findById key) (.ok found) []
  | findByClientId (key : Value) (found : Option Client) :
      Stores before (.findByClientId key) (.ok found) []
  | refused (step : WorkStep) (e : Fault) : Stores before step (.error e) []

/-- The course of a body: its answers, the rows that it stores, and the fault that leaves it. A body
goes on after a fault that is caught and is left at the first that is not. -/
inductive Course : List Answer → List BodyStep → List Answer → List Row → Option Fault → Prop
  | done (before : List Answer) : Course before [] [] [] none
  | accepted {before : List Answer} {s : BodyStep} {found : Option Client} {rows : List Row}
      {body : List BodyStep} {answers : List Answer} {rows' : List Row} {fault : Option Fault}
      (stores : Stores before s.step (.ok found) rows)
      (rest : Course (before ++ [.ok found]) body answers rows' fault) :
      Course before (s :: body) (.ok found :: answers) (rows ++ rows') fault
  | caught {before : List Answer} {s : BodyStep} {e : Fault} {body : List BodyStep}
      {answers : List Answer} {rows : List Row} {fault : Option Fault} (caught : s.caught = true)
      (rest : Course (before ++ [.error e]) body answers rows fault) :
      Course before (s :: body) (.error e :: answers) rows fault
  | left {before : List Answer} {s : BodyStep} {e : Fault} {body : List BodyStep}
      (uncaught : s.caught = false) : Course before (s :: body) [.error e] [] (some e)

theorem Stores.unique {before : List Answer} {step : WorkStep} {a : Answer} {rows rows' : List Row}
    (h : Stores before step a rows) (h' : Stores before step a rows') : rows = rows' := by
  cases h with
  | save written =>
      cases h' with
      | save written' => rw [Except.ok.inj (written.symm.trans written')]
  | saveFound found written =>
      cases h' with
      | saveFound found' written' =>
          obtain rfl := Except.ok.inj (found.symm.trans found')
          rw [Except.ok.inj (written.symm.trans written')]
  | _ => cases h'; rfl

/-- The answers of a body tell what it stores and which fault leaves it. -/
theorem Course.unique {before answers : List Answer} {body : List BodyStep} {rows rows' : List Row}
    {fault fault' : Option Fault} (h : Course before body answers rows fault)
    (h' : Course before body answers rows' fault') : rows = rows' ∧ fault = fault' := by
  induction h generalizing rows' fault' with
  | done => cases h'; exact ⟨rfl, rfl⟩
  | accepted stores rest ih =>
      cases h' with
      | accepted stores' rest' =>
          obtain ⟨same, same'⟩ := ih rest'
          exact ⟨by rw [stores.unique stores', same], same'⟩
  | caught caught rest ih =>
      cases h' with
      | caught _ rest' => exact ih rest'
      | left uncaught => rw [caught] at uncaught; cases uncaught
  | left uncaught =>
      cases h' with
      | caught caught rest' => rw [caught] at uncaught; cases uncaught
      | left _ => exact ⟨rfl, rfl⟩

namespace Session

end Session

namespace Work

variable {w w' w'' : Work} {as bs : List Answer} {rows rows' : List Row} {a : Answer}

/-- From one state of a body to a later one: more answers, more accesses and more log, with no end
of the unit and no word of the session among them, and some rows stored. -/
structure Extends (w w' : Work) (as : List Answer) (rows : List Row) : Prop where
  answers : w'.answers = w.answers ++ as
  table : w'.session.table = rows.foldl Table.merge w.session.table
  accesses : ∃ own, w'.session.accesses = w.session.accesses ++ own ∧ ∀ a ∈ own, a.ends = false
  log : ∃ own, w'.log = w.log ++ own ∧ ∀ r ∈ own, r.channel ≠ .session

theorem Extends.refl (w : Work) : w.Extends w [] [] :=
  ⟨by simp, rfl, ⟨[], by simp⟩, ⟨[], by simp⟩⟩

theorem Extends.trans (first : w.Extends w' as rows) (second : w'.Extends w'' bs rows') :
    w.Extends w'' (as ++ bs) (rows ++ rows') where
  answers := by rw [second.answers, first.answers, List.append_assoc]
  table := by rw [second.table, first.table, List.foldl_append]
  accesses := by
    obtain ⟨own, eq, inner⟩ := first.accesses
    obtain ⟨own', eq', inner'⟩ := second.accesses
    refine ⟨own ++ own', by rw [eq', eq, List.append_assoc], fun x member => ?_⟩
    exact (List.mem_append.mp member).elim (inner x) (inner' x)
  log := by
    obtain ⟨own, eq, silent⟩ := first.log
    obtain ⟨own', eq', silent'⟩ := second.log
    refine ⟨own ++ own', by rw [eq', eq, List.append_assoc], fun r member => ?_⟩
    exact (List.mem_append.mp member).elim (silent r) (silent' r)

/-- The fault that a step passes on is that of its answer. -/
def faultOf : Answer → Option Fault
  | .ok _ => none
  | .error e => some e

/-- One step of a body: it answers, stores what its answer tells, and passes its fault on. -/
def Steps (w : Work) (step : WorkStep) (next : Work × Option Fault) : Prop :=
  ∃ a rows, w.Extends next.1 [a] rows ∧ Stores w.answers step a rows ∧ next.2 = faultOf a

end Work

namespace Settled

end Settled

end ClientRegistry
