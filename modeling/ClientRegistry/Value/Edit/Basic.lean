import ClientRegistry.Fault

/-! Edits of containers in place. A batch of edits stops at the first that fails and keeps what
was done before. -/

namespace ClientRegistry

inductive Method where
  | add
  | remove
  | discard
  | clear
  | update
  | differenceUpdate
  | intersectionUpdate
  | symmetricDifferenceUpdate
  | pop
  | setDefault
  | setItem
  | delItem
  | append
  | extend
  | insert
  | reverse
  | other
  deriving DecidableEq

/-- One edit of a callback: a method call, or the callback's own failure. -/
inductive Edit (α : Type) where
  | call (method : Method) (args : List α)
  | stop (reason : String)

def Edit.map {α β : Type} (f : α → β) : Edit α → Edit β
  | .call method args => .call method (args.map f)
  | .stop reason => .stop reason

/-- A container after an edit, and the fault that ended the edit. -/
abbrev Edited (σ : Type) := σ × Option Fault

namespace Edit

/-- An edit that is done as a whole or not at all. -/
def whole {σ : Type} (s : σ) : Except Fault σ → Edited σ
  | .ok s' => (s', none)
  | .error e => (s, some e)

variable {α : Type}

/-- Runs a batch on a container: the last state reached, and the fault that ended the batch. -/
def run {σ : Type} (step : Method → List α → σ → Edited σ) : List (Edit α) → σ → Edited σ
  | [], s => (s, none)
  | stop reason :: _, s => (s, some (.stopped reason))
  | call method args :: rest, s =>
    match step method args s with
    | (s', none) => run step rest s'
    | stopped => stopped

/-- What a call on something that cannot be edited meets. -/
def refusal (method : Method) : Fault :=
  match method with
  | .setItem => .badType
  | .delItem => .badType
  | _ => .noAttribute

/-- A batch on something that cannot be edited. -/
def refuse : List (Edit α) → Option Fault
  | [] => none
  | stop reason :: _ => some (.stopped reason)
  | call method _ :: _ => some (refusal method)

end Edit

end ClientRegistry
