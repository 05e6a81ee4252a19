import ClientRegistry.Value.Basic

/-! Values as they are read in: each not-a-number gets a mark of its own, and repeated members
and keys are merged. -/

namespace ClientRegistry.Value

mutual

/-- The value with marks from `next` on, and the next free mark. -/
def freshen (next : Nat) : Value → Value × Nat
  | real x => if x.isNaN then (real (.nan next), next + 1) else (real x, next)
  | bag kind options =>
    let (es, next) := freshenEntries next options
    (bag kind (Entries.ofList es), next)
  | token kind name => let (name, next) := name.freshen next; (token kind name, next)
  | list xs => let (ys, next) := freshenList next xs; (list ys, next)
  | tuple xs => let (ys, next) := freshenList next xs; (tuple ys, next)
  | set xs => let (ys, next) := freshenList next xs; (set (toMembers ys), next)
  | frozen xs => let (ys, next) := freshenList next xs; (frozen (toMembers ys), next)
  | dict es => let (fs, next) := freshenEntries next es; (dict (Entries.ofList fs), next)
  | v => (v, next)

def freshenList (next : Nat) : List Value → List Value × Nat
  | [] => ([], next)
  | x :: xs =>
    let (y, next) := x.freshen next
    let (ys, next) := freshenList next xs
    (y :: ys, next)

def freshenEntries (next : Nat) : List (Value × Value) → List (Value × Value) × Nat
  | [] => ([], next)
  | (k, v) :: es =>
    let (k, next) := k.freshen next
    let (v, next) := v.freshen next
    let (fs, next) := freshenEntries next es
    ((k, v) :: fs, next)

end

end ClientRegistry.Value

/-- Entries whose keys have marks from `next` on. -/
def ClientRegistry.Entries.freshenKeys {α : Type} (next : Nat) :
    List (Value × α) → List (Value × α) × Nat
  | [] => ([], next)
  | (k, a) :: es =>
    let (k, next) := k.freshen next
    let (fs, next) := freshenKeys next es
    ((k, a) :: fs, next)
