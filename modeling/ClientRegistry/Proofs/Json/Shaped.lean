import ClientRegistry.Proofs.Json.Number
import ClientRegistry.Proofs.Value.Keyed

/-! Values that have a JSON text of their own: nulls, booleans, integers, doubles, texts, lists,
and dictionaries with texts for keys. What is not finite is written as null and so settles to
null; nothing else changes when such a value is written and read. -/

namespace ClientRegistry.Json

/-- Values of the JSON types, whose doubles are as given, whose integers are of at most 4300
characters and whose non-empty containers are nested no deeper than there is room. -/
inductive Shaped (double : Binary64 → Prop) : Nat → Value → Prop
  | null (room : Nat) : Shaped double room .null
  | bool (room : Nat) (b : Bool) : Shaped double room (.bool b)
  | int (room : Nat) (n : Int) (readable : IntReadable n) : Shaped double room (.int n)
  | real (room : Nat) (x : Binary64) (h : double x) : Shaped double room (.real x)
  | text (room : Nat) (s : String) : Shaped double room (.text s)
  | emptyList (room : Nat) : Shaped double room (.list [])
  | list (room : Nat) (xs : List Value) (items : ∀ x ∈ xs, Shaped double room x) :
      Shaped double (room + 1) (.list xs)
  | emptyDict (room : Nat) : Shaped double room (.dict [])
  | dict (room : Nat) (es : Options) (keyed : Entries.Keyed es)
      (values : ∀ e ∈ es, Shaped double room e.2) : Shaped double (room + 1) (.dict es)

/-- Finite doubles in their canonical form. -/
def IsFinite (x : Binary64) : Prop :=
  x.Canonical ∧ ∃ negative m e, x = .finite negative m e

mutual

/-- The value that is read where `v` was written. -/
def settled : Value → Value
  | .real (.finite negative m e) => .real (.finite negative m e)
  | .real _ => .null
  | .list xs => .list (settledList xs)
  | .dict es => .dict (settledEntries es)
  | v => v

def settledList : List Value → List Value
  | [] => []
  | x :: xs => settled x :: settledList xs

def settledEntries : List (Value × Value) → List (Value × Value)
  | [] => []
  | (k, v) :: es => (k, settled v) :: settledEntries es

end

theorem settledList_eq_map (xs : List Value) : settledList xs = xs.map settled := by
  induction xs with
  | nil => rfl
  | cons x rest ih => rw [settledList, ih, List.map_cons]

theorem settledEntries_eq_map (es : Options) :
    settledEntries es = es.map fun e => (e.1, settled e.2) := by
  induction es with
  | nil => rfl
  | cons e rest ih => rw [settledEntries, ih, List.map_cons]

theorem keys_settledEntries (es : Options) : (settledEntries es).map Prod.fst = es.map Prod.fst := by
  rw [settledEntries_eq_map, List.map_map]
  rfl

theorem Keyed.settled {es : Options} (h : Entries.Keyed es) : Entries.Keyed (settledEntries es) := by
  refine ⟨?_, by rw [keys_settledEntries]; exact h.distinct⟩
  rw [settledEntries_eq_map, List.forall_mem_map]
  exact h.texts

namespace Shaped

variable {double other : Binary64 → Prop} {room : Nat} {v : Value}

theorem mono (imp : ∀ x, double x → other x) (h : Shaped double room v) : Shaped other room v := by
  induction h with
  | null room => exact .null room
  | bool room b => exact .bool room b
  | int room n readable => exact .int room n readable
  | real room x h => exact .real room x (imp x h)
  | text room s => exact .text room s
  | emptyList room => exact .emptyList room
  | list room xs _ ih => exact .list room xs ih
  | emptyDict room => exact .emptyDict room
  | dict room es keyed _ ih => exact .dict room es keyed ih

theorem settled_eq_self (h : Shaped IsFinite room v) : settled v = v := by
  induction h with
  | null | bool | int | text | emptyList | emptyDict => rfl
  | real room x h =>
      obtain ⟨-, negative, m, e, rfl⟩ := h
      rfl
  | list room xs _ ih =>
      rw [settled, settledList_eq_map, List.map_congr_left ih, List.map_id']
  | dict room es _ _ ih =>
      have same : ∀ e ∈ es, (e.1, Json.settled e.2) = e := fun e member =>
        Prod.ext rfl (ih e member)
      rw [settled, settledEntries_eq_map, List.map_congr_left same, List.map_id']

theorem keyed {es : Options} (h : Shaped double room (.dict es)) : Entries.Keyed es := by
  cases h with
  | emptyDict => exact .nil
  | dict room es keyed values => exact keyed

/-- Nothing that is read back is settled twice. -/
theorem settled_isFinite (h : Shaped Binary64.Canonical room v) :
    Shaped IsFinite room (settled v) := by
  induction h with
  | null room => exact .null room
  | bool room b => exact .bool room b
  | int room n readable => exact .int room n readable
  | real room x h =>
      cases x with
      | finite negative m e => exact .real room _ ⟨h, negative, m, e, rfl⟩
      | infinite negative => exact .null room
      | nan mark => exact .null room
  | text room s => exact .text room s
  | emptyList room => exact .emptyList room
  | list room xs _ ih =>
      rw [settled, settledList_eq_map]
      exact .list room _ (List.forall_mem_map.mpr ih)
  | emptyDict room => exact .emptyDict room
  | dict room es keyed _ ih =>
      refine .dict room _ (Keyed.settled keyed) ?_
      rw [settledEntries_eq_map]
      exact List.forall_mem_map.mpr ih

end Shaped

theorem depthList_le {xs : List Value} {bound : Nat} (items : ∀ x ∈ xs, depth x ≤ bound) :
    depthList xs ≤ bound := by
  induction xs with
  | nil => exact Nat.zero_le _
  | cons x rest ih =>
      rw [List.forall_mem_cons] at items
      exact Nat.max_le.mpr ⟨items.1, ih items.2⟩

theorem depthEntries_le {es : Options} {bound : Nat} (values : ∀ e ∈ es, depth e.2 ≤ bound) :
    depthEntries es ≤ bound := by
  induction es with
  | nil => exact Nat.zero_le _
  | cons e rest ih =>
      rw [List.forall_mem_cons] at values
      exact Nat.max_le.mpr ⟨values.1, ih values.2⟩

theorem Shaped.depth_le {double : Binary64 → Prop} {room : Nat} {v : Value}
    (h : Shaped double room v) : depth v ≤ room + 1 := by
  induction h with
  | null | bool | int | real | text | emptyList | emptyDict => exact Nat.le_add_left 1 _
  | list room xs _ ih => exact Nat.succ_le_succ (depthList_le ih)
  | dict room es _ _ ih => exact Nat.succ_le_succ (depthEntries_le ih)

end ClientRegistry.Json
