import ClientRegistry.Proofs.Store.Reading

/-! Stores that only grow. New cells behind the old ones change nothing that is read of the old
ones, and the copy of a bag among them holds the options of the bag. -/

namespace ClientRegistry

namespace Store

variable {s s' : Store} {kept : Address → Bool} {xs : List Shared} {a : Address} {x : Shared}

/-- The second store has the cells of the first, and perhaps more behind them. -/
structure Extends (s s' : Store) : Prop where
  length_le : s.length ≤ s'.length
  cells : ∀ a < s.length, s'.cellAt a = s.cellAt a

namespace Extends

theorem refl (s : Store) : s.Extends s := ⟨Nat.le_refl _, fun _ _ => rfl⟩

theorem trans {s'' : Store} (first : s.Extends s') (second : s'.Extends s'') : s.Extends s'' where
  length_le := Nat.le_trans first.length_le second.length_le
  cells a inside := by
    rw [second.cells a (Nat.lt_of_lt_of_le inside first.length_le), first.cells a inside]

theorem append (s : Store) (cells : List Cell) : s.Extends (s ++ cells) where
  length_le := List.length_append ▸ Nat.le_add_right _ _
  cells _ inside := cellAt_append_left inside cells

theorem read (h : s.Extends s') (ranked : s.Ranked)
    (inside : ∀ a, x.address? = some a → a < s.length) : s'.read x = s.read x :=
  ranked.read_of_cellAt h.length_le h.cells inside

theorem optionsAt (h : s.Extends s') (ranked : s.Ranked) (inside : a < s.length) :
    s'.optionsAt a = s.optionsAt a := by
  rw [optionsAt_eq, optionsAt_eq, h.cells a inside]
  refine Cell.options_congr fun x member => h.read ranked fun b at' => ?_
  obtain ⟨rank, below⟩ := ranked
  exact (below a b ⟨x, member, at'⟩).1

end Extends

theorem Lays.extends (h : s.Lays s') : s.Extends s' := ⟨h.length_le, fun _ => h.cellAt⟩

theorem Copies.extends (h : s.Copies kept xs s') : s.Extends s' := ⟨h.length_le, fun _ => h.cellAt⟩

theorem copyBag_extends (s : Store) (x : Shared) : s.Extends (s.copyBag x).1 := by
  cases x with
  | bag kind a => exact (copied_copies s _).extends
  | _ => exact .append s _

theorem copyBag_ranked (h : s.Ranked) (inside : ∀ a, x.address? = some a → a < s.length) :
    (s.copyBag x).1.Ranked := by
  cases x with
  | bag kind a =>
      refine (copied_copies s [.cell a]).ranked h fun y member b at' => ?_
      rw [List.mem_singleton.mp member] at at'
      exact inside b at'
  | _ => exact h.concat fun _ member => by cases member

theorem copyEntries_ranked (h : s.Ranked) {es : List (Value × Shared)}
    (inside : ∀ e ∈ es, ∀ a, e.2.address? = some a → a < s.length) :
    (s.copyEntries es).1.Ranked := by
  have gathered : (s ++ [Cell.dict es]).Ranked := h.concat (List.forall_mem_map.mpr inside)
  refine (copied_copies (s ++ [.dict es]) [.cell s.length]).ranked gathered fun y member b at' => ?_
  rw [List.mem_singleton.mp member] at at'
  cases at'
  simp

/-- The copy of a cell is there, and holds the options that the cell does. -/
theorem copyCell_optionsAt (h : s.Ranked) (inside : a < s.length) :
    (s.copyCell a).2 < (s.copyCell a).1.length ∧
      (s.copyCell a).1.optionsAt (s.copyCell a).2 = s.optionsAt a := by
  have copies := copied_copies s [.cell a]
  have source : ∀ x ∈ [Shared.cell a], ∀ b, x.address? = some b → b < s.length := by
    intro x member b at'
    rw [List.mem_singleton.mp member] at at'
    cases at'
    exact inside
  have reached : s.isFixed a = true ∨ a ∈ s.reach s.isFixed [.cell a] := by
    cases kept : s.isFixed a with
    | true => exact .inl rfl
    | false => exact .inr (mem_reach_self (List.mem_singleton_self _) rfl inside kept)
  have there : (s.copyCell a).2 < (s.copyCell a).1.length := by
    rcases copies.place_rigid_or_new reached with rigid | new
    · exact Nat.lt_of_lt_of_le rigid.lt copies.length_le
    · exact new.2
  refine ⟨there, ?_⟩
  have ranked : (s.copyCell a).1.Ranked := copies.ranked h source
  have read : (s.copyCell a).1.read (.bag .client (s.copyCell a).2) = s.read (.bag .client a) :=
    h.read_copied (x := .bag .client a) source fun b at' => by
      cases at'
      exact reached
  rw [ranked.read_bag there, h.read_bag inside] at read
  exact (Value.bag.inj read).2

/-- The options of a held bag; what is no bag has none. -/
def bagOptions (s : Store) : Shared → Options
  | .bag _ a => s.optionsAt a
  | _ => []

/-- The copy of a bag has its options, and a bag that is made for none has none. -/
theorem copyBag_optionsAt (h : s.Ranked) (inside : ∀ a, x.address? = some a → a < s.length) :
    (s.copyBag x).2 < (s.copyBag x).1.length ∧
      (s.copyBag x).1.optionsAt (s.copyBag x).2 = s.bagOptions x := by
  have none : s.length < (s ++ [Cell.dict []]).length ∧
      optionsAt (s ++ [Cell.dict []]) s.length = [] := by
    rw [optionsAt_eq, cellAt_concat]
    exact ⟨by simp, rfl⟩
  cases x with
  | bag kind a => exact copyCell_optionsAt h (inside a rfl)
  | leaf v => exact none
  | cell a => exact none

theorem Extends.bagOptions (h : s.Extends s') (ranked : s.Ranked)
    (inside : ∀ a, x.address? = some a → a < s.length) : s'.bagOptions x = s.bagOptions x := by
  cases x with
  | bag kind a => exact h.optionsAt ranked (inside a rfl)
  | _ => rfl

/-- Two bags are copied one after the other. -/
def copyBags (s : Store) (x y : Shared) : Store × Address × Address :=
  let (first, a) := s.copyBag x
  let (second, b) := first.copyBag y
  (second, a, b)

theorem copyBags_extends (s : Store) (x y : Shared) : s.Extends (s.copyBags x y).1 :=
  (copyBag_extends s x).trans (copyBag_extends _ y)

/-- Both copies are there and have the options of the bags. -/
theorem copyBags_optionsAt (h : s.Ranked) {y : Shared}
    (inside : ∀ a, x.address? = some a → a < s.length)
    (inside' : ∀ a, y.address? = some a → a < s.length) :
    (s.copyBags x y).1.Ranked ∧
      ((s.copyBags x y).2.1 < (s.copyBags x y).1.length ∧
        (s.copyBags x y).1.optionsAt (s.copyBags x y).2.1 = s.bagOptions x) ∧
      (s.copyBags x y).2.2 < (s.copyBags x y).1.length ∧
        (s.copyBags x y).1.optionsAt (s.copyBags x y).2.2 = s.bagOptions y := by
  have first := copyBag_extends s x
  have second := copyBag_extends (s.copyBag x).1 y
  have ranked := copyBag_ranked h inside
  have inside'' : ∀ a, y.address? = some a → a < (s.copyBag x).1.length :=
    fun a at' => Nat.lt_of_lt_of_le (inside' a at') first.length_le
  obtain ⟨there, options⟩ := copyBag_optionsAt h inside
  obtain ⟨there', options'⟩ := copyBag_optionsAt ranked inside''
  refine ⟨copyBag_ranked ranked inside'', ⟨?_, ?_⟩, there', ?_⟩
  · exact Nat.lt_of_lt_of_le there second.length_le
  · exact (second.optionsAt ranked there).trans options
  · exact options'.trans (first.bagOptions h inside')

end Store

end ClientRegistry
