import ClientRegistry.Proofs.Store.Reading
import ClientRegistry.Proofs.Store.Untouched

/-! Looking into a bag. A look hands out the options themselves, and with them all that they are
made of, other bags apart: these cells are exposed. Edits that start from a look reach exposed
cells and new ones, and no others. Every exposed list, set or dictionary that a path leads to can
be edited so that the bag reads otherwise. -/

namespace ClientRegistry

namespace Store

variable {old s s' : Store} {root a b : Address} {x : Shared}

/-- The second cell is a part of the first. What is in a bag is no part of its holder. -/
def Opens (s : Store) (a b : Address) : Prop := .cell b ∈ (s.cellAt a).parts

/-- A look into the bag leads to the cell. -/
def Exposed (s : Store) (root : Address) : Address → Prop := Relation.TransGen s.Opens root

theorem Opens.mentions (h : s.Opens a b) : s.Mentions a b := ⟨_, h, rfl⟩

/-- A bag is not among its own options. -/
theorem Ranked.ne_of_exposed (h : s.Ranked) (exposed : s.Exposed root a) : a ≠ root := by
  obtain ⟨rank, below⟩ := h
  have lower : rank a < rank root := by
    induction exposed with
    | single opens => exact (below _ _ opens.mentions).2
    | tail _ opens ih => exact Nat.lt_trans (below _ _ opens.mentions).2 ih
  rintro rfl
  exact Nat.lt_irrefl _ lower

/-- What is exposed belongs to the bag. -/
theorem Ranked.bagCells_of_exposed (h : s.Ranked) (inside : root < s.length)
    (exposed : s.Exposed root a) : a ∈ s.bagCells root := by
  induction exposed with
  | single opens => exact h.bagCells_closed inside (mem_bagCells_self inside) opens.mentions
  | tail _ opens ih => exact h.bagCells_closed inside ih opens.mentions

/-- The cell is exposed by a look into the bag of the old store, or is new. -/
def Seen (old : Store) (root a : Address) : Prop := old.length ≤ a ∨ old.Exposed root a

/-- The parts of a cell that is seen are seen, and so are the options of the bag. -/
structure Viewed (old : Store) (root : Address) (s : Store) : Prop where
  length_le : old.length ≤ s.length
  parts : ∀ a b, a = root ∨ old.Seen root a → s.Opens a b → old.Seen root b

theorem Viewed.refl (s : Store) (root : Address) : s.Viewed root s where
  length_le := Nat.le_refl _
  parts a b known opens := by
    rcases known with rfl | outside | exposed
    · exact .inr (.single opens)
    · exact absurd (lt_of_mem_parts opens) (Nat.not_lt_of_le outside)
    · exact .inr (exposed.tail opens)

namespace Viewed

theorem closed (h : old.Viewed root s) : s.Closed fun x => ∀ a, x = .cell a → old.Seen root a where
  leaf _ _ same := by cases same
  parts a known x member b same := by
    subst same
    exact h.parts a b (.inr (known a rfl)) member

/-- What is laid out is new. -/
theorem lays (h : old.Viewed root s) (laid : s.Lays s') : old.Viewed root s' where
  length_le := Nat.le_trans h.length_le laid.length_le
  parts a b known opens := by
    by_cases there : a < s.length
    · rw [Opens, laid.cellAt there] at opens
      exact h.parts a b known opens
    · obtain ⟨cells, rfl, inner⟩ := laid
      exact .inl (Nat.le_trans h.length_le (inner a b (Nat.le_of_not_lt there) opens.mentions).1)

/-- A look makes a new dictionary with the options. -/
theorem look (h : old.Viewed root s) : old.Viewed root (s ++ [.dict (s.entriesAt root)]) where
  length_le := Nat.le_trans h.length_le (by simp)
  parts a b known opens := by
    have inside := lt_of_mem_parts opens
    rw [List.length_append, List.length_singleton] at inside
    rcases Nat.lt_succ_iff_lt_or_eq.mp inside with there | rfl
    · rw [Opens, cellAt_append_left there] at opens
      exact h.parts a b known opens
    · rw [Opens, cellAt_concat] at opens
      obtain ⟨e, listed, same⟩ := List.mem_map.mp opens
      refine h.parts root b (.inl rfl) ?_
      rw [Opens, ← same]
      exact mem_parts_of_entriesAt listed

/-- A cell that is seen takes up what it had and what is new. -/
theorem edit (h : old.Viewed root s) {P : Shared → Prop}
    (new : ∀ x, P x → ∀ b, x = .cell b → old.Seen root b)
    (seen : old.Seen root a) (edits : s.Edits P a s') : old.Viewed root s' := by
  rcases edits with rfl | ⟨c, rfl, inside, -, -, -, parts⟩
  · exact h
  · refine ⟨?_, fun d b known opens => ?_⟩
    · rw [List.length_set]
      exact h.length_le
    · by_cases same : a = d
      · subst same
        rw [Opens, cellAt_set_self inside] at opens
        rcases parts _ opens with there | brought
        · exact h.parts a b (.inr seen) there
        · exact new _ brought b rfl
      · rw [Opens, cellAt_set_ne same] at opens
        exact h.parts d b known opens

end Viewed

theorem Ranked.read_part (h : s.Ranked) (h' : s'.Ranked) (less : s.length ≤ s'.length)
    (same : s'.cellAt b = s.cellAt b) (read : s'.read (.cell b) = s.read (.cell b)) :
    ∀ x ∈ (s.cellAt b).parts, s'.read x = s.read x := by
  intro x member
  have inside := lt_of_mem_parts member
  rw [h.read_cell inside, h'.read_cell (Nat.lt_of_lt_of_le inside less), same] at read
  exact Cell.views_of_value read x member

/-- If only one cell changed, and the value at the start of a path reads as before, then so does
the cell at its end. -/
theorem Ranked.read_walk (h : s.Ranked) (h' : s'.Ranked) (less : s.length ≤ s'.length)
    (same : ∀ b < s.length, b ≠ a → s'.cellAt b = s.cellAt b) {path : List Value}
    (found : s.walk x path = .ok (.cell a)) (read : s'.read x = s.read x) :
    s'.read (.cell a) = s.read (.cell a) := by
  let P : Shared → Prop := fun y => s'.read (.cell a) = s.read (.cell a) ∨ s'.read y = s.read y
  have closed : s.Closed P := by
    refine ⟨fun v => .inr ?_, fun b known y member => ?_⟩
    · simp only [Store.read, readWithin_leaf]
    · by_cases last : b = a
      · exact .inl (known.elim id fun read => last ▸ read)
      · have kept := same b (lt_of_mem_parts member) last
        exact known.imp_right fun read => h.read_part h' less kept read y member
  have known : P (.cell a) := closed.walk (.inr read) found
  exact known.elim id id

end Store

/-- How many items a cell has. -/
def Cell.size : Cell → Nat
  | leaf _ => 0
  | list xs => xs.length
  | tuple xs => xs.length
  | set xs => xs.length
  | dict es => es.length

theorem Cell.size_of_value {view view' : Shared → Value} {c d : Cell} (h : c.editable = true)
    (h' : d.editable = true) (same : c.value view = d.value view') : c.size = d.size := by
  cases c with
  | leaf v => cases h
  | tuple xs => cases h
  | list xs =>
      cases d with
      | list ys => simpa [size] using congrArg List.length (Value.list.inj same)
      | leaf v => cases h'
      | _ => cases same
  | set xs =>
      cases d with
      | set ys => exact congrArg List.length (Value.set.inj same)
      | leaf v => cases h'
      | _ => cases same
  | dict es =>
      cases d with
      | dict fs => simpa [size] using congrArg List.length (Value.dict.inj same)
      | leaf v => cases h'
      | _ => cases same

end ClientRegistry
