import ClientRegistry.Proofs.Store.Ranked
import Mathlib.Data.List.Nodup

/-! Copying. Every cell that is copied has one copy behind the old cells, which mentions the copies
of what the cell mentions; the cells that are kept are rigid. Deep copies and copies by way of
bytes both are of this form. -/

namespace ClientRegistry

theorem Shared.address?_freshen (next : Nat) (x : Shared) :
    (x.freshen next).1.address? = x.address? := by
  cases x <;> rfl

theorem Shared.address?_freshenAll (next : Nat) (xs : List Shared) :
    (freshenAll next xs).1.map address? = xs.map address? := by
  induction xs generalizing next with
  | nil => rfl
  | cons x rest ih =>
      simp only [freshenAll, List.map_cons, ih]
      rw [address?_freshen]

theorem Shared.address?_freshenEntries (next : Nat) (es : List (Value × Shared)) :
    (freshenEntries next es).1.map (fun e => e.2.address?) = es.map fun e => e.2.address? := by
  induction es generalizing next with
  | nil => rfl
  | cons e rest ih =>
      obtain ⟨k, x⟩ := e
      simp only [freshenEntries, List.map_cons, ih]
      rw [address?_freshen]

namespace Cell

/-- The cell has the kind of another, and mentions what this one does with the addresses changed. -/
def Twin (f : Address → Address) (c d : Cell) : Prop :=
  d.editable = c.editable ∧ d.isDict = c.isDict ∧
    d.parts.map Shared.address? = c.parts.map fun x => x.address?.map f

theorem twin_relocate (f : Address → Address) (c : Cell) : c.Twin f (c.relocate f) := by
  cases c <;>
    simp [Twin, relocate, editable, isDict, parts, Function.comp_def]

theorem Twin.freshen {f : Address → Address} {c d : Cell} (h : c.Twin f d) (next : Nat) :
    c.Twin f (d.freshen next).1 := by
  obtain ⟨editable, isDict, parts⟩ := h
  rw [Twin, ← editable, ← isDict, ← parts]
  cases d with
  | leaf v => exact ⟨rfl, rfl, rfl⟩
  | list xs => exact ⟨rfl, rfl, Shared.address?_freshenAll next xs⟩
  | tuple xs => exact ⟨rfl, rfl, Shared.address?_freshenAll next xs⟩
  | set xs => exact ⟨rfl, rfl, rfl⟩
  | dict es =>
      refine ⟨rfl, rfl, ?_⟩
      simpa only [Cell.parts, Cell.freshen, List.map_map, Function.comp_def]
        using Shared.address?_freshenEntries next es

theorem twins_freshenAll {f : Address → Address} {cs ds : List Cell} (next : Nat)
    (h : List.Forall₂ (Twin f) cs ds) : List.Forall₂ (Twin f) cs (freshenAll next ds).1 := by
  induction h generalizing next with
  | nil => exact .nil
  | cons first rest ih => exact .cons (first.freshen next) (ih _)

end Cell

namespace Store

variable {s s' : Store} {kept : Address → Bool} {xs : List Shared} {a b : Address}

theorem nodup_eraseDups (as : List Address) : as.eraseDups.Nodup := by
  generalize size : as.length = n
  induction n using Nat.strongRecOn generalizing as with
  | _ n ih =>
      cases as with
      | nil => exact List.nodup_nil
      | cons a rest =>
          have shorter : (rest.filter fun b => !b == a).length < n := by
            have := List.length_filter_le (fun b => !b == a) rest
            simp only [List.length_cons] at size
            omega
          rw [List.eraseDups_cons, List.nodup_cons]
          refine ⟨?_, ih _ shorter _ rfl⟩
          simp [List.mem_eraseDups]

theorem nodup_reach (s : Store) (kept : Address → Bool) (xs : List Shared) :
    (s.reach kept xs).Nodup :=
  nodup_eraseDups _

/-- The second store is the first with copies of all that the values reach, up to rigid cells. -/
structure Copies (s : Store) (kept : Address → Bool) (xs : List Shared) (s' : Store) : Prop where
  rigid : ∀ a, kept a = true → s.Rigid a
  cells : ∃ cells, s' = s ++ cells ∧
    List.Forall₂ (Cell.Twin (s.place kept (s.reach kept xs)))
      ((s.reach kept xs).map s.cellAt) cells

theorem copied_copies (s : Store) (xs : List Shared) : s.Copies s.isFixed xs (s.copied xs).1 where
  rigid _ fixed := rigid_of_isFixed fixed
  cells := by
    refine ⟨_, rfl, List.forall₂_map_left_iff.mpr (List.forall₂_map_right_iff.mpr ?_)⟩
    exact List.forall₂_same.mpr fun a _ => Cell.twin_relocate _ _

theorem transferred_copies (s : Store) (next : Nat) (xs : List Shared) :
    s.Copies (fun _ => false) xs (s.transferred next xs).1 where
  rigid a fixed := by cases fixed
  cells := by
    refine ⟨_, rfl, Cell.twins_freshenAll next ?_⟩
    refine List.forall₂_map_left_iff.mpr (List.forall₂_map_right_iff.mpr ?_)
    exact List.forall₂_same.mpr fun a _ => Cell.twin_relocate _ _

namespace Copies

theorem length_le (h : s.Copies kept xs s') : s.length ≤ s'.length := by
  obtain ⟨cells, rfl, -⟩ := h.cells
  exact List.length_append ▸ Nat.le_add_right _ _

theorem cellAt (h : s.Copies kept xs s') (inside : a < s.length) : s'.cellAt a = s.cellAt a := by
  obtain ⟨cells, rfl, -⟩ := h.cells
  exact cellAt_append_left inside cells

theorem keeps (h : s.Copies kept xs s') : s.Keeps s' := by
  obtain ⟨cells, rfl, -⟩ := h.cells
  exact keeps_append s cells

theorem length_eq (h : s.Copies kept xs s') :
    s'.length = s.length + (s.reach kept xs).length := by
  obtain ⟨cells, rfl, twins⟩ := h.cells
  rw [List.length_append, ← twins.length_eq, List.length_map]

/-- A new cell is the copy of one that was reached. -/
theorem twin (h : s.Copies kept xs s') (new : s.length ≤ a) (inside : a < s'.length) :
    ∃ c ∈ s.reach kept xs, a = s.length + (s.reach kept xs).idxOf c ∧
      (s.cellAt c).Twin (s.place kept (s.reach kept xs)) (s'.cellAt a) := by
  obtain ⟨i, rfl⟩ := Nat.exists_eq_add_of_le new
  rw [h.length_eq] at inside
  have bound : i < (s.reach kept xs).length := Nat.lt_of_add_lt_add_left inside
  obtain ⟨cells, rfl, twins⟩ := h.cells
  have bound' : i < cells.length := by rwa [← twins.length_eq, List.length_map]
  refine ⟨(s.reach kept xs)[i], List.getElem_mem bound, ?_, ?_⟩
  · rw [(nodup_reach s kept xs).idxOf_getElem i bound]
  · have twin := twins.get (by rwa [List.length_map]) bound'
    rw [cellAt_append_right, cellAt_eq_of_getElem? (List.getElem?_eq_getElem bound')]
    simpa using twin

/-- The copy of a cell that is reached and not kept is a new cell. -/
theorem place_new (h : s.Copies kept xs s') (reached : a ∈ s.reach kept xs)
    (copied : kept a = false) : s.length ≤ s.place kept (s.reach kept xs) a ∧
      s.place kept (s.reach kept xs) a < s'.length := by
  rw [place, copied, h.length_eq]
  exact ⟨Nat.le_add_right _ _, Nat.add_lt_add_left (List.idxOf_lt_length_of_mem reached) _⟩

/-- Different cells have different copies. -/
theorem place_inj (reached : a ∈ s.reach kept xs) (copied : kept a = false)
    (copied' : kept b = false)
    (same : s.place kept (s.reach kept xs) a = s.place kept (s.reach kept xs) b) : a = b := by
  simp only [place, copied, copied', Bool.false_eq_true, if_false] at same
  exact (List.idxOf_inj reached).mp (Nat.add_left_cancel same)

theorem twin_place (h : s.Copies kept xs s') (reached : a ∈ s.reach kept xs)
    (copied : kept a = false) : (s.cellAt a).Twin (s.place kept (s.reach kept xs))
      (s'.cellAt (s.place kept (s.reach kept xs) a)) := by
  obtain ⟨new, inside⟩ := h.place_new reached copied
  obtain ⟨c, reached', at', twin⟩ := h.twin new inside
  have place : s.place kept (s.reach kept xs) a = s.length + (s.reach kept xs).idxOf a := by
    rw [place, copied, if_neg Bool.false_ne_true]
  have same : a = c :=
    (List.idxOf_inj reached).mp (Nat.add_left_cancel (place.symm.trans at'))
  exact same ▸ twin

/-- A new cell mentions the copies of what its original mentions. -/
theorem mentions_new (h : s.Copies kept xs s') (ranked : s.Ranked)
    (known : ∀ x ∈ xs, ∀ a, x.address? = some a → a < s.length) (new : s.length ≤ a)
    (mentions : s'.Mentions a b) :
    ∃ c d, a = s.length + (s.reach kept xs).idxOf c ∧ c ∈ s.reach kept xs ∧ s.Mentions c d ∧
      b = s.place kept (s.reach kept xs) d ∧ (kept d = true ∨ d ∈ s.reach kept xs) := by
  obtain ⟨c, reached, at', -, -, parts⟩ := h.twin new mentions.lt
  obtain ⟨y, member, known'⟩ := mentions
  have image : some b ∈ (s'.cellAt a).parts.map Shared.address? :=
    List.mem_map.mpr ⟨y, member, known'⟩
  rw [parts] at image
  obtain ⟨x, part, moved⟩ := List.mem_map.mp image
  obtain ⟨d, address, rfl⟩ := Option.map_eq_some_iff.mp moved
  have mentioned : s.Mentions c d := ⟨x, part, address⟩
  exact ⟨c, d, at', reached, mentioned, rfl, ranked.reach_closed known reached mentioned⟩

/-- What is kept is rigid, and the copies of the rest are new. -/
theorem place_rigid_or_new (h : s.Copies kept xs s')
    (closed : kept a = true ∨ a ∈ s.reach kept xs) :
    s.Rigid (s.place kept (s.reach kept xs) a) ∨
      s.length ≤ s.place kept (s.reach kept xs) a ∧
        s.place kept (s.reach kept xs) a < s'.length := by
  cases keep : kept a with
  | true =>
      rw [place, if_pos keep]
      exact .inl (h.rigid a keep)
  | false => exact .inr (h.place_new (closed.resolve_left (by simp [keep])) keep)

/-- New cells mention rigid cells and new cells only. -/
theorem rigid_or_new (h : s.Copies kept xs s') (ranked : s.Ranked)
    (known : ∀ x ∈ xs, ∀ a, x.address? = some a → a < s.length) (new : s.length ≤ a)
    (mentions : s'.Mentions a b) : s.Rigid b ∨ s.length ≤ b ∧ b < s'.length := by
  obtain ⟨c, d, -, -, -, rfl, closed⟩ := h.mentions_new ranked known new mentions
  exact h.place_rigid_or_new closed

/-- A copy ranks where its original does. -/
theorem ranked (h : s.Copies kept xs s') (ranked : s.Ranked)
    (known : ∀ x ∈ xs, ∀ a, x.address? = some a → a < s.length) : s'.Ranked := by
  have less := h.length_le
  have mentions_new := fun {a b} => h.mentions_new (a := a) (b := b) ranked known
  obtain ⟨rank, below⟩ := ranked
  let order := s.reach kept xs
  let copyRank := fun a => if a < s.length then rank a else rank (order.getD (a - s.length) 0)
  have copied : ∀ c ∈ order, copyRank (s.length + order.idxOf c) = rank c := by
    intro c reached
    have bound := List.idxOf_lt_length_of_mem reached
    simp [copyRank, List.getD_eq_getElem?_getD, List.getElem?_eq_getElem bound]
  refine ⟨copyRank, fun a b mentions => ?_⟩
  by_cases old : a < s.length
  · rw [Mentions, h.cellAt old] at mentions
    obtain ⟨inside, lower⟩ := below a b mentions
    refine ⟨Nat.lt_of_lt_of_le inside less, ?_⟩
    simpa only [copyRank, inside, old, if_true] using lower
  · obtain ⟨c, d, rfl, reached, mentioned, rfl, closed⟩ :=
      mentions_new (Nat.le_of_not_lt old) mentions
    obtain ⟨inside, lower⟩ := below c d mentioned
    rw [copied c reached]
    cases keep : kept d with
    | true =>
        rw [place, if_pos keep]
        refine ⟨Nat.lt_of_lt_of_le inside less, ?_⟩
        simpa only [copyRank, inside, if_true] using lower
    | false =>
        have reached' := closed.resolve_left (by simp [keep])
        refine ⟨(h.place_new reached' keep).2, ?_⟩
        rw [place, keep, if_neg Bool.false_ne_true, copied d reached']
        exact lower

end Copies

theorem copyEntries_length_le (s : Store) (es : List (Value × Shared)) :
    s.length ≤ (s.copyEntries es).1.length := by
  have less := (copied_copies (s ++ [.dict es]) [.cell s.length]).length_le
  exact Nat.le_trans (by simp) less

theorem copyEntries_cellAt {es : List (Value × Shared)} (inside : a < s.length) :
    (s.copyEntries es).1.cellAt a = s.cellAt a := by
  have copies := copied_copies (s ++ [.dict es]) [.cell s.length]
  refine (copies.cellAt ?_).trans (cellAt_append_left inside _)
  exact Nat.lt_of_lt_of_le inside (by simp)

/-- A cell that can be edited is copied. -/
theorem copied_of_editable (inside : a < s.length) (editable : (s.cellAt a).editable = true) :
    s.isFixed a = false ∧ a ∈ s.reach s.isFixed [.cell a] := by
  have copied : s.isFixed a = false := by
    rw [← Bool.not_eq_true]
    intro fixed
    rw [(rigid_of_isFixed fixed).not_editable] at editable
    cases editable
  exact ⟨copied, mem_reach_self (List.mem_singleton_self (Shared.cell a)) rfl inside copied⟩

/-- A dictionary can be edited, so its copy is a new cell. -/
theorem copyEntries_new (s : Store) (es : List (Value × Shared)) :
    (s ++ [Cell.dict es]).length ≤ (s.copyEntries es).2 ∧
      (s.copyEntries es).2 < (s.copyEntries es).1.length := by
  have dict : ((s ++ [Cell.dict es]).cellAt s.length).editable = true := by
    rw [cellAt_concat]
    rfl
  obtain ⟨copied, reached⟩ := copied_of_editable (by simp) dict
  exact (copied_copies (s ++ [.dict es]) [.cell s.length]).place_new reached copied

/-- The copy of a dictionary is one. -/
theorem copyCell_isDict (inside : a < s.length) (dict : (s.cellAt a).isDict = true) :
    ((s.copyCell a).1.cellAt (s.copyCell a).2).isDict = true := by
  obtain ⟨copied, reached⟩ := copied_of_editable inside (Cell.editable_of_isDict dict)
  exact ((copied_copies s [.cell a]).twin_place reached copied).2.1.trans dict

theorem copyEntries_isDict (s : Store) (es : List (Value × Shared)) :
    ((s.copyEntries es).1.cellAt (s.copyEntries es).2).isDict = true := by
  refine copyCell_isDict (by simp) ?_
  rw [cellAt_concat]
  rfl

end Store

end ClientRegistry
