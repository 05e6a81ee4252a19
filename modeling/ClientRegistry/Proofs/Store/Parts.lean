import ClientRegistry.Workspace.Copy

/-! What the cells of a store hold. A cell mentions the cells of its parts. Leaves and tuples can
never be edited, so whatever is made of nothing else, of numbers and texts in the end, is rigid
and stays what it is for as long as these cells are kept. -/

namespace ClientRegistry

/-- The cell by which a held value is known. -/
def Shared.address? : Shared → Option Address
  | .leaf _ => none
  | .cell a => some a
  | .bag _ a => some a

@[simp] theorem Shared.address?_leaf (v : Value) : (leaf v).address? = none := rfl

@[simp] theorem Shared.address?_cell (a : Address) : (cell a).address? = some a := rfl

@[simp] theorem Shared.address?_bag (kind : BagKind) (a : Address) :
    (bag kind a).address? = some a := rfl

@[simp] theorem Shared.address?_relocate (f : Address → Address) (x : Shared) :
    (x.relocate f).address? = x.address?.map f := by
  cases x <;> rfl

/-- Lists, sets and dictionaries. -/
def Cell.editable : Cell → Bool
  | .leaf _ => false
  | .list _ => true
  | .tuple _ => false
  | .set _ => true
  | .dict _ => true

def Cell.isDict : Cell → Bool
  | .dict _ => true
  | _ => false

theorem Cell.editable_of_isDict {c : Cell} (h : c.isDict = true) : c.editable = true := by
  cases c with
  | dict es => rfl
  | _ => cases h

namespace Store

variable {s s' : Store} {a b : Address} {c : Cell} {x : Shared}

/-- One of the parts of the first cell is known by the second. -/
def Mentions (s : Store) (a b : Address) : Prop :=
  ∃ x ∈ (s.cellAt a).parts, x.address? = some b

theorem getElem?_eq_cellAt (h : a < s.length) : s[a]? = some (s.cellAt a) := by
  rw [cellAt, List.getElem?_eq_getElem h, Option.getD_some]

theorem cellAt_of_length_le (h : s.length ≤ a) : s.cellAt a = .list [] := by
  rw [cellAt, List.getElem?_eq_none h, Option.getD_none]

theorem cellAt_eq_of_getElem? (h : s[a]? = some c) : s.cellAt a = c := by
  rw [cellAt, h, Option.getD_some]

theorem lt_of_mem_parts (h : x ∈ (s.cellAt a).parts) : a < s.length := by
  refine Nat.lt_of_not_le fun outside => ?_
  rw [cellAt_of_length_le outside] at h
  cases h

theorem Mentions.lt (h : s.Mentions a b) : a < s.length := by
  obtain ⟨x, member, -⟩ := h
  exact lt_of_mem_parts member

theorem lt_of_fixed_cell (h : (s.cellAt a).editable = false) : a < s.length := by
  refine Nat.lt_of_not_le fun outside => ?_
  rw [cellAt_of_length_le outside] at h
  cases h

theorem cellAt_append_left (h : a < s.length) (cells : List Cell) :
    (s ++ cells).cellAt a = s.cellAt a := by
  rw [cellAt, cellAt, List.getElem?_append_left h]

theorem cellAt_append_right (cells : List Cell) (i : Nat) :
    (s ++ cells).cellAt (s.length + i) = cellAt cells i := by
  rw [cellAt, cellAt, List.getElem?_append_right (Nat.le_add_right _ _), Nat.add_sub_cancel_left]

theorem cellAt_concat (s : Store) (c : Cell) : (s ++ [c]).cellAt s.length = c :=
  cellAt_append_right [c] 0

theorem cellAt_set_self (h : a < s.length) (c : Cell) : cellAt (s.set a c) a = c := by
  rw [cellAt, List.getElem?_set_self h, Option.getD_some]

theorem cellAt_set_ne (ne : a ≠ b) (c : Cell) : cellAt (s.set a c) b = s.cellAt b := by
  rw [cellAt, cellAt, List.getElem?_set_ne ne]

theorem mem_parts_of_entriesAt {e : Value × Shared} (h : e ∈ s.entriesAt a) :
    e.2 ∈ (s.cellAt a).parts := by
  simp only [entriesAt] at h
  split at h
  next es found =>
    rw [cellAt_eq_of_getElem? found]
    exact List.mem_map_of_mem h
  · cases h

/-- Every cell that cannot be edited is as it was. -/
def Keeps (s s' : Store) : Prop :=
  ∀ a, (s.cellAt a).editable = false → s'.cellAt a = s.cellAt a

theorem Keeps.refl (s : Store) : s.Keeps s := fun _ _ => rfl

theorem Keeps.trans {s'' : Store} (first : s.Keeps s') (second : s'.Keeps s'') : s.Keeps s'' := by
  intro a fixed
  have same := first a fixed
  rw [second a (same ▸ fixed), same]

theorem keeps_append (s : Store) (cells : List Cell) : s.Keeps (s ++ cells) :=
  fun _ fixed => cellAt_append_left (lt_of_fixed_cell fixed) cells

theorem keeps_set (editable : (s.cellAt a).editable = true) (c : Cell) : s.Keeps (s.set a c) := by
  intro b fixed
  refine cellAt_set_ne ?_ c
  rintro rfl
  simp [editable] at fixed

/-- A deep copy may keep the cell: neither it nor what it is made of can ever be edited. -/
def Rigid (s : Store) (a : Address) : Prop := ∃ fuel, s.fixedWithin fuel (.cell a) = true

theorem fixedWithin_cell {fuel : Nat} (h : s.fixedWithin fuel (.cell a) = true) :
    (s.cellAt a).editable = false ∧
      ∀ x ∈ (s.cellAt a).parts, s.fixedWithin (fuel - 1) x = true := by
  cases fuel with
  | zero => simp [fixedWithin] at h
  | succ fuel =>
      simp only [fixedWithin] at h
      split at h
      next v found =>
        rw [found]
        exact ⟨rfl, fun x member => by cases member⟩
      next xs found =>
        rw [found]
        exact ⟨rfl, List.all_eq_true.mp h⟩
      · cases h

theorem Rigid.not_editable (h : s.Rigid a) : (s.cellAt a).editable = false := by
  obtain ⟨fuel, fixed⟩ := h
  exact (fixedWithin_cell fixed).1

theorem Rigid.part (h : s.Rigid a) (member : x ∈ (s.cellAt a).parts)
    (known : x.address? = some b) : s.Rigid b := by
  obtain ⟨fuel, fixed⟩ := h
  have inner := (fixedWithin_cell fixed).2 x member
  cases x with
  | leaf v => cases known
  | cell b' =>
      cases known
      exact ⟨_, inner⟩
  | bag kind b' => cases fuel - 1 <;> simp [fixedWithin] at inner

theorem Rigid.lt (h : s.Rigid a) : a < s.length := lt_of_fixed_cell h.not_editable

theorem rigid_of_isFixed (h : s.isFixed a = true) : s.Rigid a := ⟨s.length, h⟩

theorem Keeps.fixedWithin (keeps : s.Keeps s') {fuel : Nat} (h : s.fixedWithin fuel x = true) :
    s'.fixedWithin fuel x = true := by
  induction fuel generalizing x with
  | zero => cases x <;> simp_all [Store.fixedWithin]
  | succ fuel ih =>
      cases x with
      | leaf v => exact h
      | bag kind a => simp [Store.fixedWithin] at h
      | cell a =>
          have same := keeps a (fixedWithin_cell h).1
          simp only [Store.fixedWithin] at h ⊢
          rw [same]
          split at h
          next v found => simpa only [found] using h
          next xs found =>
            simp only [List.all_eq_true] at h ⊢
            exact fun x member => ih (h x member)
          · cases h

theorem Rigid.keep (h : s.Rigid a) (keeps : s.Keeps s') : s'.Rigid a := by
  obtain ⟨fuel, fixed⟩ := h
  exact ⟨fuel, keeps.fixedWithin fixed⟩

end Store

end ClientRegistry
