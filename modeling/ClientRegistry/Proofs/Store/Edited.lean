import ClientRegistry.Proofs.Store.Parts
import ClientRegistry.Proofs.Value.Edited

/-! Editing in place. Whatever is reached from a value, as an item, as an entry or along a path, is
in every closed set that the value is in; an edit changes one cell, which holds afterwards what it
held and what the edit brings. -/

namespace ClientRegistry.Store

variable {s : Store} {P : Shared → Prop} {x y : Shared}

/-- A set of held values that has every leaf, and with a cell all of its parts. What is in a bag is
not reached through the bag. -/
structure Closed (s : Store) (P : Shared → Prop) : Prop where
  leaf : ∀ v, P (.leaf v)
  parts : ∀ a, P (.cell a) → ∀ x ∈ (s.cellAt a).parts, P x

theorem Closed.leaves (h : s.Closed P) (vs : List Value) : ∀ y ∈ vs.map Shared.leaf, P y :=
  List.forall_mem_map.mpr fun v _ => h.leaf v

theorem Closed.items (h : s.Closed P) (given : P x) {ys : List Shared}
    (found : s.items? x = some ys) : ∀ y ∈ ys, P y := by
  cases x with
  | leaf v =>
      obtain ⟨vs, _, rfl⟩ := Option.map_eq_some_iff.mp found
      exact h.leaves vs
  | bag kind a => cases found
  | cell a =>
      have parts := h.parts a given
      simp only [items?] at found
      split at found
      next v _ =>
        obtain ⟨vs, _, rfl⟩ := Option.map_eq_some_iff.mp found
        exact h.leaves vs
      next xs present =>
        cases found
        rwa [cellAt_eq_of_getElem? present] at parts
      next xs present =>
        cases found
        rwa [cellAt_eq_of_getElem? present] at parts
      next xs _ =>
        cases found
        exact h.leaves xs
      next es _ =>
        cases found
        exact List.forall_mem_map.mpr fun e _ => h.leaf e.1
      · cases found

theorem Closed.pairs (h : s.Closed P) (given : P x) {ps : List (Except Fault (Value × Shared))}
    (found : Child.pairs s.items? s.read x = .ok ps) {k : Value} (member : .ok (k, y) ∈ ps) :
    P y := by
  simp only [Child.pairs] at found
  split at found
  next xs items =>
    cases found
    obtain ⟨p, listed, paired⟩ := List.mem_map.mp member
    have item : P p.1 := h.items given items p.1 (List.fst_mem_of_mem_zipIdx listed)
    simp only [Child.pair] at paired
    split at paired
    next inner =>
      cases paired
      exact h.items item inner y (by simp)
    · cases paired
    · cases paired
  · cases found

theorem Closed.keeps (h : s.Closed P) : s.child.Keeps P where
  items _ _ given found := h.items given found
  entries x ps given found k y member := by
    simp only [child, entries] at found
    split at found
    next a =>
      split at found
      next es present =>
        cases found
        obtain ⟨e, listed, same⟩ := List.mem_map.mp member
        cases same
        have parts := h.parts a given
        rw [cellAt_eq_of_getElem? present] at parts
        exact parts y (List.mem_map_of_mem listed)
      · exact h.pairs given found member
    · exact h.pairs given found member
  null := h.leaf .null

theorem mem_of_part? {xs : List Shared} {key : Value} (found : part? xs key = .ok y) : y ∈ xs := by
  simp only [part?] at found
  split at found
  · cases found
  · split at found
    next i _ z present =>
      cases found
      obtain ⟨n, _, at'⟩ := Option.bind_eq_some_iff.mp present
      exact List.mem_of_getElem? at'
    · cases found

theorem Closed.partOf (h : s.Closed P) {v key : Value} (found : partOf v key = .ok y) : P y := by
  simp only [Store.partOf] at found
  split at found
  next t =>
    obtain ⟨c, _, rfl⟩ := List.mem_map.mp (mem_of_part? found)
    exact h.leaf _
  next bs =>
    obtain ⟨b, _, rfl⟩ := List.mem_map.mp (mem_of_part? found)
    exact h.leaf _
  next xs => exact h.leaves xs y (mem_of_part? found)
  · cases found

theorem mem_of_find? {es : List (Value × Shared)} {key : Value}
    (found : Entries.find? es key = some y) : y ∈ es.map Prod.snd := by
  obtain ⟨e, present, rfl⟩ := Option.map_eq_some_iff.mp found
  exact List.mem_map_of_mem (List.mem_of_find?_eq_some present)

/-- What a key leads to from a cell is a part of the cell, or has no cell of its own. -/
theorem Closed.partOfCell (h : s.Closed P) {a : Address} (parts : ∀ x ∈ (s.cellAt a).parts, P x)
    {key : Value} (found : s.part (.cell a) key = .ok y) : P y := by
  simp only [Store.part] at found
  split at found
  next v _ => exact h.partOf found
  next xs present =>
    rw [cellAt_eq_of_getElem? present] at parts
    exact parts y (mem_of_part? found)
  next xs present =>
    rw [cellAt_eq_of_getElem? present] at parts
    exact parts y (mem_of_part? found)
  next es present =>
    rw [cellAt_eq_of_getElem? present] at parts
    split at found
    · split at found
      next z at' =>
        cases found
        exact parts y (mem_of_find? at')
      · cases found
    · cases found
  · cases found

theorem Closed.part (h : s.Closed P) (given : P x) {key : Value} (found : s.part x key = .ok y) :
    P y := by
  cases x with
  | leaf v => exact h.partOf found
  | bag kind a => cases found
  | cell a => exact h.partOfCell (h.parts a given) found

theorem Closed.walk (h : s.Closed P) (given : P x) {path : List Value}
    (found : s.walk x path = .ok y) : P y := by
  induction path generalizing x with
  | nil =>
      cases found
      exact given
  | cons key rest ih =>
      simp only [Store.walk] at found
      split at found
      next z step => exact ih (h.part given step) found
      · cases found

/-- A path of at least one key, from a cell of which only the parts are known. -/
theorem Closed.walkOfCell (h : s.Closed P) {a : Address} (parts : ∀ x ∈ (s.cellAt a).parts, P x)
    {key : Value} {rest : List Value} (found : s.walk (.cell a) (key :: rest) = .ok y) : P y := by
  simp only [Store.walk] at found
  split at found
  next z step => exact h.walk (h.partOfCell parts step) found
  · cases found

/-- The second store is the first with one cell edited; new parts of it are as given. -/
def Edits (s : Store) (P : Shared → Prop) (a : Address) (s' : Store) : Prop :=
  s' = s ∨ ∃ c, s' = s.set a c ∧ a < s.length ∧ (s.cellAt a).editable = true ∧ c.editable = true ∧
    c.isDict = (s.cellAt a).isDict ∧ ∀ x ∈ c.parts, x ∈ (s.cellAt a).parts ∨ P x

theorem Closed.editCell (h : s.Closed P) {edits : List (Edit Shared)}
    (given : ∀ e ∈ edits, ∀ x ∈ e.args, P x) (a : Address) :
    s.Edits P a (s.editCell a edits).1 := by
  simp only [Store.editCell]
  split
  next xs present =>
    have cell := cellAt_eq_of_getElem? present
    refine .inr ⟨_, rfl, (List.getElem?_eq_some_iff.mp present).1, by rw [cell]; rfl, rfl,
      by rw [cell]; rfl, ?_⟩
    rw [cell]
    exact Edit.run_keeps (I := fun ys => ∀ y ∈ ys, y ∈ xs ∨ P y)
      (fun _ _ _ args old => Edit.onList_values h.keeps (fun _ => .inr) args old) given
      fun y member => .inl member
  next es present =>
    have cell := cellAt_eq_of_getElem? present
    refine .inr ⟨_, rfl, (List.getElem?_eq_some_iff.mp present).1, by rw [cell]; rfl, rfl,
      by rw [cell]; rfl, ?_⟩
    rw [cell]
    refine List.forall_mem_map.mpr ?_
    let R : Shared → Prop := fun y => y ∈ es.map Prod.snd ∨ P y
    exact Edit.run_keeps (I := fun fs : List (Value × Shared) => ∀ f ∈ fs, R f.2)
      (fun _ _ _ args old => Edit.onDict_values (R := R) h.keeps (fun _ => .inr) args old) given fun e member => .inl (List.mem_map_of_mem member)
  next xs present =>
    have cell := cellAt_eq_of_getElem? present
    refine .inr ⟨_, rfl, (List.getElem?_eq_some_iff.mp present).1, by rw [cell]; rfl, rfl,
      by rw [cell]; rfl, ?_⟩
    exact fun _ member => by cases member
  · exact .inl rfl

/-- Edits make no cells. -/
theorem editCell_length (s : Store) (a : Address) (edits : List (Edit Shared)) :
    (s.editCell a edits).1.length = s.length := by
  simp only [Store.editCell]
  split <;> simp

theorem edit_length (s : Store) (x : Shared) (edits : List (Edit Shared)) :
    (s.edit x edits).1.length = s.length := by
  cases x with
  | cell a => exact editCell_length s a edits
  | _ => rfl

end ClientRegistry.Store
