import ClientRegistry.Proofs.Workspace.Looking

/-! What the view of a bag gives away. The view takes no edits, but the options that it shows are
those of the bag, and the lists, sets and dictionaries among them can be edited in place. So a bag
is safe from its view if it shows none of these, and only then. -/

namespace ClientRegistry.Workspace

variable {w : Workspace} {on : String} {kind : BagKind} {names : List String}
  {root a : Address} {key : Value} {path : List Value}

/-- What a cell that can be edited takes up or loses. -/
def resizing : Cell → List (Edit Value)
  | .list [] => [.call .append [.null]]
  | .set [] => [.call .add [.null]]
  | .dict [] => [.call .setItem [.null, .null]]
  | _ => [.call .clear []]

theorem read_null (s : Store) (cells : List Cell) :
    Store.read (s ++ .leaf .null :: cells) (.cell s.length) = .null := by
  have size : (s ++ Cell.leaf .null :: cells).length = s.length + cells.length + 1 := by
    simp [Nat.add_assoc]
  have cell : (s ++ Cell.leaf .null :: cells).cellAt s.length = .leaf .null :=
    Store.cellAt_append_right _ 0
  rw [Store.read, size, Store.readWithin_cell (by simp), cell, Cell.value]

theorem readInEdits_clear (w : Workspace) :
    w.readInEdits [.call .clear []] = (w, [.call .clear []]) := rfl

theorem readInEdits_null (w : Workspace) (method : Method) :
    w.readInEdits [.call method [.null]] =
      ({ w with store := w.store ++ [.leaf .null] }, [.call method [.cell w.store.length]]) := rfl

theorem readInEdits_nulls (w : Workspace) (method : Method) :
    w.readInEdits [.call method [.null, .null]] =
      ({ w with store := w.store ++ [.leaf .null] ++ [.leaf .null] },
        [.call method [.cell w.store.length, .cell (w.store ++ [Cell.leaf .null]).length]]) := rfl

/-- It has another number of items then. -/
theorem editCell_resizing (w : Workspace) {c : Cell} (present : w.store[a]? = some c)
    (editable : c.editable = true) :
    ∃ d : Cell, d.editable = true ∧ d.size ≠ c.size ∧
      ((w.readInEdits (resizing c)).1.store.editCell a (w.readInEdits (resizing c)).2).1 =
        (w.readInEdits (resizing c)).1.store.set a d := by
  have inside := (List.getElem?_eq_some_iff.mp present).1
  cases c with
  | leaf v => cases editable
  | tuple xs => cases editable
  | list xs =>
      cases xs with
      | nil =>
          refine ⟨.list [.cell w.store.length], rfl, by simp [Cell.size], ?_⟩
          rw [resizing, readInEdits_null]
          simp [Store.editCell, List.getElem?_append_left inside, present, Edit.run, Edit.onList,
            Edit.onItems, Edit.whole]
      | cons x xs =>
          refine ⟨.list [], rfl, by simp [Cell.size], ?_⟩
          have cleared : resizing (.list (x :: xs)) = [.call .clear []] := rfl
          rw [cleared, readInEdits_clear]
          simp [Store.editCell, present, Edit.run, Edit.onList, Edit.onItems, Edit.whole]
  | set xs =>
      cases xs with
      | nil =>
          refine ⟨.set [.null], rfl, by simp [Cell.size], ?_⟩
          rw [resizing, readInEdits_null]
          simp [Store.editCell, List.getElem?_append_left inside, present, Edit.run, Edit.onSet,
            Edit.map, read_null, Value.hashable, Value.insertMember, Value.memberOf]
      | cons x xs =>
          refine ⟨.set [], rfl, by simp [Cell.size], ?_⟩
          have cleared : resizing (.set (x :: xs)) = [.call .clear []] := rfl
          rw [cleared, readInEdits_clear]
          simp [Store.editCell, present, Edit.run, Edit.onSet, Edit.map]
  | dict es =>
      cases es with
      | nil =>
          refine ⟨.dict [(.null, .cell (w.store.length + 1))], rfl, by simp [Cell.size], ?_⟩
          rw [resizing, readInEdits_nulls]
          simp [Store.editCell, List.getElem?_append_left inside, present, Edit.run, Edit.onDict,
            Edit.onKey, Edit.whole, Store.child, read_null, Value.hashable, Entries.put]
      | cons e es =>
          refine ⟨.dict [], rfl, by simp [Cell.size], ?_⟩
          have cleared : resizing (.dict (e :: es)) = [.call .clear []] := rfl
          rw [cleared, readInEdits_clear]
          simp [Store.editCell, present, Edit.run, Edit.onDict, Edit.onKey, Edit.whole]

theorem Turn.named_none (t : Turn) : t.named none = t.workspace := by
  simp only [named]
  split
  next unnamed => cases unnamed
  · rfl

/-- Edits of what a path from the view of a bag leads to. -/
def throughView (on : String) (path : List Value) (edits : List (Edit Value)) : List Step :=
  [⟨.mutateField on "settings" path edits, none⟩]

theorem throughView_looks (names : List String) (path : List Value) (edits : List (Edit Value)) :
    ∀ step ∈ throughView on path edits, step.Looks on names := by
  simp [throughView, Step.Looks]

/-- The edits come down to edits of the one cell. -/
theorem throughView_store (ranked : w.store.Ranked) (inside : root < w.store.length)
    (named : w.named? on = .ok (.value (.bag kind root))) (edits : List (Edit Value))
    (found : w.store.walk (.cell root) (key :: path) = .ok (.cell a)) :
    (w.reached (throughView on (key :: path) edits)).store =
      ((w.readInEdits edits).1.store.editCell a (w.readInEdits edits).2).1 := by
  obtain ⟨i, known, held⟩ := handle_of_named named
  obtain ⟨lays, -⟩ := readInEdits_lays w edits
  have walked := lays.walk ranked (x := .cell root) (fun b at' => by cases at'; exact inside)
    (key :: path)
  simp only [throughView, reached]
  rw [Turn.named_none, perform, mutateField, onObject_of_handle known held]
  simp only [beq_self_eq_true, if_true, Turn.ofEdited_workspace, editView, editAt, walked, found]
  rfl

/-- One cell has another number of items in the end, and nothing else has changed. -/
theorem throughView_cells (ranked : w.store.Ranked) (inside : root < w.store.length)
    (named : w.named? on = .ok (.value (.bag kind root)))
    (found : w.store.walk (.cell root) (key :: path) = .ok (.cell a)) (there : a < w.store.length)
    (editable : (w.store.cellAt a).editable = true) :
    ∃ edits, ∃ d : Cell, d.editable = true ∧ d.size ≠ (w.store.cellAt a).size ∧
      ∀ b < w.store.length, (w.reached (throughView on (key :: path) edits)).store.cellAt b =
        if b = a then d else w.store.cellAt b := by
  obtain ⟨d, editable', size, edited⟩ :=
    editCell_resizing w (Store.getElem?_eq_cellAt there) editable
  obtain ⟨lays, -⟩ := readInEdits_lays w (resizing (w.store.cellAt a))
  refine ⟨resizing (w.store.cellAt a), d, editable', size, fun b old => ?_⟩
  rw [throughView_store ranked inside named _ found, edited]
  split
  next same =>
    subst same
    exact Store.cellAt_set_self (Nat.lt_of_lt_of_le old lays.length_le) d
  next ne => rw [Store.cellAt_set_ne (Ne.symm ne), lays.cellAt old]

/-- A list, a set or a dictionary that a path leads to from the view of a bag can be edited there,
and then the bag answers otherwise. -/
theorem throughView_alters (grounded : w.holding.Grounded)
    (named : w.named? on = .ok (.value (.bag kind root)))
    (found : w.store.walk (.cell root) (key :: path) = .ok (.cell a))
    (editable : (w.store.cellAt a).editable = true) :
    ∃ edits, ((w.reached (throughView on (key :: path) edits)).toDict on).display ≠
      (w.toDict on).display := by
  have ranked : w.store.Ranked := grounded.ranked
  have inside : root < w.store.length := named_lt grounded named
  have there : a < w.store.length :=
    ranked.closed.walk (fun b at' => by cases at'; exact inside) found a rfl
  obtain ⟨edits, d, editable', size, cells⟩ :=
    throughView_cells ranked inside named found there editable
  generalize looked : throughView on (key :: path) edits = steps at cells
  have looks : ∀ step ∈ steps, step.Looks on [] := looked ▸ throughView_looks [] _ edits
  have grounded' : (w.reached steps).holding.Grounded := reached_grounded grounded steps
  have ranked' : (w.reached steps).store.Ranked := grounded'.ranked
  have less : w.store.length ≤ (w.reached steps).store.length :=
    (grounded.leaves_moves (reached_moves grounded steps).1).length_le
  have fresh : ∀ name ∈ ([] : List String), ∀ h, w.handle? name ≠ .ok h := by simp
  obtain ⟨peeks, apart⟩ := start_peeks named fresh
  obtain ⟨i, found', present⟩ := (peeks.reached apart looks).1.bag
  refine ⟨edits, fun same => size ?_⟩
  rw [looked, toDict_display grounded' (named_of_handle found' present),
    toDict_display grounded named] at same
  have read : (w.reached steps).store.read (.cell a) = w.store.read (.cell a) :=
    ranked.read_walk ranked' less (fun b old ne => (cells b old).trans (if_neg ne)) found
      (Shown.value.inj (Display.shown.inj (Except.ok.inj same)))
  have changed := (cells a there).trans (if_pos rfl)
  rw [ranked.read_cell there, ranked'.read_cell (Nat.lt_of_lt_of_le there less), changed] at read
  exact Cell.size_of_value editable' editable read

/-- Steps that only look never change which options a bag has, nor a record that is made of nothing
that the view exposes; if the view exposes no list, set or dictionary, the bag answers as before.
But each list, set or dictionary that a path leads to from the view can be edited there so that the
bag answers otherwise. -/
theorem view_alters_exposed (grounded : w.holding.Grounded)
    (named : w.named? on = .ok (.value (.bag kind root)))
    (fresh : ∀ name ∈ names, ∀ h, w.handle? name ≠ .ok h) :
    (∀ steps : List Step, (∀ step ∈ steps, step.Looks on names) →
      (w.reached steps).store.entriesAt root = w.store.entriesAt root ∧
        (∀ h, w.Shielded root h → w.Unaltered (w.reached steps) h ∧
          (w.reached steps).footprint h = w.footprint h ∧
          ∀ g, w.Shielded root g → (w.reached steps).isEqual g h = w.isEqual g h) ∧
        ((∀ c, w.store.Exposed root c → (w.store.cellAt c).editable = false) →
          ((w.reached steps).toDict on).display = (w.toDict on).display ∧
          ∀ name default : Value, name.Unmarked → default.Unmarked →
            ((w.reached steps).getSetting on (.given name) (.given default)).display =
              (w.getSetting on (.given name) (.given default)).display)) ∧
      ∀ key path c, w.store.walk (.cell root) (key :: path) = .ok (.cell c) →
        (w.store.cellAt c).editable = true →
        ∃ edits, ((w.reached (throughView on (key :: path) edits)).toDict on).display ≠
          (w.toDict on).display := by
  refine ⟨fun steps looks => ⟨?_, fun h shielded => ?_, ?_⟩, ?_⟩
  · exact entriesAt_of_looks grounded named fresh looks
  · have same := unaltered_of_looks grounded named fresh looks shielded
    refine ⟨same, same.footprint, fun g shielded' => ?_⟩
    exact (unaltered_of_looks grounded named fresh looks shielded').isEqual same
  · exact answers_of_looks grounded named fresh looks
  · intro key path c found editable
    exact throughView_alters grounded named found editable

/-- A bag with a list, and with a set inside of a tuple, and a bag with neither. -/
def shelf : List Step :=
  [⟨.bag .client (.given (.dict [(.text "l", .list [.int 1]),
      (.text "t", .tuple [.int 2, .set [.int 3]])])), some "loose"⟩,
    ⟨.bag .token (.given (.dict [(.text "n", .tuple [.int 4, .text "x"])])), some "firm"⟩]

/-- All that can be tried with the view of a bag. -/
def prying (on : String) : List Step :=
  [⟨.view on, none⟩,
    ⟨.viewEdit on [.call .setItem [.text "n", .int 9]], none⟩,
    ⟨.mutateField on "settings" [.text "l"] [.call .append [.int 9]], none⟩,
    ⟨.mutateField on "settings" [] [.call .clear []], some "same"⟩,
    ⟨.takeView on, some "seen"⟩,
    ⟨.mutate "seen" [.text "t", .int 1] [.call .add [.int 9]], none⟩,
    ⟨.mutate "seen" [.text "n"] [.call .append [.int 9]], none⟩,
    ⟨.mutate "seen" [] [.call .clear []], none⟩]

theorem shelf_view_alters_exposed :
    (empty.reached shelf).Unaltered ((empty.reached shelf).reached (prying "loose")) 1 ∧
      (((empty.reached shelf).reached (prying "firm")).toDict "firm").display =
        ((empty.reached shelf).toDict "firm").display ∧
      ∃ edits, (((empty.reached shelf).reached
        (throughView "loose" [.text "t", .int 1] edits)).toDict "loose").display ≠
          ((empty.reached shelf).toDict "loose").display := by
  have grounded : (empty.reached shelf).holding.Grounded := reached_grounded empty_grounded shelf
  have unbound : ∀ name ∈ ["same", "seen"],
      (empty.reached shelf).handle? name = .error (.unbound name) := by
    simp only [List.forall_mem_cons, List.not_mem_nil, false_implies, implies_true, and_true]
    exact ⟨by with_unfolding_all rfl, by with_unfolding_all rfl⟩
  have fresh : ∀ name ∈ ["same", "seen"], ∀ h, (empty.reached shelf).handle? name ≠ .ok h := by
    intro name listed h found
    cases (unbound name listed).symm.trans found
  have looks : ∀ on, ∀ step ∈ prying on, step.Looks on ["same", "seen"] := by
    simp [prying, Step.Looks]
  obtain ⟨kept, altered⟩ := view_alters_exposed grounded
    (show (empty.reached shelf).named? "loose" = .ok (.value (.bag .client 7)) by
      with_unfolding_all rfl) fresh
  obtain ⟨kept', -⟩ := view_alters_exposed grounded
    (show (empty.reached shelf).named? "firm" = .ok (.value (.bag .token 16)) by
      with_unfolding_all rfl) fresh
  have shielded : (empty.reached shelf).Shielded 7 1 := by
    refine ⟨.value (.bag .token 16), by with_unfolding_all rfl, trivial, ?_⟩
    have apart : ∀ c ∈ (empty.reached shelf).store.bagCells 16,
        c ∉ (empty.reached shelf).store.bagCells 7 := by decide +kernel
    intro a bag c member _ exposed
    rw [List.mem_singleton.mp bag] at member
    exact apart c member (grounded.ranked.bagCells_of_exposed (by decide +kernel) exposed)
  have rigid : ∀ c, (empty.reached shelf).store.Exposed 16 c →
      ((empty.reached shelf).store.cellAt c).editable = false := by
    have plain : ∀ c ∈ (empty.reached shelf).store.bagCells 16, c ≠ 16 →
        ((empty.reached shelf).store.cellAt c).editable = false := by decide +kernel
    exact fun c exposed => plain c
      (grounded.ranked.bagCells_of_exposed (by decide +kernel) exposed)
      (grounded.ranked.ne_of_exposed exposed)
  refine ⟨((kept _ (looks "loose")).2.1 1 shielded).1, ((kept' _ (looks "firm")).2.2 rigid).1, ?_⟩
  exact altered (.text "t") [.int 1] 10 (by with_unfolding_all rfl) (by decide +kernel)

/-- Two equal bags with a list each. -/
def twins : List Step :=
  [⟨.bag .client (.given (.dict [(.text "l", .list [.int 1])])), some "first"⟩,
    ⟨.bag .client (.given (.dict [(.text "l", .list [.int 1])])), some "second"⟩]

/-- One more item in the list of the first, by way of its view. -/
def stretching : List Step :=
  throughView "first" [.text "l"] [.call .append [.int 2]]

/-- The dictionary of the first bag, its option, its equality and its digest are not what they
were. -/
theorem stretching_alters :
    (∀ step ∈ stretching, step.Looks "first" []) ∧
      ((empty.reached twins).toDict "first").display =
        .ok (.shown (.value (.dict [(.text "l", .list [.int 1])]))) ∧
      (((empty.reached twins).reached stretching).toDict "first").display =
        .ok (.shown (.value (.dict [(.text "l", .list [.int 1, .int 2])]))) ∧
      ((empty.reached twins).getSetting "first" (.given (.text "l")) (.given .null)).display =
        .ok (.shown (.value (.list [.int 1]))) ∧
      (((empty.reached twins).reached stretching).getSetting "first" (.given (.text "l"))
        (.given .null)).display = .ok (.shown (.value (.list [.int 1, .int 2]))) ∧
      (empty.reached twins).isEqual 0 1 = true ∧
      ((empty.reached twins).reached stretching).isEqual 0 1 = false ∧
      ((empty.reached twins).compareDigests (.variable "first") (.variable "second")).display =
        .ok (.shown (.value (.bool true))) ∧
      (((empty.reached twins).reached stretching).compareDigests (.variable "first")
        (.variable "second")).display = .ok (.shown (.value (.bool false))) := by
  refine ⟨throughView_looks [] _ _, ?_, ?_, ?_, ?_, ?_, ?_, ?_, ?_⟩
  · with_unfolding_all rfl
  · with_unfolding_all rfl
  · with_unfolding_all rfl
  · with_unfolding_all rfl
  · decide +kernel
  · decide +kernel
  · with_unfolding_all rfl
  · with_unfolding_all rfl

end ClientRegistry.Workspace
