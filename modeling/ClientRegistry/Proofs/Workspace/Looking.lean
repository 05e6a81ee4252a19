import ClientRegistry.Proofs.Store.Exposed
import ClientRegistry.Proofs.Workspace.Answers
import ClientRegistry.Proofs.Workspace.Isolation

/-! Steps that only look. They have nothing in hand but the view of one bag, so all that they ever
edit is new or exposed by the view. What is made of neither is as before, and answers as before. -/

namespace ClientRegistry.Workspace

variable {old w w' : Workspace} {on name : String} {kind : BagKind} {names : List String}
  {root a : Address} {x : Shared}

/-- The steps that have nothing in hand but the view of one bag: they show it, they edit it, they
edit what it holds at any depth, and they take it, under a name of their own, as a dictionary that
they edit as well. -/
def Step.Looks (on : String) (names : List String) (step : Step) : Prop :=
  (∀ name, step.name = some name → name ∈ names) ∧
    match step.action with
    | .view bag => bag = on
    | .viewEdit bag _ => bag = on
    | .mutateField bag field _ _ => bag = on ∧ field = "settings"
    | .takeView bag => bag = on
    | .mutate name _ _ => name ∈ names
    | _ => False

/-- The value is seen by a look into the bag, or is new. -/
def Sees (old : Workspace) (root : Address) (x : Shared) : Prop :=
  ∀ a, x = .cell a → old.store.Seen root a

/-- The bag has its name, and the names of the views stand for what is seen. -/
structure Peeks (old : Workspace) (on : String) (kind : BagKind) (root : Address)
    (names : List String) (w : Workspace) : Prop where
  store : old.store.Viewed root w.store
  bag : ∃ h, w.handle? on = .ok h ∧ w.objects[h]? = some (.value (.bag kind root))
  views : ∀ name ∈ names, ∀ h, w.handle? name = .ok h →
    ∃ x, w.objects[h]? = some (.value x) ∧ old.Sees root x

/-- So it is after the turn, and its object is seen. -/
structure Turn.Peeks (old : Workspace) (on : String) (kind : BagKind) (root : Address)
    (names : List String) (t : Turn) : Prop where
  workspace : Workspace.Peeks old on kind root names t.workspace
  object : ∀ h, t.object = some h →
    ∃ x, t.workspace.objects[h]? = some (.value x) ∧ old.Sees root x

@[simp] theorem readInAll_names (w : Workspace) (vs : List Value) :
    (w.readInAll vs).1.names = w.names := by
  induction vs generalizing w with
  | nil => rfl
  | cons v rest ih => exact ih (w.readIn v).1

@[simp] theorem readInEdits_names (w : Workspace) (edits : List (Edit Value)) :
    (w.readInEdits edits).1.names = w.names := by
  induction edits generalizing w with
  | nil => rfl
  | cons e rest ih =>
      cases e with
      | stop reason => exact ih w
      | call method args => exact (ih _).trans (readInAll_names w args)

@[simp] theorem editAt_names (w : Workspace) (x : Shared) (path : List Value)
    (edits : List (Edit Value)) : (w.editAt x path edits).1.names = w.names := by
  simp only [editAt]
  split
  · exact readInEdits_names w edits
  · exact readInEdits_names w edits

@[simp] theorem editView_names (w : Workspace) (a : Address) (path : List Value)
    (edits : List (Edit Value)) : (w.editView a path edits).1.names = w.names := by
  cases path with
  | nil => rfl
  | cons key rest => exact editAt_names w _ _ edits

/-- An edit at the end of a path that leads to what is seen. -/
theorem editReached_viewed (h : old.store.Viewed root w.store) {path : List Value}
    (reach : ∀ s, old.store.Viewed root s → ∀ y, s.walk x path = .ok y → old.Sees root y)
    (edits : List (Edit Value)) : old.store.Viewed root (w.editAt x path edits).1.store := by
  obtain ⟨lays, new⟩ := readInEdits_lays w edits
  have laid := h.lays lays
  simp only [editAt]
  split
  · exact laid
  next y walked =>
    have known : old.Sees root y := reach _ laid y walked
    cases y with
    | leaf v => exact laid
    | bag kind b => exact laid
    | cell b =>
        refine laid.edit (fun z brought c at' => .inl ?_) (known b rfl)
          (lays.closed.editCell new b)
        subst at'
        exact Nat.le_trans h.length_le (brought c rfl).1

theorem editAt_viewed (h : old.store.Viewed root w.store) (seen : old.Sees root x)
    (path : List Value) (edits : List (Edit Value)) :
    old.store.Viewed root (w.editAt x path edits).1.store := by
  refine editReached_viewed h ?_ edits
  intro s viewed y walked
  exact viewed.closed.walk seen walked

/-- A path from the view leads to what is seen. -/
theorem sees_of_walk {s : Store} (viewed : old.store.Viewed root s) {key : Value}
    {rest : List Value} (walked : s.walk (.cell root) (key :: rest) = .ok x) :
    old.Sees root x := by
  have options : ∀ y ∈ (s.cellAt root).parts, old.Sees root y := by
    intro y member b same
    subst same
    exact viewed.parts root b (.inl rfl) member
  exact viewed.closed.walkOfCell options walked

theorem editView_viewed (h : old.store.Viewed root w.store) (path : List Value)
    (edits : List (Edit Value)) : old.store.Viewed root (w.editView root path edits).1.store := by
  cases path with
  | nil => exact h
  | cons key rest => exact editReached_viewed h (fun s viewed y => sees_of_walk viewed) edits

namespace Turn

theorem object_of_ofObject {i j : Handle} {log : List LogRecord}
    (h : (ofObject w i log).object = some j) : i = j := by
  simp only [ofObject] at h
  split at h <;> cases h
  rfl

theorem object_of_ofEdited {i j : Handle} {fault : Option Fault}
    (h : (ofEdited w i fault).object = some j) : i = j := by
  cases fault with
  | none => exact object_of_ofObject h
  | some e => cases h

end Turn

theorem Turn.Peeks.named {t : Turn} (h : t.Peeks old on kind root names) (apart : on ∉ names)
    {name : Option String} (own : ∀ n, name = some n → n ∈ names) :
    Workspace.Peeks old on kind root names (t.named name) := by
  simp only [Turn.named]
  split
  next i n _ object =>
    have member := own n rfl
    have ne : ¬n = on := fun same => apart (same ▸ member)
    obtain ⟨j, found, present⟩ := h.workspace.bag
    refine ⟨h.workspace.store, ⟨j, ?_, present⟩, fun m listed k found => ?_⟩
    · simpa [handle?, bind, ne] using found
    · by_cases same : n = m
      · have here : i = k := by simpa [handle?, bind, same] using found
        exact here ▸ h.object i object
      · exact h.workspace.views m listed k (by simpa [handle?, bind, same] using found)
  · exact h.workspace

namespace Peeks

theorem next (h : Peeks old on kind root names w) (same : w'.names = w.names)
    (objects : ∀ (i : Handle) (o : Object), w.objects[i]? = some o → w'.objects[i]? = some o)
    (store : old.store.Viewed root w'.store) : Peeks old on kind root names w' := by
  have handles : ∀ name, w'.handle? name = w.handle? name := fun name => by
    simp only [handle?, same]
  refine ⟨store, ?_, fun name listed i found => ?_⟩
  · obtain ⟨i, found, present⟩ := h.bag
    exact ⟨i, (handles on).trans found, objects i _ present⟩
  · obtain ⟨x, present, seen⟩ := h.views name listed i ((handles name).symm.trans found)
    exact ⟨x, objects i _ present, seen⟩

theorem fail (h : Peeks old on kind root names w) (e : Fault) :
    (Turn.fail w e).Peeks old on kind root names :=
  ⟨h, fun _ none => by cases none⟩

/-- A view that is taken is a new object. -/
theorem takeView (h : Peeks old on kind root names w) :
    (w.takeView on).Peeks old on kind root names := by
  obtain ⟨i, found, present⟩ := h.bag
  rw [Workspace.takeView, onBag_of_named (named_of_handle found present)]
  let shown : Workspace := { w with store := w.store ++ [.dict (w.store.entriesAt root)] }
  have looked : Peeks old on kind root names (shown.insert (.value (.cell w.store.length))).1 := by
    refine h.next rfl (fun j o there => ?_) h.store.look
    rw [insert_objects, List.getElem?_append_left (List.getElem?_eq_some_iff.mp there).1]
    exact there
  refine ⟨by rwa [Turn.ofNew, Turn.ofObject_workspace], fun j object => ?_⟩
  rw [Turn.ofNew, Turn.ofObject_workspace]
  obtain rfl := Turn.object_of_ofObject object
  refine ⟨_, List.getElem?_concat_length, fun a same => ?_⟩
  cases same
  exact .inl h.store.length_le

theorem viewEdit (h : Peeks old on kind root names w) (edits : List (Edit Value)) :
    (w.viewEdit on edits).Peeks old on kind root names := by
  obtain ⟨i, found, present⟩ := h.bag
  rw [Workspace.viewEdit, onBag_of_named (named_of_handle found present)]
  split
  · exact h.fail _
  · exact ⟨h, fun _ none => by cases none⟩

/-- What is shown of the edits is the bag. -/
theorem mutateField (h : Peeks old on kind root names w) (path : List Value)
    (edits : List (Edit Value)) :
    (w.mutateField on "settings" path edits).Peeks old on kind root names := by
  obtain ⟨i, found, present⟩ := h.bag
  rw [Workspace.mutateField, onObject_of_handle found present]
  have edited : Peeks old on kind root names (w.editView root path edits).1 :=
    h.next (editView_names w root path edits)
      (fun j o there => by rwa [editView_objects])
      (editView_viewed h.store path edits)
  simp only [beq_self_eq_true, if_true]
  refine ⟨by rwa [Turn.ofEdited_workspace], fun j object => ?_⟩
  rw [Turn.ofEdited_workspace, editView_objects]
  obtain rfl := Turn.object_of_ofEdited object
  exact ⟨_, present, fun a same => by cases same⟩

theorem mutate (h : Peeks old on kind root names w) (listed : name ∈ names) (path : List Value)
    (edits : List (Edit Value)) : (w.mutate name path edits).Peeks old on kind root names := by
  cases found : w.handle? name with
  | error e =>
      simp only [Workspace.mutate, onObject, found, after]
      exact h.fail e
  | ok i =>
      obtain ⟨x, present, seen⟩ := h.views name listed i found
      rw [Workspace.mutate, onObject_of_handle found present]
      have edited : Peeks old on kind root names (w.editAt x path edits).1 :=
        h.next (editAt_names w x path edits)
          (fun j o there => by rwa [editAt_objects])
          (editAt_viewed h.store seen path edits)
      refine ⟨by rwa [Turn.ofEdited_workspace], fun j object => ?_⟩
      rw [Turn.ofEdited_workspace, editAt_objects]
      obtain rfl := Turn.object_of_ofEdited object
      exact ⟨x, present, seen⟩

theorem perform (h : Peeks old on kind root names w) {step : Step} (looks : step.Looks on names) :
    (w.perform step.action).Peeks old on kind root names := by
  obtain ⟨action, name⟩ := step
  obtain ⟨-, looks⟩ := looks
  cases action with
  | view bag => exact (show bag = on from looks) ▸ h.viewEdit []
  | viewEdit bag edits => exact (show bag = on from looks) ▸ h.viewEdit edits
  | mutateField bag field path edits =>
      obtain ⟨rfl, rfl⟩ := looks
      exact h.mutateField path edits
  | takeView bag => exact (show bag = on from looks) ▸ h.takeView
  | mutate name path edits => exact h.mutate looks path edits
  | _ => exact looks.elim

/-- What a look leads to is exposed or new. -/
theorem edited (h : Peeks old on kind root names w) {step : Step} (looks : step.Looks on names)
    (edited : w.edited? step.action = some a) : old.store.Seen root a := by
  obtain ⟨action, name⟩ := step
  obtain ⟨-, looks⟩ := looks
  cases action with
  | view bag => cases edited
  | viewEdit bag edits => cases edited
  | takeView bag => cases edited
  | mutateField bag field path edits =>
      obtain ⟨rfl, rfl⟩ := looks
      obtain ⟨i, found, present⟩ := h.bag
      cases path with
      | nil => simp [edited?, named_of_handle found present, fieldTarget?] at edited
      | cons key rest =>
          simp only [edited?, named_of_handle found present, fieldTarget?, target?, ne_eq,
            List.cons_ne_nil, not_false_eq_true, and_self, if_true] at edited
          split at edited
          next b walked =>
            cases edited
            exact sees_of_walk h.store walked a rfl
          · cases edited
  | mutate name path edits =>
      cases found : w.handle? name with
      | error e =>
          have unnamed : w.named? name = .error e := by rw [named?, found]; rfl
          simp only [edited?, unnamed] at edited
          cases edited
      | ok i =>
          obtain ⟨x, present, seen⟩ := h.views name looks i found
          simp only [edited?, named_of_handle found present, target?] at edited
          split at edited
          next b walked =>
            cases edited
            have known : old.Sees root (.cell a) := h.store.closed.walk seen walked
            exact known a rfl
          · cases edited
  | _ => exact looks.elim

/-- Steps that only look edit what is exposed and what is new. -/
theorem reached (h : Peeks old on kind root names w) (apart : on ∉ names) {steps : List Step}
    (looks : ∀ step ∈ steps, step.Looks on names) :
    Peeks old on kind root names (w.reached steps) ∧
      ∀ a ∈ w.editings steps, old.store.Seen root a := by
  induction steps generalizing w with
  | nil => exact ⟨h, fun _ member => by cases member⟩
  | cons step rest ih =>
      rw [List.forall_mem_cons] at looks
      obtain ⟨peeks, seen⟩ := ih ((h.perform looks.1).named apart looks.1.1) looks.2
      refine ⟨peeks, fun a member => ?_⟩
      rcases List.mem_append.mp member with first | later
      · exact h.edited looks.1 (Option.mem_toList.mp first)
      · exact seen a later

end Peeks

/-- The record is made of no list, set or dictionary that a look into the bag exposes. -/
def Shielded (w : Workspace) (root : Address) (h : Handle) : Prop :=
  ∃ o : Object, w.objects[h]? = some o ∧ o.Record ∧ ∀ a ∈ o.bags, ∀ c ∈ w.store.bagCells a,
    (w.store.cellAt c).editable = true → ¬w.store.Exposed root c

section Looks

variable (grounded : w.holding.Grounded) (named : w.named? on = .ok (.value (.bag kind root)))
  (fresh : ∀ name ∈ names, ∀ h, w.handle? name ≠ .ok h)

include named fresh

theorem start_peeks : Peeks w on kind root names w ∧ on ∉ names := by
  obtain ⟨i, found, present⟩ := handle_of_named named
  refine ⟨⟨.refl _ root, ⟨i, found, present⟩, ?_⟩, fun listed => fresh on listed i found⟩
  exact fun name listed h found => absurd found (fresh name listed h)

variable {steps : List Step} (looks : ∀ step ∈ steps, step.Looks on names)

include looks

/-- No old cells but those that are exposed are edited. -/
theorem exposed_of_looks : ∀ c ∈ w.editings steps, c < w.store.length → w.store.Exposed root c := by
  obtain ⟨peeks, apart⟩ := start_peeks named fresh
  intro c edited inside
  exact ((peeks.reached apart looks).2 c edited).resolve_left (Nat.not_le_of_lt inside)

include grounded

/-- A bag that is made of nothing that is exposed reads as before. -/
theorem bag_of_looks {kind' : BagKind} {bag : Address} (held : w.holding.Holds (.bag kind' bag))
    (shielded : ∀ c ∈ w.store.bagCells bag, (w.store.cellAt c).editable = true →
      ¬w.store.Exposed root c) :
    (w.reached steps).store.optionsAt bag = w.store.optionsAt bag ∧
      ∀ x : Shared, x.address? = some bag → (w.reached steps).store.read x = w.store.read x := by
  obtain ⟨moves, -⟩ := reached_moves grounded steps
  refine grounded.bag_moves moves held fun c member editable edited => ?_
  refine shielded c member editable (exposed_of_looks named fresh looks c edited ?_)
  rcases Store.mentioned_of_bagCells member with rfl | ⟨b, mentions⟩
  · exact (grounded.holds held rfl).1
  · exact (grounded.mentioned mentions).1

/-- The bag holds what it held: its options stay in their cells. -/
theorem entriesAt_of_looks :
    (w.reached steps).store.entriesAt root = w.store.entriesAt root := by
  obtain ⟨moves, -⟩ := reached_moves grounded steps
  have leaves := grounded.leaves_moves moves
  obtain ⟨h, -, present⟩ := handle_of_named named
  obtain ⟨inside, plain⟩ : root < w.store.length ∧ _ := grounded.held (.bag kind root) root
    ⟨_, List.mem_of_getElem? present, List.mem_singleton_self _⟩ rfl
  have same := leaves.cells root inside plain fun _ edited =>
    grounded.ranked.ne_of_exposed (exposed_of_looks named fresh looks root edited inside) rfl
  have later : root < (w.reached steps).store.length := Nat.lt_of_lt_of_le inside leaves.length_le
  have cell : (w.reached steps).store.cellAt root = w.store.cellAt root := same
  simp only [Store.entriesAt, Store.getElem?_eq_cellAt inside, Store.getElem?_eq_cellAt later, cell]

theorem unaltered_of_looks {h : Handle} (shielded : w.Shielded root h) :
    w.Unaltered (w.reached steps) h := by
  obtain ⟨o, present, record, shielded⟩ := shielded
  have holds := (Backed.start grounded).held o (List.mem_of_getElem? present)
  refine unaltered_of_bags present record (reached_moves grounded steps).2 fun a bag => ?_
  obtain ⟨kind', member⟩ := Object.held_of_bags record bag
  have same := bag_of_looks grounded named fresh looks (holds _ member) (shielded a bag)
  exact ⟨same.1, fun kind => same.2 (.bag kind a) rfl⟩

/-- If nothing is exposed that can be edited, the bag answers as before. -/
theorem answers_of_looks
    (rigid : ∀ c, w.store.Exposed root c → (w.store.cellAt c).editable = false) :
    ((w.reached steps).toDict on).display = (w.toDict on).display ∧
      ∀ name default : Value, name.Unmarked → default.Unmarked →
        ((w.reached steps).getSetting on (.given name) (.given default)).display =
          (w.getSetting on (.given name) (.given default)).display := by
  obtain ⟨h, -, present⟩ := handle_of_named named
  have held : w.holding.Holds (.bag kind root) := Holding.holds_of_held
    ⟨_, List.mem_of_getElem? present, List.mem_singleton_self _⟩
  obtain ⟨options, read⟩ := bag_of_looks grounded named fresh looks held
    fun c _ editable exposed => by simp [rigid c exposed] at editable
  obtain ⟨peeks, apart⟩ := start_peeks named fresh
  obtain ⟨i, found, present'⟩ := (peeks.reached apart looks).1.bag
  have named' := named_of_handle found present'
  have grounded' : (w.reached steps).holding.Grounded := reached_grounded grounded steps
  refine ⟨?_, fun name default plain plain' => ?_⟩
  · rw [toDict_display grounded' named', toDict_display grounded named, read (.cell root) rfl]
  · rw [getSetting_display grounded' named', getSetting_display grounded named, options,
      plain _ w.next, plain' _ (name.freshen w.next).2]

end Looks

end ClientRegistry.Workspace
