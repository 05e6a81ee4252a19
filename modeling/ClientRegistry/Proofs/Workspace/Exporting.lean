import ClientRegistry.Proofs.Workspace.Exported
import ClientRegistry.Proofs.Workspace.Parted

/-! Exports. What is taken out of a bag or of a client is made of new cells and of rigid ones, so
it lies in a region of its own. An edit stays in the region of the object that it is made to. -/

namespace ClientRegistry.Workspace

variable {w w' : Workspace} {start i : Handle} {region : Address → Option Handle}
  {k : Option Handle} {o : Object} {x : Shared} {a : Address} {s : Store} {fields : HeldFields}

section Exports

variable (h : w.Parted start region) (grounded : w.holding.Grounded)

include h grounded

theorem getSetting_parts (on : String) (name default : Operand) :
    (w.getSetting on name default).Parts start region w k := by
  refine h.onBag_parts grounded fun kind a _ => ?_
  refine h.onHeld_parts grounded (.refl _) rfl fun w₁ n grows₁ objects₁ _ => ?_
  refine h.onHeld_parts grounded grows₁ objects₁ fun w₂ x grows₂ objects₂ inside => ?_
  refine h.after_parts grounded grows₂ objects₂ fun _ _ => ?_
  have ranked := grows₂.ranked grounded.ranked
  obtain ⟨grows, free⟩ := Store.copy_grows ranked (option_lt (a := a) ranked inside (w₂.store.read n))
  refine h.exported grounded (grows₂.trans grows) objects₂ ?_
  exact List.forall_mem_singleton.mpr (free.earlier grows₂.length_le)

theorem toDict_parts (on : String) : (w.toDict on).Parts start region w k := by
  refine h.onBag_parts grounded fun kind a inside => ?_
  obtain ⟨grows, free⟩ := Store.copyCell_grows grounded.ranked inside
  exact h.exported grounded grows rfl (List.forall_mem_singleton.mpr free)

/-- A bag of a client is the same bag in other hands, and takes no edits. -/
theorem clientBag_parts (on : String) (kind : BagKind) :
    (w.clientBag on kind).Parts start region w k := by
  refine h.onClient_parts grounded fun i c present => ?_
  have inside := parts_lt grounded (List.mem_of_getElem? present)
  have bag : ∀ kind a, .cell a ∈ (Object.client c).parts →
      (Turn.ofNew (w.insert (.value (.bag kind a)))).Parts start region w k := by
    intro kind a member
    refine h.added grounded (.refl _) rfl (List.forall_mem_singleton.mpr fun b at' => ?_)
    cases at'
    rw [Store.regionFrom_of_lt (inside _ member a rfl)]
    exact h.objects i _ present _ member a rfl
  cases kind with
  | client => exact bag _ _ List.mem_cons_self
  | token => exact bag _ _ (List.mem_cons_of_mem _ List.mem_cons_self)

theorem row_parts (on : String) : (w.row on).Parts start region w k := by
  refine h.onClient_parts grounded fun i c present => ?_
  refine h.after_parts grounded (.refl _) rfl fun r _ => ?_
  have inside := parts_lt grounded (List.mem_of_getElem? present)
  obtain ⟨grows, free⟩ := exported_grows grounded.ranked inside r.columns
  have objects := exported_objects w c r.columns
  generalize w.exported c r.columns = p at grows free objects ⊢
  exact h.exported grounded grows objects (List.forall_mem_map.mpr free)

/-- The new object is opaque here: laying out twelve fields must not be unfolded. -/
theorem snapshot_parts (on : String) : (w.snapshot on).Parts start region w k := by
  refine h.onClient_parts grounded fun i c present => ?_
  refine h.after_parts grounded (.refl _) rfl fun r _ => ?_
  have inside := parts_lt grounded (List.mem_of_getElem? present)
  obtain ⟨grows, free⟩ := exported_grows grounded.ranked inside r.named
  have objects := exported_objects w c r.named
  generalize w.exported c r.named = p at grows free objects ⊢
  obtain ⟨w₁, fields⟩ := p
  obtain ⟨grows', free'⟩ := keepEntries_grows grounded.ranked grows free free
  have objects' := (keepEntries_objects w₁ fields fields).trans objects
  dsimp only
  generalize w₁.keepEntries fields fields = q at grows' free' objects' ⊢
  exact h.exported grounded grows' objects' (List.forall_mem_map.mpr free')

end Exports

/-- The address of the value, if it has one, is rigid or in the region. -/
def Within (s : Store) (region : Address → Option Handle) (k : Option Handle) (x : Shared) :
    Prop :=
  ∀ a, x.address? = some a → s.Rigid a ∨ region a = k

/-- What was in a region still is when new cells are given to it. -/
theorem Within.grown {s' : Store} (own : Within s region k x) (keeps : s.Keeps s') :
    Within s' (Store.regionFrom region s.length k) k x := by
  intro b at'
  rcases own b at' with rigid | same
  · exact .inl (rigid.keep keeps)
  · by_cases inside : b < s.length
    · exact .inr ((Store.regionFrom_of_lt inside).trans same)
    · exact .inr (Store.regionFrom_of_le (Nat.le_of_not_lt inside))

/-- What is reached from a value in a region is in it. -/
theorem within_closed (parted : s.Parted region) : s.Closed (Within s region k) where
  leaf v a at' := by cases at'
  parts a given x member b at' := by
    rcases given a rfl with rigid | same
    · exact .inl (rigid.part member at')
    · exact (parted a b ⟨x, member, at'⟩).imp_right fun near => near.trans same

/-- An edit of a cell in a region, or of a rigid one, which refuses it, changes no other cell. -/
theorem edits_parted (parted : s.Parted region) {s' : Store}
    (edits : s.Edits (Within s region k) a s') (own : s.Rigid a ∨ region a = k) :
    s'.Parted region ∧ s.Keeps s' ∧ s.length ≤ s'.length ∧
      ∀ b, region b ≠ k → s'.cellAt b = s.cellAt b := by
  rcases own with rigid | same
  · rcases edits with rfl | ⟨c, rfl, -, editable, -⟩
    · exact ⟨parted, .refl _, Nat.le_refl _, fun _ _ => rfl⟩
    · simp [rigid.not_editable] at editable
  · refine ⟨parted.edits edits fun x within b at' => same ▸ within b at', ?_⟩
    rcases edits with rfl | ⟨c, rfl, -, editable, -⟩
    · exact ⟨.refl _, Nat.le_refl _, fun _ _ => rfl⟩
    · refine ⟨Store.keeps_set editable c, (List.length_set ..).ge, fun b other => ?_⟩
      exact Store.cellAt_set_ne (fun eq => other ((congrArg region eq).symm.trans same)) c

/-- An edit that starts in the region of an object stays in it. -/
theorem editAt_parts (h : w.Parted start region) (grounded : w.holding.Grounded)
    (own : Within w.store region (some i) x) (path : List Value) (edits : List (Edit Value)) :
    (∃ region', (w.editAt x path edits).1.Parted start region') ∧
      w.Confined region (some i) (w.editAt x path edits).1 := by
  obtain ⟨lays, new⟩ := readInEdits_lays w edits
  have objects := readInEdits_objects w edits
  have laid := h.grows grounded lays.grows objects (some i)
  simp only [editAt]
  generalize w.readInEdits edits = p at lays new objects laid ⊢
  obtain ⟨w₁, brought⟩ := p
  dsimp only at lays new objects laid ⊢
  let region₁ := Store.regionFrom region w.store.length (some i)
  have extends₁ : w.Extends w₁ := .of_store lays.extends objects
  have still : (∃ region', w₁.Parted start region') ∧ w.Confined region (some i) w₁ :=
    ⟨⟨_, laid⟩, .of_extends extends₁⟩
  split
  · exact still
  next y walked =>
    have fresh : ∀ e ∈ brought, ∀ z ∈ e.args, Within w₁.store region₁ (some i) z :=
      fun e member z arg b at' => .inr (Store.regionFrom_of_le (new e member z arg b at').1)
    have source : Within w₁.store region₁ (some i) x := own.grown lays.keeps
    have closed := within_closed (k := some i) laid.cells
    have reached := closed.walk source walked
    cases y with
    | leaf v => exact still
    | bag kind a => exact still
    | cell a =>
        obtain ⟨parted, keeps, length_le, same⟩ :=
          edits_parted laid.cells (closed.editCell fresh a) (reached a rfl)
        refine ⟨⟨region₁, parted, fun j o present z member b at' => ?_⟩, ?_⟩
        · exact (laid.objects j o present z member b at').imp_left fun rigid => rigid.keep keeps
        · refine ⟨Nat.le_trans lays.length_le length_le, lays.keeps.trans keeps, ?_, ?_⟩
          · intro b inside other
            have apart : region₁ b ≠ some i := by
              intro eq
              have eq : region b = some i := (Store.regionFrom_of_lt inside).symm.trans eq
              rcases other with none | other
              · cases none.symm.trans eq
              · exact other eq
            exact (same b apart).trans (lays.cellAt inside)
          · exact fun j o present _ => extends₁.objects j o present

/-- A bag takes no edits. -/
theorem editAt_bag (w : Workspace) (kind : BagKind) (a : Address) (path : List Value)
    (edits : List (Edit Value)) :
    (w.editAt (.bag kind a) path edits).1 = (w.readInEdits edits).1 := by
  cases path <;> rfl

section Edits

variable (h : w.Parted start region) (grounded : w.holding.Grounded)

include h grounded

theorem ofEdited_parts (own : Within w.store region (some i) x) (path : List Value)
    (edits : List (Edit Value)) :
    (Turn.ofEdited (w.editAt x path edits).1 i (w.editAt x path edits).2).Parts start region w
      (some i) := by
  obtain ⟨parted, confined⟩ := editAt_parts h grounded own path edits
  exact ⟨Turn.ofEdited_workspace .. ▸ parted, Turn.ofEdited_workspace .. ▸ confined⟩

/-- What is edited lies in the region of its object, or it is a bag. -/
theorem mutate_parts {on : String} (later : ∀ i, w.handle? on = .ok i → start ≤ i)
    (path : List Value) (edits : List (Edit Value)) :
    (w.mutate on path edits).Parts start region w (w.handle? on).toOption := by
  refine h.onObject_parts grounded fun i o named present => ?_
  have new := later i named
  rw [named, Except.toOption]
  cases o with
  | value x =>
      have home := h.objects i _ present _ (List.mem_singleton_self _)
      cases x with
      | leaf v => exact ofEdited_parts h grounded (fun a at' => by cases at') path edits
      | cell a =>
          simp only [Object.ownRegion, new, if_true] at home
          exact ofEdited_parts h grounded home path edits
      | bag kind a =>
          obtain ⟨lays, -⟩ := readInEdits_lays w edits
          refine h.laid grounded ?_ ?_
          · rw [Turn.ofEdited_workspace, editAt_bag]
            exact lays.grows
          · rw [Turn.ofEdited_workspace, editAt_bag]
            exact readInEdits_objects w edits
  | _ => exact h.laid grounded (.refl _) rfl

/-- An edit by way of the view of a bag is none of an export. -/
theorem mutateField_parts {on : String} (later : ∀ i, w.handle? on = .ok i → start ≤ i)
    (field : String) (path : List Value) (edits : List (Edit Value))
    (blind : w.viewed? (.mutateField on field path edits) = none) :
    (w.mutateField on field path edits).Parts start region w (w.handle? on).toOption := by
  refine h.onObject_parts grounded fun i o named present => ?_
  have new := later i named
  rw [named, Except.toOption]
  have edited : ∀ fields : HeldFields, (∀ f ∈ fields, Within w.store region (some i) f.2) →
      ∀ x, fields.field? field = some x →
        (Turn.ofEdited (w.editAt x path edits).1 i (w.editAt x path edits).2).Parts start region w
          (some i) := fun fields home x there =>
    ofEdited_parts h grounded (HeldFields.holds_of_field? home there) path edits
  have home := h.objects i _ present
  cases o with
  | snapshot fields =>
      simp only [Object.ownRegion, new, if_true] at home
      simp only
      split
      · exact h.laid grounded (.refl _) rfl
      next x there => exact edited fields (List.forall_mem_map.mp home) x there
  | row fields =>
      simp only [Object.ownRegion, new, if_true] at home
      simp only
      split
      · exact h.laid grounded (.refl _) rfl
      next x there => exact edited fields (List.forall_mem_map.mp home) x there
  | value x =>
      cases x with
      | bag kind a =>
          have other : field ≠ "settings" := by
            rintro rfl
            simp [viewed?, named_of_handle named present] at blind
          simp only [beq_iff_eq, other, if_false]
          exact h.laid grounded (.refl _) rfl
      | _ => exact h.laid grounded (.refl _) rfl
  | _ => exact h.laid grounded (.refl _) rfl

/-- A column that is assigned to holds a new value. -/
theorem setAttribute_parts {on : String} (later : ∀ i, w.handle? on = .ok i → start ≤ i)
    (field : String) (v : Value) :
    (w.setAttribute on field (.given v)).Parts start region w (w.handle? on).toOption := by
  refine h.onObject_parts grounded fun i o named present => ?_
  have new := later i named
  rw [named, Except.toOption]
  have home := h.objects i _ present
  cases o with
  | row fields =>
      simp only [Object.ownRegion, new, if_true] at home
      obtain ⟨lays, fresh⟩ := readIn_lays w v
      have laid : (w.readIn v).1.Parted start (Store.regionFrom region w.store.length (some i)) :=
        h.grows grounded lays.grows rfl (some i)
      have extends' : w.Extends (w.readIn v).1 := .of_store lays.extends rfl
      have columns : ∀ f ∈ fields.put field (w.readIn v).2,
          Within (w.readIn v).1.store (Store.regionFrom region w.store.length (some i)) (some i)
            f.2 := by
        have own : ∀ f ∈ fields, Within w.store region (some i) f.2 := List.forall_mem_map.mp home
        exact HeldFields.put_holds (fun f member => (own f member).grown lays.keeps) fun a at' =>
          .inr (Store.regionFrom_of_le (fresh a at').1)
      refine ⟨⟨Store.regionFrom region w.store.length (some i), laid.replace ?_⟩, ?_⟩
      · simp only [Object.ownRegion, new, if_true]
        exact List.forall_mem_map.mpr columns
      · exact (Confined.of_extends extends').replace
  | value x =>
      simp only
      split
      · exact h.laid grounded (.refl _) rfl
      · exact h.laid grounded (.refl _) rfl
  | _ => exact h.laid grounded (.refl _) rfl

end Edits

/-- The object that an action edits in place. -/
def editee? (w : Workspace) : Action → Option Handle
  | .mutate on _ _ => (w.handle? on).toOption
  | .mutateField on _ _ _ => (w.handle? on).toOption
  | .setAttribute on _ _ => (w.handle? on).toOption
  | _ => none

/-- The action takes something out of a bag or of a client, or it edits an object with values that
are given in place. -/
def Action.exports : Action → Bool
  | .clientBag _ _ => true
  | .getSetting _ _ _ => true
  | .toDict _ => true
  | .snapshot _ => true
  | .row _ => true
  | .mutate _ _ _ => true
  | .mutateField _ _ _ _ => true
  | .setAttribute _ _ (.given _) => true
  | _ => false

/-- The steps make exports, look into no bag, and edit nothing that was there before them. -/
def Exporting (start : Handle) (w : Workspace) : List Step → Prop
  | [] => True
  | step :: rest => (step.action.exports = true ∧ w.viewed? step.action = none) ∧
    (∀ i ∈ w.editee? step.action, start ≤ i) ∧
    Exporting start ((w.perform step.action).named step.name) rest

theorem perform_parts (h : w.Parted start region) (grounded : w.holding.Grounded)
    {action : Action} (exports : action.exports = true ∧ w.viewed? action = none)
    (later : ∀ i ∈ w.editee? action, start ≤ i) :
    (w.perform action).Parts start region w (w.editee? action) := by
  obtain ⟨exports, blind⟩ := exports
  have target : ∀ on, (w.handle? on).toOption = w.editee? action →
      ∀ i, w.handle? on = .ok i → start ≤ i := by
    intro on same i found
    refine later i ?_
    rw [← same, found]
    rfl
  cases action with
  | clientBag on kind => exact clientBag_parts h grounded on kind
  | getSetting on name default => exact getSetting_parts h grounded on name default
  | toDict on => exact toDict_parts h grounded on
  | snapshot on => exact snapshot_parts h grounded on
  | row on => exact row_parts h grounded on
  | mutate on path edits => exact mutate_parts h grounded (target on rfl) path edits
  | mutateField on field path edits =>
      exact mutateField_parts h grounded (target on rfl) field path edits blind
  | setAttribute on field value =>
      cases value with
      | given v => exact setAttribute_parts h grounded (target on rfl) field v
      | «variable» name => cases exports
  | _ => cases exports

/-- A step that makes or edits an export keeps the regions, and leaves all other objects intact. -/
theorem Parted.step (h : w.Parted start region) (grounded : w.holding.Grounded) {step : Step}
    (exports : step.action.exports = true ∧ w.viewed? step.action = none)
    (later : ∀ i ∈ w.editee? step.action, start ≤ i) :
    (∃ region', (w.reached [step]).Parted start region') ∧
      ∀ i < w.objects.length, w.editee? step.action ≠ some i → w.Intact (w.reached [step]) i := by
  obtain ⟨⟨region', parted⟩, confined⟩ := perform_parts h grounded exports later
  constructor
  · refine ⟨region', ?_, ?_⟩
    · rw [reached, reached, Turn.named_store]
      exact parted.cells
    · rw [reached, reached, Turn.named_store, Turn.named_objects]
      exact parted.objects
  · intro i inside other
    obtain ⟨o, present, present', same⟩ :=
      confined.intact grounded h inside fun same => other same.symm
    refine ⟨o, present, ?_, ?_⟩
    · rw [reached, reached, Turn.named_objects]
      exact present'
    · rw [reached, reached, Turn.named_store]
      exact same

theorem Intact.lt (h : w.Intact w' i) : i < w'.objects.length := by
  obtain ⟨o, -, present', -⟩ := h
  exact (List.getElem?_eq_some_iff.mp present').1

theorem Intact.refl (inside : i < w.objects.length) : w.Intact w i :=
  ⟨w.objects[i], List.getElem?_eq_getElem inside, List.getElem?_eq_getElem inside,
    fun _ _ _ _ => ⟨rfl, fun _ _ => rfl⟩⟩

/-- What was there from the start stays intact. -/
theorem Parted.run (h : w.Parted start region) (grounded : w.holding.Grounded) {steps : List Step}
    (exporting : w.Exporting start steps) :
    (∃ region', (w.reached steps).Parted start region') ∧
      ∀ i < w.objects.length, i < start → w.Intact (w.reached steps) i := by
  induction steps generalizing w region with
  | nil => exact ⟨⟨region, h⟩, fun i inside _ => .refl inside⟩
  | cons step rest ih =>
      obtain ⟨exports, later, exporting⟩ := exporting
      obtain ⟨⟨region', parted⟩, intact⟩ := h.step grounded exports later
      obtain ⟨parted', intact'⟩ := ih parted (reached_grounded grounded [step]) exporting
      refine ⟨parted', fun i inside old => ?_⟩
      have first := intact i inside fun edited => Nat.not_lt_of_le (later i edited) old
      exact first.trans (intact' i first.lt old)

/-- The actions that take something out of what has a name. What they are given is no bag's, and
reads in the same at any time. -/
inductive Action.TakesFrom (on : String) : Action → Prop
  | clientBag (kind : BagKind) : TakesFrom on (.clientBag on kind)
  | toDict : TakesFrom on (.toDict on)
  | getSetting {name default : Value} (plain : name.Unmarked) (plain' : default.Unmarked) :
      TakesFrom on (.getSetting on (.given name) (.given default))
  | snapshot : TakesFrom on (.snapshot on)
  | row : TakesFrom on (.row on)

theorem Intact.present (intact : w.Intact w' i) :
    ∃ o, w.objects[i]? = some o ∧ w'.objects[i]? = some o := by
  obtain ⟨o, present, present', -⟩ := intact
  exact ⟨o, present, present'⟩

/-- A bag that is intact has the options that it had. -/
theorem Intact.bag {kind : BagKind} (intact : w.Intact w' i)
    (present : w.objects[i]? = some (.value (.bag kind a))) :
    w'.store.read (.cell a) = w.store.read (.cell a) ∧
      w'.store.optionsAt a = w.store.optionsAt a := by
  obtain ⟨o, present', -, same⟩ := intact
  cases present.symm.trans present'
  obtain ⟨read, options⟩ := same _ (List.mem_singleton_self _) (.cell a) rfl
  exact ⟨read, options a rfl⟩

/-- A client that is intact is what it was, and so are its bags. -/
theorem Intact.client {c : HeldClient} (intact : w.Intact w' i)
    (present : w.objects[i]? = some (.client c)) : c.current w'.store = c.current w.store ∧
      ∀ x : Shared, x.address? = some c.clientSettings ∨ x.address? = some c.tokenSettings →
        w'.store.read x = w.store.read x := by
  obtain ⟨o, present', -, same⟩ := intact
  cases present.symm.trans present'
  have first := same (.cell c.clientSettings) List.mem_cons_self
  have second := same (.cell c.tokenSettings) (List.mem_cons_of_mem _ List.mem_cons_self)
  constructor
  · simp only [HeldClient.current, (first _ rfl).2 _ rfl, (second _ rfl).2 _ rfl]
  · exact fun x like => like.elim (fun like => (first x like).1) fun like => (second x like).1

section Taking

variable (intact : w.Intact w' i) {on : String} (found : w.handle? on = .ok i)
  (found' : w'.handle? on = .ok i)

include intact found found'

theorem Intact.clientBag_display (kind : BagKind) :
    (w'.clientBag on kind).display = (w.clientBag on kind).display := by
  obtain ⟨o, present, present'⟩ := intact.present
  simp only [clientBag, onClient, onObject_of_handle found present,
    onObject_of_handle found' present']
  cases o with
  | client c =>
      obtain ⟨-, read⟩ := intact.client present
      cases kind with
      | client => simp only [ofNew_insert_display, shown, read (.bag .client _) (.inl rfl)]
      | token => simp only [ofNew_insert_display, shown, read (.bag .token _) (.inr rfl)]
  | _ => rfl

variable (grounded : w.holding.Grounded) (grounded' : w'.holding.Grounded)

include grounded grounded'

theorem Intact.toDict_display : (w'.toDict on).display = (w.toDict on).display := by
  obtain ⟨o, present, present'⟩ := intact.present
  by_cases is : ∃ kind a, o = .value (.bag kind a)
  · obtain ⟨kind, a, rfl⟩ := is
    rw [Workspace.toDict_display grounded (named_of_handle found present),
      Workspace.toDict_display grounded' (named_of_handle found' present'), (intact.bag present).1]
  · simp only [toDict, onBag, onObject_of_handle found present, onObject_of_handle found' present']
    split
    next kind a => exact absurd ⟨kind, a, rfl⟩ is
    · rfl

theorem Intact.getSetting_display {name default : Value} (plain : name.Unmarked)
    (plain' : default.Unmarked) : (w'.getSetting on (.given name) (.given default)).display =
      (w.getSetting on (.given name) (.given default)).display := by
  obtain ⟨o, present, present'⟩ := intact.present
  by_cases is : ∃ kind a, o = .value (.bag kind a)
  · obtain ⟨kind, a, rfl⟩ := is
    rw [Workspace.getSetting_display grounded (named_of_handle found present),
      Workspace.getSetting_display grounded' (named_of_handle found' present'),
      (intact.bag present).2, plain w'.next w.next, plain' _ (name.freshen w.next).2]
  · simp only [getSetting, onBag, onObject_of_handle found present,
      onObject_of_handle found' present']
    split
    next kind a => exact absurd ⟨kind, a, rfl⟩ is
    · rfl

theorem Intact.snapshot_display : (w'.snapshot on).display = (w.snapshot on).display := by
  obtain ⟨o, present, present'⟩ := intact.present
  cases o with
  | client c =>
      rw [Workspace.snapshot_display grounded (named_of_handle found present),
        Workspace.snapshot_display grounded' (named_of_handle found' present'),
        (intact.client present).1]
  | _ =>
      simp only [snapshot, onClient, onObject_of_handle found present,
        onObject_of_handle found' present']
      rfl

theorem Intact.row_display : (w'.row on).display = (w.row on).display := by
  obtain ⟨o, present, present'⟩ := intact.present
  cases o with
  | client c =>
      obtain ⟨current, read⟩ := intact.client present
      rw [Workspace.row_display grounded (named_of_handle found present),
        Workspace.row_display grounded' (named_of_handle found' present'), current,
        read (.cell _) (.inl rfl), read (.cell _) (.inr rfl)]
  | _ =>
      simp only [row, onClient, onObject_of_handle found present, onObject_of_handle found' present']
      rfl

/-- What is taken out of an object that is intact shows what it would have shown before. -/
theorem Intact.display {action : Action} (takes : action.TakesFrom on) :
    (w'.perform action).display = (w.perform action).display := by
  cases takes with
  | clientBag kind => exact intact.clientBag_display found found' kind
  | toDict => exact intact.toDict_display found found' grounded grounded'
  | getSetting plain plain' =>
      exact intact.getSetting_display found found' grounded grounded' plain plain'
  | snapshot => exact intact.snapshot_display found found' grounded grounded'
  | row => exact intact.row_display found found' grounded grounded'

end Taking

instance decideExporting (start : Handle) :
    ∀ (w : Workspace) (steps : List Step), Decidable (w.Exporting start steps)
  | _, [] => .isTrue trivial
  | w, step :: rest =>
    have := decideExporting start ((w.perform step.action).named step.name) rest
    inferInstanceAs (Decidable (_ ∧ _ ∧ _))

end ClientRegistry.Workspace
