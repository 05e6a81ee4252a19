import ClientRegistry.Proofs.Workspace.Sound

/-! Every action but the copies keeps a workspace sound. -/

namespace ClientRegistry.Workspace

variable {w w' : Workspace}

theorem Sound.insertValue (h : w.Sound) (v : Value) : (w.insertValue v).1.Sound :=
  Sound.insert (h.of_objects rfl) trivial

theorem operand_sound (h : w.Sound) {x : Operand} {i : Handle}
    (found : w.operand x = .ok (w', i)) : w'.Sound := by
  cases x with
  | given v =>
      cases found
      exact Sound.insert (h.of_objects (readIn_objects w v)) trivial
  | «variable» name =>
      obtain ⟨j, _, same⟩ := except_map_eq_ok.mp found
      cases same
      exact h

theorem operands_sound (h : w.Sound) {xs : List Operand} {is : List Handle}
    (found : w.operands xs = .ok (w', is)) : w'.Sound := by
  induction xs generalizing w is with
  | nil =>
      cases found
      exact h
  | cons x rest ih =>
      obtain ⟨⟨w₁, i⟩, first, found⟩ := except_bind_eq_ok.mp found
      obtain ⟨⟨w₂, js⟩, others, found⟩ := except_bind_eq_ok.mp found
      cases found
      exact ih (operand_sound h first) others

theorem withId_sound (h : w.Sound) (id : Operand) : (w.withId id).Sound := by
  refine onHeld_sound h ?_
  intro w' x h'
  refine after_sound h' ?_
  intro d _
  exact Turn.ofNew_sound (h'.insert trivial)

theorem fromClient_sound (h : w.Sound) (client : Option String) : (w.fromClient client).Sound := by
  cases client with
  | none => exact Turn.fail_sound h _
  | some name =>
      refine onClient_sound h ?_
      intro c _
      exact Turn.ofNew_sound (Sound.insert (h.of_objects rfl) trivial)

theorem assign_sound (h : w.Sound) (on : String) (field : ScalarField) (value : Operand) :
    (w.assign on field value).Sound := by
  refine onDraft_sound h ?_
  intro i d
  refine onHeld_sound h ?_
  intro w' x h'
  split
  · exact Turn.ofObject_sound (h'.replace i (o := .draft _) trivial) i []
  · exact Turn.fail_sound h' _

theorem add_sound (h : w.Sound) (on : String) (field : SetField) (value : Operand) :
    (w.add on field value).Sound := by
  refine onDraft_sound h ?_
  intro i d
  refine onHeld_sound h ?_
  intro w' x h'
  exact Turn.ofEdited_sound (h'.replace i (o := .draft _) trivial) i _

theorem editMembers_sound (h : w.Sound) (on : String) (field : SetField)
    (edits : List (Edit Value)) : (w.editMembers on field edits).Sound := by
  refine onDraft_sound h ?_
  intro i d
  have h' := h.of_objects (readInEdits_objects w edits)
  exact Turn.ofEdited_sound (h'.replace i (o := .draft _) trivial) i _

theorem build_sound (h : w.Sound) (on : String) : (w.build on).Sound := by
  refine onObject_sound h ?_
  intro i o _
  cases o with
  | draft d =>
      refine Turn.ofOutcome_sound h ?_
      intro c built
      exact Sound.insert (h.of_objects rfl) (Draft.accepted_of_build built).sound
  | settingsDraft kind a =>
      exact Turn.ofNew_sound (Sound.insert (h.of_objects rfl) trivial)
  | _ => exact Turn.fail_sound h _

theorem makeClient_sound (h : w.Sound) (f : Fields) (a b : Option Address) :
    (w.makeClient f a b).Sound := by
  simp only [makeClient]
  split
  · rename_i c a b made
    exact Turn.ofObject_sound (h.insert (o := .client _) (Client.sound_of_make made)) _ _
  · exact Turn.failLogged_sound h _ _
  · exact Turn.failLogged_sound h _ _

theorem construct_sound (h : w.Sound) (fields : List (String × Operand)) :
    (w.construct fields).Sound := by
  refine after_sound h ?_
  intro p held
  have h' := h.of_objects (heldNamed_objects held)
  simp only
  split
  · exact makeClient_sound h' _ _ _
  · exact Turn.fail_sound h' _

theorem replaceFields_sound (h : w.Sound) (on : String) (changes : List (String × Operand)) :
    (w.replaceFields on changes).Sound := by
  refine onClient_sound h ?_
  intro c _
  refine after_sound h ?_
  intro p held
  have h' := h.of_objects (heldNamed_objects held)
  simp only
  split
  · exact makeClient_sound h' _ _ _
  · exact Turn.fail_sound h' _

theorem setAttribute_sound (h : w.Sound) (on field : String) (value : Operand) :
    (w.setAttribute on field value).Sound := by
  refine onObject_sound h ?_
  intro i o _
  cases o with
  | client c => exact Turn.fail_sound h _
  | value x =>
      simp only
      split
      · exact Turn.fail_sound h _
      · exact Turn.fail_sound h _
  | snapshot f => exact Turn.fail_sound h _
  | row f =>
      refine onHeld_sound h ?_
      intro w' x h'
      exact Turn.ofResult_sound (h'.replace i (o := .row _) trivial) trivial
  | draft d => exact Turn.ofResult_sound h trivial
  | settingsDraft kind a => exact Turn.ofResult_sound h trivial
  | registry r => exact Turn.ofResult_sound h trivial
  | database t => exact Turn.ofResult_sound h trivial

theorem fieldCall_sound (h : w.Sound) (on : String) (edits : List (Edit Value)) :
    (w.fieldCall on edits).Sound := by
  refine onObject_sound h ?_
  intro i o _
  cases o with
  | client c => exact Turn.ofEdited_sound h i _
  | _ => exact Turn.fail_sound h _

theorem compareObjects_sound (h : w.Sound) (a b : Operand) : (w.compareObjects a b).Sound := by
  refine after_sound h ?_
  intro p first
  have h' := operand_sound h first
  refine after_sound h' ?_
  intro q second
  exact Turn.ofResult_sound (operand_sound h' second) trivial

theorem compareDigests_sound (h : w.Sound) (a b : Operand) : (w.compareDigests a b).Sound := by
  refine after_sound h ?_
  intro p first
  have h' := operand_sound h first
  refine after_sound h' ?_
  intro q second
  have h'' := operand_sound h' second
  refine after_sound h'' ?_
  intro x _
  refine after_sound h'' ?_
  intro y _
  exact Turn.ofResult_sound h'' trivial

theorem countDistinct_sound (h : w.Sound) (items : List Operand) :
    (w.countDistinct items).Sound := by
  refine after_sound h ?_
  intro p found
  have h' := operands_sound h found
  refine after_sound h' ?_
  intro n _
  exact Turn.ofResult_sound h' trivial

theorem print_sound (h : w.Sound) (on : String) : (w.print on).Sound := by
  refine onObject_sound h ?_
  intro i o _
  exact Turn.ofResult_sound h trivial

theorem token_sound (h : w.Sound) (kind : TokenKind) (name : Operand) :
    (w.token kind name).Sound := by
  refine onHeld_sound h ?_
  intro w' x h'
  refine after_sound h' ?_
  intro v _
  split
  · refine ⟨h'.insertValue v, ?_⟩
    intro d shown
    cases shown
    trivial
  · exact Turn.fail_sound h' _

theorem bag_sound (h : w.Sound) (kind : BagKind) (mapping : Operand) :
    (w.bag kind mapping).Sound := by
  refine onHeld_sound h ?_
  intro w' x h'
  refine after_sound h' ?_
  intro p copied
  exact Turn.ofNew_sound (Sound.insert (h'.of_objects (copiedOptions_objects copied)) trivial)

theorem bagDraft_sound (h : w.Sound) (kind : BagKind) : (w.bagDraft kind).Sound :=
  Turn.ofNew_sound (Sound.insert (h.of_objects rfl) trivial)

theorem withSettings_sound (h : w.Sound) (kind : BagKind) (mapping : Operand) :
    (w.withSettings kind mapping).Sound := by
  refine onHeld_sound h ?_
  intro w' x h'
  split
  · exact Turn.fail_sound h' _
  · refine after_sound h' ?_
    intro p copied
    exact Turn.ofNew_sound (Sound.insert (h'.of_objects (copiedOptions_objects copied)) trivial)

theorem setting_sound (h : w.Sound) (on : String) (name value : Operand) :
    (w.setting on name value).Sound := by
  refine onSettingsDraft_sound h ?_
  intro i kind a
  refine onHeld_sound h ?_
  intro w₁ n h₁
  refine onHeld_sound h₁ ?_
  intro w₂ x h₂
  simp only
  split
  · exact Turn.fail_sound h₂ _
  · exact Turn.ofObject_sound (h₂.withStore _) i []

theorem settings_sound (h : w.Sound) (on : String) (edits : List (Edit Value)) :
    (w.settings on edits).Sound := by
  refine onSettingsDraft_sound h ?_
  intro i kind a
  have h' := h.of_objects (readInEdits_objects w edits)
  exact Turn.ofEdited_sound (h'.withStore _) i _

theorem getSetting_sound (h : w.Sound) (on : String) (name default : Operand) :
    (w.getSetting on name default).Sound := by
  refine onBag_sound h ?_
  intro kind a
  refine onHeld_sound h ?_
  intro w₁ n h₁
  refine onHeld_sound h₁ ?_
  intro w₂ x h₂
  refine after_sound h₂ ?_
  intro v _
  exact Turn.ofNew_sound (Sound.insert (h₂.of_objects rfl) trivial)

theorem toDict_sound (h : w.Sound) (on : String) : (w.toDict on).Sound := by
  refine onBag_sound h ?_
  intro kind a
  exact Turn.ofNew_sound (Sound.insert (h.of_objects rfl) trivial)

theorem takeView_sound (h : w.Sound) (on : String) : (w.takeView on).Sound := by
  refine onBag_sound h ?_
  intro kind a
  exact Turn.ofNew_sound (Sound.insert (h.of_objects rfl) trivial)

theorem viewEdit_sound (h : w.Sound) (on : String) (edits : List (Edit Value)) :
    (w.viewEdit on edits).Sound := by
  refine onBag_sound h ?_
  intro kind a
  split
  · exact Turn.fail_sound h _
  · exact Turn.ofResult_sound h trivial

theorem clientBag_sound (h : w.Sound) (on : String) (kind : BagKind) :
    (w.clientBag on kind).Sound := by
  refine onClient_sound h ?_
  intro c _
  cases kind with
  | client => exact Turn.ofNew_sound (h.insert trivial)
  | token => exact Turn.ofNew_sound (h.insert trivial)

theorem plain_sound (h : w.Sound) (v : Operand) : (w.plain v).Sound := by
  refine after_sound h ?_
  intro p found
  exact Turn.ofObject_sound (operand_sound h found) _ []

theorem mutate_sound (h : w.Sound) (on : String) (path : List Value) (edits : List (Edit Value)) :
    (w.mutate on path edits).Sound := by
  refine onObject_sound h ?_
  intro i o _
  cases o with
  | value x => exact Turn.ofEdited_sound (h.of_objects (editAt_objects w x path edits)) i _
  | _ => exact Turn.fail_sound h _

/-- The new object is opaque here: laying out twelve fields must not be unfolded. -/
theorem snapshot_sound (h : w.Sound) (on : String) : (w.snapshot on).Sound := by
  refine onClient_sound h ?_
  intro c _
  refine after_sound h ?_
  intro s _
  have held := exported_objects w c s.named
  generalize w.exported c s.named = p at held ⊢
  obtain ⟨w₁, fields⟩ := p
  have kept := keepEntries_objects w₁ fields fields
  dsimp only
  generalize w₁.keepEntries fields fields = q at kept ⊢
  exact Turn.ofNew_sound (Sound.insert (h.of_objects (kept.trans held)) trivial)

theorem snapshotOf_sound (h : w.Sound) (fields : List (String × Operand)) :
    (w.snapshotOf fields).Sound := by
  refine after_sound h ?_
  intro given named
  have h' := h.of_objects (heldNamed_objects named)
  refine after_sound h' ?_
  intro s _
  have held := holdFields_objects given.1 s.named
  generalize given.1.holdFields s.named = p at held ⊢
  obtain ⟨w₁, fields⟩ := p
  have kept := keepEntries_objects w₁ given.2 fields
  dsimp only
  generalize w₁.keepEntries given.2 fields = q at kept ⊢
  exact Turn.ofNew_sound (Sound.insert (h'.of_objects (kept.trans held)) trivial)

theorem Sound.insertSnapshot (h : w.Sound) (s : Snapshot) : (w.insertSnapshot s).1.Sound := by
  have held := holdFields_objects w s.named
  simp only [Workspace.insertSnapshot]
  generalize w.holdFields s.named = p at held ⊢
  exact Sound.insert (h.of_objects held) trivial

theorem insertRead_sound (h : w.Sound) (s : Snapshot) : (w.insertRead s).Sound := by
  dsimp only [insertRead, freshOptions]
  refine Turn.ofNew_sound (Sound.insertSnapshot ?_ _)
  exact h.of_objects rfl

theorem readJson_sound (h : w.Sound) (text : List Char) : (w.readJson text).Sound := by
  refine after_sound h ?_
  intro s _
  exact insertRead_sound h s

theorem readJsonBytes_sound (h : w.Sound) (bytes : List UInt8) : (w.readJsonBytes bytes).Sound := by
  refine after_sound h ?_
  intro s _
  exact insertRead_sound h s

theorem writeJson_sound (h : w.Sound) (on : String) : (w.writeJson on).Sound := by
  refine onSnapshot_sound h ?_
  intro fields
  refine after_sound h ?_
  intro text _
  exact Turn.ofNew_sound (h.insertValue _)

theorem insertRestored_sound (h : w.Sound) (fields : HeldFields) {c : Client} (hc : c.Sound) :
    (w.insertRestored fields c).1.Sound := by
  refine Sound.insert (h.of_objects ?_) hc
  exact (restoredOptions_objects _ _ _).trans (restoredOptions_objects _ _ _)

theorem toClient_sound (h : w.Sound) (on : String) : (w.toClient on).Sound := by
  refine onSnapshot_sound h ?_
  intro fields
  simp only
  split
  · refine Turn.ofOutcome_sound h ?_
    intro c restored
    exact insertRestored_sound h fields (Snapshot.accepted_of_toClient restored).sound
  · refine after_sound h ?_
    intro r _
    refine Turn.ofOutcome_sound h ?_
    intro c restored
    exact insertRestored_sound h fields (Row.accepted_of_toClient restored).sound

theorem mutateField_sound (h : w.Sound) (on field : String) (path : List Value)
    (edits : List (Edit Value)) : (w.mutateField on field path edits).Sound := by
  refine onObject_sound h ?_
  intro i o _
  cases o with
  | snapshot fields =>
      simp only
      split
      · exact Turn.fail_sound h _
      · exact Turn.ofEdited_sound (h.of_objects (editAt_objects w _ path edits)) i _
  | row fields =>
      simp only
      split
      · exact Turn.fail_sound h _
      · exact Turn.ofEdited_sound (h.of_objects (editAt_objects w _ path edits)) i _
  | value x =>
      cases x with
      | bag kind a =>
          simp only
          split
          · exact Turn.ofEdited_sound (h.of_objects (editView_objects w a path edits)) i _
          · exact Turn.fail_sound h _
      | _ => exact Turn.fail_sound h _
  | _ => exact Turn.fail_sound h _

theorem row_sound (h : w.Sound) (on : String) : (w.row on).Sound := by
  refine onClient_sound h ?_
  intro c _
  refine after_sound h ?_
  intro r _
  have held := exported_objects w c r.columns
  generalize w.exported c r.columns = p at held ⊢
  exact Turn.ofNew_sound (Sound.insert (h.of_objects held) trivial)

theorem rowOf_sound (h : w.Sound) (columns : List (String × Operand)) :
    (w.rowOf columns).Sound := by
  refine after_sound h ?_
  intro given named
  have h' := h.of_objects (heldNamed_objects named)
  refine after_sound h' ?_
  intro r _
  have held := holdFields_objects given.1 r.columns
  generalize given.1.holdFields r.columns = p at held ⊢
  exact Turn.ofNew_sound (Sound.insert (h'.of_objects held) trivial)

theorem rowToClient_sound (h : w.Sound) (on : String) : (w.rowToClient on).Sound := by
  refine onRow_sound h ?_
  intro fields
  refine after_sound h ?_
  intro r _
  refine Turn.ofOutcome_sound h ?_
  intro c restored
  exact insertRestored_sound h fields (Row.accepted_of_toClient restored).sound

theorem settle_sound (h : w.Sound) (x : Outcome (Registry Listed)) (i : Option Handle) :
    (w.settle x i).Sound := by
  simp only [settle]
  split
  · exact Turn.ofObject_sound (h.replace _ (o := .registry _) trivial) _ _
  · exact Turn.ofObject_sound (h.insert (o := .registry _) trivial) _ _
  · exact Turn.failLogged_sound h _ _

theorem registry_sound (h : w.Sound) (clients : List String) : (w.registry clients).Sound := by
  refine after_sound h ?_
  intro listed _
  exact settle_sound h _ none

theorem save_sound (h : w.Sound) (on client : String) : (w.save on client).Sound := by
  refine onRegistry_sound h ?_
  intro i r
  refine after_sound h ?_
  intro c _
  exact settle_sound h _ (some i)

theorem showFound_sound (h : w.Sound) (found : Option Listed) : (w.showFound found).Sound := by
  cases found with
  | some c => exact Turn.ofObject_sound h c.handle []
  | none => exact Turn.ofResult_sound h trivial

theorem findById_sound (h : w.Sound) (on : String) (key : Operand) : (w.findById on key).Sound := by
  refine onRegistry_sound h ?_
  intro i r
  refine onHeld_sound h ?_
  intro w' x h'
  refine after_sound h' ?_
  intro found _
  exact showFound_sound h' found

theorem findByClientId_sound (h : w.Sound) (on : String) (key : Operand) :
    (w.findByClientId on key).Sound := by
  refine onRegistry_sound h ?_
  intro i r
  refine onHeld_sound h ?_
  intro w' x h'
  refine after_sound h' ?_
  intro found _
  exact showFound_sound h' found

theorem bindFound_sound (h : w.Sound) {found : List (WorkLine × Except Fault (Option Client))}
    (hf : ∀ p ∈ found, ∀ c, p.2 = .ok (some c) → c.Sound) : (w.bindFound found).Sound := by
  induction found generalizing w with
  | nil => exact h
  | cons p rest ih =>
      obtain ⟨line, answer⟩ := p
      rw [List.forall_mem_cons] at hf
      refine ih ?_ hf.2
      split
      · exact h
      · exact h
      · exact (h.insertClient (hf.1 _ rfl)).of_objects (bind_objects _ _ _)
      · exact h

theorem work_sound (h : w.Sound) (on : String) (configured : Bool) (lines : List WorkLine) :
    (w.work on configured lines).Sound := by
  refine onDatabase_sound h ?_
  intro i t
  have answered : ∀ c, .ok (some c) ∈ (unitOfWork ⟨configured, none⟩ t
      (w.workBody [] lines).2).answers → c.Sound := fun _ => sound_of_unitOfWork
  refine ⟨bindFound_sound ?_ ?_, ?_⟩
  · exact (h.of_objects (workBody_objects w [] lines)).replace i (o := .database _) trivial
  · intro p member c found
    exact answered c (found ▸ (List.of_mem_zip member).2)
  · intro d shown
    cases shown
    exact answered

end ClientRegistry.Workspace
