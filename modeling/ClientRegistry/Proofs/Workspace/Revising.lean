import ClientRegistry.Proofs.Client.Deriving
import ClientRegistry.Proofs.Workspace.Extended
import ClientRegistry.Proofs.Workspace.Looking

/-! Edits of a draft in a workspace. A step that edits a draft puts new cells behind the old ones
and an edited draft in place of the draft; all other objects, and all that the draft holds in its
other fields, are as before. -/

namespace ClientRegistry.Workspace

variable {w w' w'' : Workspace} {on : String} {d d' : HeldDraft} {field : Field}
  {kept : Field → Prop} {i j : Handle}

/-- What a draft holds in a field: the settings may be shared with others, all else is its own. -/
def HeldDraft.part (d : HeldDraft) : Field → Shared
  | .scalar .clientSettings => d.clientSettings
  | .scalar .tokenSettings => d.tokenSettings
  | field => .leaf (d.draft.value field)

/-- The action edits the field of the draft of the name: it sets it, adds to it, or edits it in
bulk. -/
inductive Action.Edits (on : String) : Field → Action → Prop
  | assign (field : ScalarField) (value : Operand) :
      Edits on (.scalar field) (.assign on field value)
  | add (field : SetField) (value : Operand) : Edits on (.set field) (.add on field value)
  | edit (field : SetField) (edits : List (Edit Value)) :
      Edits on (.set field) (.edit on field edits)

theorem HeldDraft.read_part (s : Store) (d : HeldDraft) (field : Field) :
    s.read (d.part field) = (d.current s).value field := by
  have own : ∀ v, s.read (.leaf v) = v := Store.readWithin_leaf s s.length
  cases field with
  | scalar field =>
      cases field with
      | clientSettings => rfl
      | tokenSettings => rfl
      | _ => exact own _
  | set field => cases field <;> exact own _

/-- A call on a draft leaves what the draft holds elsewhere, if it leaves the shared settings. -/
theorem HeldDraft.part_of_apply {s : Store} (call : Draft.Call) (other : call.field ≠ field)
    (own : d'.draft = ((d.current s).apply call).1)
    (client : field = .scalar .clientSettings → d'.clientSettings = d.clientSettings)
    (token : field = .scalar .tokenSettings → d'.tokenSettings = d.tokenSettings) :
    d'.part field = d.part field := by
  have same : d'.draft.value field = (d.current s).value field :=
    own ▸ Draft.value_apply_of_ne other
  cases field with
  | scalar field =>
      cases field with
      | clientSettings => exact client rfl
      | tokenSettings => exact token rfl
      | _ => exact congrArg Shared.leaf same
  | set field => cases field <;> exact congrArg Shared.leaf same

/-- Cells and objects are as they were, but for one object, which if it is a draft stays one and
holds what it did in the fields that are kept. -/
structure Revises (kept : Field → Prop) (i : Handle) (w w' : Workspace) : Prop where
  store : w.store.Extends w'.store
  others : ∀ j, j ≠ i → ∀ o, w.objects[j]? = some o → w'.objects[j]? = some o
  draft : ∀ d, w.objects[i]? = some (.draft d) →
    ∃ d', w'.objects[i]? = some (.draft d') ∧ ∀ field, kept field → d'.part field = d.part field

theorem Extends.revises (h : w.Extends w') : Revises kept i w w' where
  store := h.store
  others j _ o := h.objects j o
  draft d present := ⟨d, h.objects i _ present, fun _ _ => rfl⟩

namespace Revises

theorem refl (w : Workspace) : Revises kept i w w := (Extends.refl w).revises

theorem trans (first : Revises kept i w w') (second : Revises kept i w' w'') :
    Revises kept i w w'' where
  store := first.store.trans second.store
  others j other o present := second.others j other o (first.others j other o present)
  draft d present := by
    obtain ⟨d', present', same⟩ := first.draft d present
    obtain ⟨d'', present'', same'⟩ := second.draft d' present'
    exact ⟨d'', present'', fun field keep => (same' field keep).trans (same field keep)⟩

/-- The draft is put in place of another one that holds the same in the fields that are kept. -/
theorem replace (h : w.Extends w') (present : w.objects[i]? = some (.draft d))
    (same : ∀ field, kept field → d'.part field = d.part field) :
    Revises kept i w (w'.replace i (.draft d')) where
  store := h.store
  others j other o there := by
    rw [replace_objects, List.getElem?_set_ne (Ne.symm other)]
    exact h.objects j o there
  draft e there := by
    cases present.symm.trans there
    have inside : i < w'.objects.length :=
      (List.getElem?_eq_some_iff.mp (h.objects i _ present)).1
    refine ⟨d', ?_, same⟩
    rw [replace_objects, List.getElem?_set_self inside]

theorem unaltered (h : Revises kept i w w') (grounded : w.holding.Grounded) (other : j ≠ i)
    (inside : j < w.objects.length) : w.Unaltered w' j := by
  have present : w.objects[j]? = some w.objects[j] := List.getElem?_eq_getElem inside
  have parts := parts_lt grounded (List.mem_of_getElem? present)
  refine ⟨w.objects[j], present, h.others j other _ present, shown_congr ?_ ?_⟩
  · exact fun x member => h.store.read grounded.ranked (parts x member)
  · exact fun a member => h.store.optionsAt grounded.ranked (parts _ member a rfl)

end Revises

/-- The turn revises the workspace and no name, and has no object but the revised one. -/
structure Turn.Revises (kept : Field → Prop) (i : Handle) (w : Workspace) (t : Turn) : Prop where
  workspace : Workspace.Revises kept i w t.workspace
  names : t.workspace.names = w.names
  object : ∀ j, t.object = some j → j = i

namespace Turn

theorem fail_revises (h : Workspace.Revises kept i w w') (names : w'.names = w.names) (e : Fault) :
    (fail w' e).Revises kept i w :=
  ⟨h, names, fun _ none => by cases none⟩

theorem ofObject_revises (h : Workspace.Revises kept i w w') (names : w'.names = w.names)
    (log : List LogRecord) : (ofObject w' i log).Revises kept i w := by
  refine ⟨(ofObject_workspace w' i log).symm ▸ h, (ofObject_workspace w' i log).symm ▸ names, ?_⟩
  intro j object
  simp only [ofObject] at object
  split at object <;> cases object
  rfl

theorem ofEdited_revises (h : Workspace.Revises kept i w w') (names : w'.names = w.names)
    (fault : Option Fault) : (ofEdited w' i fault).Revises kept i w := by
  cases fault with
  | none => exact ofObject_revises h names []
  | some e => exact fail_revises h names e

/-- The name of the draft stands for it after the turn, whatever name the turn gives. -/
theorem Revises.named {t : Turn} (h : t.Revises kept i w) (found : w.handle? on = .ok i)
    (name : Option String) : (t.named name).handle? on = .ok i := by
  have found' : t.workspace.handle? on = .ok i := by simpa only [handle?, h.names] using found
  simp only [Turn.named]
  split
  next j n _ object =>
    cases h.object j object
    by_cases same : n = on
    · simp [handle?, bind, same]
    · have skipped : (t.workspace.bind n i).handle? on = t.workspace.handle? on := by
        simp [handle?, bind, same]
      exact skipped.trans found'
  · exact found'

end Turn

/-- What is held is laid out in new cells, or was there. -/
theorem held_extends {operand : Operand} {x : Shared} (held : w.held operand = .ok (w', x)) :
    w.Extends w' ∧ w'.names = w.names := by
  cases operand with
  | given v =>
      cases held
      exact ⟨.of_store (readIn_lays w v).1.extends rfl, rfl⟩
  | «variable» name =>
      simp only [Workspace.held] at held
      split at held <;> cases held
      exact ⟨.refl w, rfl⟩

theorem onDraft_of_handle (found : w.handle? on = .ok i) (present : w.objects[i]? = some (.draft d))
    (f : Handle → HeldDraft → Turn) : w.onDraft on f = f i d :=
  onObject_of_handle found present _

/-- Assigned settings take the place of settings, and nothing else does. -/
theorem HeldDraft.assigned_parts (d : HeldDraft) (draft : Draft) (g : ScalarField) (x : Shared) :
    (d.assigned draft g x).draft = draft ∧
      (g ≠ .clientSettings → (d.assigned draft g x).clientSettings = d.clientSettings) ∧
      (g ≠ .tokenSettings → (d.assigned draft g x).tokenSettings = d.tokenSettings) := by
  cases g <;>
    exact ⟨rfl, fun other => by first | rfl | exact absurd rfl other,
      fun other => by first | rfl | exact absurd rfl other⟩

theorem assign_revises (found : w.handle? on = .ok i) (present : w.objects[i]? = some (.draft d))
    {g : ScalarField} (edited : ¬kept (.scalar g)) (value : Operand) :
    (w.assign on g value).Revises kept i w := by
  rw [assign, onDraft_of_handle found present]
  simp only [onHeld, after]
  split
  next p held =>
    obtain ⟨w', x⟩ := p
    obtain ⟨grown, names⟩ := held_extends held
    split
    next draft applied =>
      obtain ⟨own, client, token⟩ := d.assigned_parts draft g x
      refine Turn.ofObject_revises (.replace grown present fun field keep => ?_) names []
      have other : Field.scalar g ≠ field := fun same => edited (same ▸ keep)
      refine HeldDraft.part_of_apply (.assign g (w'.store.read x)) other
        (own.trans (congrArg Prod.fst applied).symm) ?_ ?_
      · rintro rfl
        exact client fun same => other (congrArg Field.scalar same)
      · rintro rfl
        exact token fun same => other (congrArg Field.scalar same)
    · exact Turn.fail_revises grown.revises names _
  · exact Turn.fail_revises (.refl w) rfl _

theorem add_revises (found : w.handle? on = .ok i) (present : w.objects[i]? = some (.draft d))
    {g : SetField} (edited : ¬kept (.set g)) (value : Operand) :
    (w.add on g value).Revises kept i w := by
  rw [add, onDraft_of_handle found present]
  simp only [onHeld, after]
  split
  next p held =>
    obtain ⟨w', x⟩ := p
    obtain ⟨grown, names⟩ := held_extends held
    refine Turn.ofEdited_revises (.replace grown present fun field keep => ?_) names _
    have other : Field.set g ≠ field := fun same => edited (same ▸ keep)
    exact HeldDraft.part_of_apply (.add g (w'.store.read x)) other rfl (fun _ => rfl)
      fun _ => rfl
  · exact Turn.fail_revises (.refl w) rfl _

theorem editMembers_revises (found : w.handle? on = .ok i)
    (present : w.objects[i]? = some (.draft d)) {g : SetField} (edited : ¬kept (.set g))
    (edits : List (Edit Value)) : (w.editMembers on g edits).Revises kept i w := by
  rw [editMembers, onDraft_of_handle found present]
  have grown : w.Extends (w.readInEdits edits).1 :=
    .of_store (readInEdits_lays w edits).1.extends (readInEdits_objects w edits)
  refine Turn.ofEdited_revises (.replace grown present fun field keep => ?_)
    (readInEdits_names w edits) _
  have other : Field.set g ≠ field := fun same => edited (same ▸ keep)
  exact HeldDraft.part_of_apply (.edit g _) other rfl (fun _ => rfl) fun _ => rfl

/-- An edit of a draft revises it, but for the field that it edits. -/
theorem perform_revises (found : w.handle? on = .ok i) (present : w.objects[i]? = some (.draft d))
    {action : Action} (edits : action.Edits on field) (edited : ¬kept field) :
    (w.perform action).Revises kept i w := by
  cases edits with
  | assign g value => exact assign_revises found present edited value
  | add g value => exact add_revises found present edited value
  | edit g edits => exact editMembers_revises found present edited edits

/-- So do the edits of a draft one after the other. -/
theorem reached_revises (found : w.handle? on = .ok i) (present : w.objects[i]? = some (.draft d))
    {steps : List Step} (edits : ∀ s ∈ steps, ∃ field, s.action.Edits on field ∧ ¬kept field) :
    Revises kept i w (w.reached steps) ∧ (w.reached steps).handle? on = .ok i := by
  induction steps generalizing w d with
  | nil => exact ⟨.refl w, found⟩
  | cons step rest ih =>
      rw [List.forall_mem_cons] at edits
      obtain ⟨⟨field, edit, edited⟩, later⟩ := edits
      have stepped := perform_revises found present edit edited
      have named := stepped.named found step.name
      have first : Revises kept i w ((w.perform step.action).named step.name) := by
        have revised := stepped.workspace
        refine ⟨?_, ?_, ?_⟩
        · simpa only [Turn.named_store] using revised.store
        · simpa only [Turn.named_objects] using revised.others
        · simpa only [Turn.named_objects] using revised.draft
      obtain ⟨d', present', -⟩ := first.draft d present
      obtain ⟨rest, found'⟩ := ih named present' later
      exact ⟨first.trans rest, found'⟩

end ClientRegistry.Workspace
