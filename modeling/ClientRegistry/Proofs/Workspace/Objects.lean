import ClientRegistry.Proofs.Outcome
import ClientRegistry.Workspace.Run

/-! Which operations of a workspace leave its objects alone. Reading values in, copying options
and editing cells change the store and the next mark only. -/

namespace ClientRegistry.Workspace

variable {w w' : Workspace}

@[simp] theorem readIn_objects (w : Workspace) (v : Value) : (w.readIn v).1.objects = w.objects :=
  rfl

@[simp] theorem bind_objects (w : Workspace) (name : String) (h : Handle) :
    (w.bind name h).objects = w.objects := rfl

@[simp] theorem insert_objects (w : Workspace) (o : Object) :
    (w.insert o).1.objects = w.objects ++ [o] := rfl

@[simp] theorem replace_objects (w : Workspace) (h : Handle) (o : Object) :
    (w.replace h o).objects = w.objects.set h o := rfl

@[simp] theorem holdClient_objects (w : Workspace) (c : Client) :
    (w.holdClient c).1.objects = w.objects := rfl

theorem held_objects {x : Operand} {y : Shared} (h : w.held x = .ok (w', y)) :
    w'.objects = w.objects := by
  cases x with
  | given v =>
      cases h
      rfl
  | «variable» name =>
      simp only [held] at h
      split at h <;> cases h
      rfl

theorem heldNamed_objects {xs : List (String × Operand)} {ys : HeldFields}
    (h : w.heldNamed xs = .ok (w', ys)) : w'.objects = w.objects := by
  induction xs generalizing w ys with
  | nil =>
      cases h
      rfl
  | cons x rest ih =>
      obtain ⟨⟨w₁, y⟩, held, h⟩ := except_bind_eq_ok.mp h
      obtain ⟨⟨w₂, zs⟩, others, h⟩ := except_bind_eq_ok.mp h
      cases h
      exact (ih others).trans (held_objects held)

@[simp] theorem readInAll_objects (w : Workspace) (vs : List Value) :
    (w.readInAll vs).1.objects = w.objects := by
  induction vs generalizing w with
  | nil => rfl
  | cons v rest ih => exact ih (w.readIn v).1

@[simp] theorem readInEdits_objects (w : Workspace) (edits : List (Edit Value)) :
    (w.readInEdits edits).1.objects = w.objects := by
  induction edits generalizing w with
  | nil => rfl
  | cons e rest ih =>
      cases e with
      | stop reason => exact ih w
      | call method args => exact (ih _).trans (readInAll_objects w args)

@[simp] theorem holdFields_objects (w : Workspace) (fields : List (String × Value)) :
    (w.holdFields fields).1.objects = w.objects := by
  induction fields generalizing w with
  | nil => rfl
  | cons f rest ih => exact ih { w with store := (w.store.alloc f.2).1 }

theorem copiedOptions_objects {mapping : Shared} {a : Address}
    (h : w.copiedOptions mapping = .ok (w', a)) : w'.objects = w.objects := by
  obtain ⟨es, _, made⟩ := except_map_eq_ok.mp h
  cases made
  rfl

@[simp] theorem restoredOptions_objects (w : Workspace) (fields : HeldFields) (name : String) :
    (w.restoredOptions fields name).1.objects = w.objects := by
  simp only [restoredOptions]
  split
  · rename_i p copied
    exact copiedOptions_objects copied
  · rfl

@[simp] theorem editAt_objects (w : Workspace) (x : Shared) (path : List Value)
    (edits : List (Edit Value)) : (w.editAt x path edits).1.objects = w.objects := by
  simp only [editAt]
  split
  · exact readInEdits_objects w edits
  · exact readInEdits_objects w edits

@[simp] theorem editView_objects (w : Workspace) (a : Address) (path : List Value)
    (edits : List (Edit Value)) : (w.editView a path edits).1.objects = w.objects := by
  cases path with
  | nil => rfl
  | cons key rest => exact editAt_objects w _ _ edits

@[simp] theorem keepField_objects (given : HeldFields) (name : String)
    (p : Workspace × HeldFields) : (keepField given name p).1.objects = p.1.objects := by
  obtain ⟨w, fields⟩ := p
  simp only [keepField]
  split
  · split <;> rfl
  · rfl

@[simp] theorem keepEntries_objects (w : Workspace) (given fields : HeldFields) :
    (w.keepEntries given fields).1.objects = w.objects := by
  simp only [keepEntries, keepField_objects]

@[simp] theorem exported_objects (w : Workspace) (c : HeldClient)
    (named : List (String × Value)) : (w.exported c named).1.objects = w.objects :=
  holdFields_objects w named

theorem workStep_objects (w : Workspace) (before : List WorkLine) (action : WorkAction) :
    (w.workStep before action).1.objects = w.objects := by
  cases action with
  | save client => rfl
  | raise reason => rfl
  | findById key =>
      simp only [workStep]
      split
      · exact held_objects ‹_›
      · rfl
  | findByClientId key =>
      simp only [workStep]
      split
      · exact held_objects ‹_›
      · rfl
  | putRow columns =>
      simp only [workStep]
      split
      · split
        · exact heldNamed_objects ‹_›
        · exact heldNamed_objects ‹_›
      · rfl

@[simp] theorem workBody_objects (w : Workspace) (before lines : List WorkLine) :
    (w.workBody before lines).1.objects = w.objects := by
  induction lines generalizing w before with
  | nil => rfl
  | cons line rest ih => exact (ih _ _).trans (workStep_objects w before line.action)

end ClientRegistry.Workspace
