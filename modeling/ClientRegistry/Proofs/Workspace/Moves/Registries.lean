import ClientRegistry.Proofs.Workspace.Options

/-! Moves of the steps on registries and on the database, which hold no values. -/

namespace ClientRegistry.Workspace

open Holding (Leads Rights)

variable {rights : Rights} {σ : Holding} {old w : Workspace}

theorem settle_follows (h : old.Backed w σ) (x : Outcome (Registry Listed)) {i : Option Handle}
    (loose : ∀ j ∈ i, old.Loose j) : (w.settle x i).Follows rights old σ := by
  simp only [settle]
  split
  next r j _ =>
    have backed : old.Backed (w.replace j (.registry r)) σ :=
      h.replace (loose j rfl) (fun _ member => by cases member) rfl
    exact Turn.ofObject_follows backed j _
  next r _ =>
    have backed : old.Backed (w.insert (.registry r)).1 σ :=
      h.insert (fun _ member => by cases member) rfl
    exact Turn.ofObject_follows backed _ _
  · exact Turn.failLogged_follows h _ _

theorem registry_follows (h : old.Backed w σ) (clients : List String) :
    (w.registry clients).Follows rights old σ :=
  after_follows h fun _ _ => settle_follows h _ fun _ none => by cases none

theorem save_follows (h : old.Backed w σ) (on client : String) :
    (w.save on client).Follows rights old σ := by
  refine onRegistry_follows h fun i r loose => after_follows h fun c _ => settle_follows h _ ?_
  rintro j ⟨⟩
  exact loose

theorem showFound_follows (h : old.Backed w σ) (found : Option Listed) :
    (w.showFound found).Follows rights old σ := by
  cases found with
  | some c => exact Turn.ofObject_follows h c.handle []
  | none => exact Turn.ofResult_follows h _

theorem findById_follows (h : old.Backed w σ) (on : String) (key : Operand) :
    (w.findById on key).Follows rights old σ := by
  refine onRegistry_follows h fun i r _ => onHeld_follows h fun w' x τ _ h' _ => ?_
  exact after_follows h' fun found _ => showFound_follows h' found

theorem findByClientId_follows (h : old.Backed w σ) (on : String) (key : Operand) :
    (w.findByClientId on key).Follows rights old σ := by
  refine onRegistry_follows h fun i r _ => onHeld_follows h fun w' x τ _ h' _ => ?_
  exact after_follows h' fun found _ => showFound_follows h' found

theorem Backed.workStep (h : old.Backed w σ) (before : List WorkLine) (action : WorkAction) :
    ∃ τ, Leads rights σ τ ∧ old.Backed (w.workStep before action).1 τ := by
  cases action with
  | save client => exact ⟨σ, .refl σ, h⟩
  | raise reason => exact ⟨σ, .refl σ, h⟩
  | findById key =>
      simp only [Workspace.workStep]
      split
      next found =>
        obtain ⟨τ, leads, backed, -⟩ := h.ofHeld found
        exact ⟨τ, leads, backed⟩
      · exact ⟨σ, .refl σ, h⟩
  | findByClientId key =>
      simp only [Workspace.workStep]
      split
      next found =>
        obtain ⟨τ, leads, backed, -⟩ := h.ofHeld found
        exact ⟨τ, leads, backed⟩
      · exact ⟨σ, .refl σ, h⟩
  | putRow columns =>
      simp only [Workspace.workStep]
      split
      next found =>
        obtain ⟨τ, leads, backed, -⟩ := h.ofHeldNamed found
        split
        · exact ⟨τ, leads, backed⟩
        · exact ⟨τ, leads, backed⟩
      · exact ⟨σ, .refl σ, h⟩

theorem Backed.workBody (h : old.Backed w σ) (before lines : List WorkLine) :
    ∃ τ, Leads rights σ τ ∧ old.Backed (w.workBody before lines).1 τ := by
  induction lines generalizing w σ before with
  | nil => exact ⟨σ, .refl σ, h⟩
  | cons line rest ih =>
      obtain ⟨τ, leads, backed⟩ := h.workStep before line.action
      obtain ⟨υ, leads', backed'⟩ := ih backed (before ++ [line])
      exact ⟨υ, leads.trans leads', backed'⟩

theorem Backed.bindFound (h : old.Backed w σ)
    (found : List (WorkLine × Except Fault (Option Client))) :
    ∃ τ, Leads rights σ τ ∧ old.Backed (w.bindFound found) τ := by
  induction found generalizing w σ with
  | nil => exact ⟨σ, .refl σ, h⟩
  | cons p rest ih =>
      obtain ⟨line, answer⟩ := p
      simp only [Workspace.bindFound]
      split
      · exact ih h
      · exact ih h
      next c _ _ _ =>
        obtain ⟨τ, leads, backed⟩ := h.insertClient c
        obtain ⟨υ, leads', backed'⟩ := ih (backed.of_same (bind_objects _ _ _) rfl)
        exact ⟨υ, leads.trans leads', backed'⟩
      · exact ih h

theorem work_follows (h : old.Backed w σ) (on : String) (configured : Bool)
    (lines : List WorkLine) : (w.work on configured lines).Follows rights old σ := by
  refine onDatabase_follows h fun i t loose => ?_
  obtain ⟨τ, leads, h₁⟩ := h.workBody [] lines
  obtain ⟨υ, leads', h₂⟩ :=
    (h₁.replace (o := .database _) loose (fun _ member => by cases member) rfl).bindFound _
  exact (Turn.follows_of_backed h₂).after (leads.trans leads')

end ClientRegistry.Workspace
