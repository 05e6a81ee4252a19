import ClientRegistry.Proofs.Workspace.Moves.Bags
import ClientRegistry.Proofs.Workspace.Moves.Clients
import ClientRegistry.Proofs.Workspace.Moves.Copies
import ClientRegistry.Proofs.Workspace.Moves.Registries
import ClientRegistry.Proofs.Workspace.Moves.Snapshots
import ClientRegistry.Proofs.Workspace.Reachable

/-! Every step is a sequence of moves, and so is every run. -/

namespace ClientRegistry.Workspace

open Holding (Rights)

variable {rights : Rights} {σ : Holding} {old w : Workspace}

/-- The bag that an action looks into. -/
def viewed? (w : Workspace) : Action → Option Address
  | .takeView on => match w.named? on with
    | .ok (.value (.bag _ a)) => some a
    | _ => none
  | .mutateField on field _ _ => match w.named? on with
    | .ok (.value (.bag _ a)) => if field = "settings" then some a else none
    | _ => none
  | _ => none

/-- The cell that an action edits in place; drafts are edited by name. -/
def edited? (w : Workspace) : Action → Option Address
  | .mutate on path _ => match w.named? on with
    | .ok (.value x) => w.target? x path
    | _ => none
  | .mutateField on field path _ => match w.named? on with
    | .ok o => w.fieldTarget? field path o
    | _ => none
  | _ => none

theorem perform_follows (h : old.Backed w σ) (action : Action)
    (looks : ∀ a, w.viewed? action = some a → rights.view a)
    (amends : ∀ a, w.edited? action = some a → rights.edit a) :
    (w.perform action).Follows rights old σ := by
  cases action with
  | withId id => exact withId_follows h id
  | fromClient client => exact fromClient_follows h client
  | assign on field value => exact assign_follows h on field value
  | add on field value => exact add_follows h on field value
  | edit on field edits => exact editMembers_follows h on field edits
  | build on => exact build_follows h on
  | look on => exact onObject_follows h fun i _ _ _ _ => Turn.ofObject_follows h i []
  | construct fields => exact construct_follows h fields
  | replace on changes => exact replaceFields_follows h on changes
  | setAttribute on field value => exact setAttribute_follows h on field value
  | fieldCall on edits => exact fieldCall_follows h on edits
  | compare a b => exact compareObjects_follows h a b
  | compareDigests a b => exact compareDigests_follows h a b
  | distinct items => exact countDistinct_follows h items
  | print on => exact print_follows h on
  | pickle on =>
      refine onObject_follows h fun i o _ present _ => ?_
      obtain ⟨τ, leads, backed⟩ := h.pickleOf (List.mem_of_getElem? present)
      exact (Turn.ofNew_follows backed).after leads
  | deepCopy on =>
      refine onObject_follows h fun i o _ present _ => ?_
      obtain ⟨τ, leads, backed⟩ := h.deepCopyOf i (List.mem_of_getElem? present)
      exact (Turn.ofNew_follows backed).after leads
  | bag kind mapping => exact bag_follows h kind mapping
  | bagDraft kind => exact bagDraft_follows h kind
  | withSettings kind mapping => exact withSettings_follows h kind mapping
  | setting on name value => exact setting_follows h on name value
  | settings on edits => exact settings_follows h on edits
  | getSetting on name default => exact getSetting_follows h on name default
  | toDict on => exact toDict_follows h on
  | view on => exact viewEdit_follows h on []
  | takeView on =>
      refine takeView_follows h on fun kind a named => looks a ?_
      simp only [viewed?, named]
  | viewEdit on edits => exact viewEdit_follows h on edits
  | clientBag on kind => exact clientBag_follows h on kind
  | value v => exact plain_follows h v
  | mutate on path _ =>
      refine mutate_follows h on path _ fun x a named target => amends a ?_
      simp only [edited?, named, target]
  | snapshot on => exact snapshot_follows h on
  | snapshotOf fields => exact snapshotOf_follows h fields
  | readJson text => exact readJson_follows h text
  | readJsonBytes bytes => exact readJsonBytes_follows h bytes
  | writeJson on => exact writeJson_follows h on
  | toClient on => exact toClient_follows h on
  | mutateField on field path _ =>
      refine mutateField_follows h on field path _ (fun kind a named settings => looks a ?_)
        fun o a named target => amends a ?_
      · simp only [viewed?, named, settings, if_true]
      · simp only [edited?, named, target]
  | registry clients => exact registry_follows h clients
  | save on client => exact save_follows h on client
  | findById on key => exact findById_follows h on key
  | findByClientId on key => exact findByClientId_follows h on key
  | row on => exact row_follows h on
  | rowOf columns => exact rowOf_follows h columns
  | rowToClient on => exact rowToClient_follows h on
  | database =>
      exact Turn.ofNew_follows (h.insert (o := .database []) (fun _ member => by cases member) rfl)
  | work on configured lines => exact work_follows h on configured lines
  | token kind name => exact token_follows h kind name

@[simp] theorem Turn.named_objects (t : Turn) (name : Option String) :
    (t.named name).objects = t.workspace.objects := by
  simp only [Turn.named]
  split <;> rfl

@[simp] theorem Turn.named_store (t : Turn) (name : Option String) :
    (t.named name).store = t.workspace.store := by
  simp only [Turn.named]
  split <;> rfl

/-- Giving a name takes nothing in hand. -/
@[simp] theorem Turn.named_holding (t : Turn) (name : Option String) :
    (t.named name).holding = t.workspace.holding := by
  simp only [holding, named_objects, named_store]

/-- The bags that the steps of a program look into. -/
def viewings (w : Workspace) : List Step → List Address
  | [] => []
  | step :: rest =>
    (w.viewed? step.action).toList ++ ((w.perform step.action).named step.name).viewings rest

/-- The cells that the steps edit in place. -/
def editings (w : Workspace) : List Step → List Address
  | [] => []
  | step :: rest =>
    (w.edited? step.action).toList ++ ((w.perform step.action).named step.name).editings rest

theorem reached_follows (grounded : w.holding.Grounded) {steps : List Step}
    (looks : ∀ a ∈ w.viewings steps, rights.view a)
    (amends : ∀ a ∈ w.editings steps, rights.edit a) :
    Holding.Moves rights w.holding (w.reached steps).holding ∧ w.Lasts (w.reached steps) := by
  induction steps generalizing w with
  | nil => exact ⟨.refl, .refl w⟩
  | cons step rest ih =>
      simp only [viewings, List.mem_append] at looks
      simp only [editings, List.mem_append] at amends
      have first : (w.perform step.action).Follows rights w w.holding :=
        perform_follows (.start grounded) step.action
          (fun a looked => looks a (.inl (by simp [looked])))
          fun a edited => amends a (.inl (by simp [edited]))
      have grounded' : ((w.perform step.action).named step.name).holding.Grounded := by
        rw [Turn.named_holding]
        exact grounded.moves first.moves
      obtain ⟨moves, lasts⟩ := ih grounded' (fun a later => looks a (.inr later))
        fun a later => amends a (.inr later)
      rw [Turn.named_holding] at moves
      refine ⟨first.moves.trans moves, Lasts.trans (fun i o present steady => ?_) lasts⟩
      rw [Turn.named_objects]
      exact first.lasts i o present steady

/-- The bags that the steps look into, and the cells that they edit. -/
def rightsOf (w : Workspace) (steps : List Step) : Rights :=
  ⟨fun a => a ∈ w.viewings steps, fun a => a ∈ w.editings steps⟩

theorem reached_moves (grounded : w.holding.Grounded) (steps : List Step) :
    Holding.Moves (w.rightsOf steps) w.holding (w.reached steps).holding ∧
      w.Lasts (w.reached steps) :=
  reached_follows grounded (fun _ looked => looked) fun _ edited => edited

theorem empty_grounded : empty.holding.Grounded where
  ranked := ⟨fun _ => 0, fun a b mentions => absurd mentions.lt (Nat.not_lt_zero a)⟩
  held x a := by
    rintro ⟨o, present, -⟩
    cases present
  drafts a := by
    rintro ⟨o, present, -⟩
    cases present
  alone a b := by
    rintro ⟨o, present, -⟩
    cases present

/-- No steps make a cell hold itself, or share a draft's cell. -/
theorem reached_grounded (grounded : w.holding.Grounded) (steps : List Step) :
    (w.reached steps).holding.Grounded := by
  obtain ⟨moves, -⟩ : Holding.Moves .all _ _ ∧ _ :=
    reached_follows grounded (fun _ _ => trivial) fun _ _ => trivial
  exact grounded.moves moves

end ClientRegistry.Workspace
