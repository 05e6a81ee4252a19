import ClientRegistry.Proofs.Workspace.Options

/-! Moves of the steps on snapshots and rows, and of edits by way of the view of a bag. -/

namespace ClientRegistry.Workspace

open Holding (Leads Rights)

variable {rights : Rights} {σ : Holding} {old w : Workspace}

/-- The new object is opaque here: laying out twelve fields must not be unfolded. -/
theorem snapshot_follows (h : old.Backed w σ) (on : String) :
    (w.snapshot on).Follows rights old σ := by
  refine onClient_follows h fun c clientSettings tokenSettings => after_follows h fun s _ => ?_
  obtain ⟨τ, leads, h', holds⟩ := h.exported clientSettings tokenSettings s.named
  generalize w.exported c s.named = p at h' holds ⊢
  obtain ⟨w₁, fields⟩ := p
  obtain ⟨υ, leads', h'', kept⟩ := h'.keepEntries holds holds
  dsimp only at h'' kept ⊢
  generalize w₁.keepEntries fields fields = q at h'' kept ⊢
  refine (Turn.ofNew_follows (h''.insert ?_ rfl)).after (leads.trans leads')
  exact List.forall_mem_map.mpr kept

theorem snapshotOf_follows (h : old.Backed w σ) (fields : List (String × Operand)) :
    (w.snapshotOf fields).Follows rights old σ := by
  refine after_follows h fun given named => ?_
  obtain ⟨τ, leads, h₁, holds⟩ := h.ofHeldNamed named
  refine Turn.Follows.after (after_follows h₁ fun s _ => ?_) leads
  obtain ⟨υ, leads', h₂, laid⟩ := h₁.holdFields s.named
  generalize given.1.holdFields s.named = p at h₂ laid ⊢
  obtain ⟨w₁, fields⟩ := p
  obtain ⟨ρ, leads'', h₃, kept⟩ :=
    h₂.keepEntries (fun f member => leads'.holds (holds f member)) laid
  dsimp only at h₃ kept ⊢
  generalize w₁.keepEntries given.2 fields = q at h₃ kept ⊢
  refine (Turn.ofNew_follows (h₃.insert ?_ rfl)).after (leads'.trans leads'')
  exact List.forall_mem_map.mpr kept

theorem insertRead_follows (h : old.Backed w σ) (s : Snapshot) :
    (w.insertRead s).Follows rights old σ := by
  dsimp only [insertRead, freshOptions, insertSnapshot]
  generalize Snapshot.named _ = named
  have h' : old.Backed { w with next := (Value.freshenEntries (Value.freshenEntries w.next
      s.clientSettings).2 s.tokenSettings).2 } σ := h.of_same rfl rfl
  obtain ⟨τ, leads, backed, laid⟩ := h'.holdFields named
  generalize Workspace.holdFields _ named = p at backed laid ⊢
  refine (Turn.ofNew_follows (backed.insert ?_ rfl)).after leads
  exact List.forall_mem_map.mpr laid

theorem readJson_follows (h : old.Backed w σ) (text : List Char) :
    (w.readJson text).Follows rights old σ :=
  after_follows h fun s _ => insertRead_follows h s

theorem readJsonBytes_follows (h : old.Backed w σ) (bytes : List UInt8) :
    (w.readJsonBytes bytes).Follows rights old σ :=
  after_follows h fun s _ => insertRead_follows h s

theorem writeJson_follows (h : old.Backed w σ) (on : String) :
    (w.writeJson on).Follows rights old σ := by
  refine onSnapshot_follows h fun fields _ => after_follows h fun cs _ => ?_
  obtain ⟨τ, leads, backed⟩ := h.insertValue (.text (String.ofList cs))
  exact (Turn.ofNew_follows backed).after leads

theorem Backed.insertRestored (h : old.Backed w σ) {fields : HeldFields}
    (holds : ∀ f ∈ fields, σ.Holds f.2) (c : Client) :
    ∃ τ, Leads rights σ τ ∧ old.Backed (w.insertRestored fields c).1 τ ∧
      SealsNew τ (w.insertRestored fields c) := by
  generalize made : w.restoredOptions fields "client_settings" = p
  obtain ⟨w₁, a⟩ := p
  obtain ⟨first, h₁⟩ := h.restoredOptions holds made
  have holds₁ := fun f member => (first .all).leads.holds (holds f member)
  generalize made' : w₁.restoredOptions fields "token_settings" = q
  obtain ⟨w₂, b⟩ := q
  obtain ⟨second, -⟩ := h₁.restoredOptions holds₁ made'
  have objects : w₂.objects = w.objects := by
    have same := restoredOptions_objects w₁ fields "token_settings"
    have same' := restoredOptions_objects w fields "client_settings"
    rw [made'] at same
    rw [made] at same'
    exact same.trans same'
  simp only [Workspace.insertRestored, made, made']
  exact h.insertSealed w₂ first second rfl objects c

theorem toClient_follows (h : old.Backed w σ) (on : String) :
    (w.toClient on).Follows rights old σ := by
  refine onSnapshot_follows h fun fields holds => ?_
  simp only
  split
  · refine Turn.ofOutcome_follows h fun c => ?_
    obtain ⟨τ, leads, backed, -⟩ := h.insertRestored holds c
    exact ⟨τ, leads, backed⟩
  · refine after_follows h fun r _ => Turn.ofOutcome_follows h fun c => ?_
    obtain ⟨τ, leads, backed, -⟩ := h.insertRestored holds c
    exact ⟨τ, leads, backed⟩

/-- What an edit of a field is made to. -/
def fieldTarget? (w : Workspace) (field : String) (path : List Value) : Object → Option Address
  | .snapshot fields => (fields.field? field).bind fun x => w.target? x path
  | .row fields => (fields.field? field).bind fun x => w.target? x path
  | .value (.bag _ a) => if field = "settings" ∧ path ≠ [] then w.target? (.cell a) path else none
  | _ => none

theorem mutateField_follows (h : old.Backed w σ) (on field : String) (path : List Value)
    (edits : List (Edit Value))
    (looks : ∀ kind a, w.named? on = .ok (.value (.bag kind a)) → field = "settings" →
      rights.view a)
    (allowed : ∀ o a, w.named? on = .ok o → w.fieldTarget? field path o = some a →
      rights.edit a) :
    (w.mutateField on field path edits).Follows rights old σ := by
  refine onObject_follows h fun i o named _ holds => ?_
  have edited : ∀ fields : HeldFields, (∀ f ∈ fields, σ.Holds f.2) →
      ∀ x, fields.field? field = some x →
      (∀ a, w.target? x path = some a → w.fieldTarget? field path o = some a) →
      (Turn.ofEdited (w.editAt x path edits).1 i (w.editAt x path edits).2).Follows rights old
        σ := by
    intro fields held x found target
    obtain ⟨τ, leads, backed⟩ := h.editAt (HeldFields.holds_of_field? held found) path edits
      fun a aimed => allowed o a named (target a aimed)
    exact (Turn.ofEdited_follows backed i _).after leads
  cases o with
  | snapshot fields =>
      simp only
      split
      · exact Turn.fail_follows h _
      next x found =>
        refine edited fields (List.forall_mem_map.mp holds) x found ?_
        intro a aimed
        simp only [fieldTarget?, found, Option.bind_some, aimed]
  | row fields =>
      simp only
      split
      · exact Turn.fail_follows h _
      next x found =>
        refine edited fields (List.forall_mem_map.mp holds) x found ?_
        intro a aimed
        simp only [fieldTarget?, found, Option.bind_some, aimed]
  | value x =>
      cases x with
      | bag kind a =>
          simp only
          split
          next same =>
            have settings : field = "settings" := beq_iff_eq.mp same
            obtain ⟨τ, leads, backed⟩ := h.editView (holds _ (List.mem_singleton_self _))
              (looks kind a named settings) path edits fun b some aimed => by
                apply allowed _ b named
                rw [fieldTarget?, if_pos ⟨settings, some⟩]
                exact aimed
            exact (Turn.ofEdited_follows backed i _).after leads
          · exact Turn.fail_follows h _
      | _ => exact Turn.fail_follows h _
  | _ => exact Turn.fail_follows h _

theorem row_follows (h : old.Backed w σ) (on : String) : (w.row on).Follows rights old σ := by
  refine onClient_follows h fun c clientSettings tokenSettings => after_follows h fun r _ => ?_
  obtain ⟨τ, leads, backed, holds⟩ := h.exported clientSettings tokenSettings r.columns
  generalize w.exported c r.columns = p at backed holds ⊢
  refine (Turn.ofNew_follows (backed.insert ?_ rfl)).after leads
  exact List.forall_mem_map.mpr holds

theorem rowOf_follows (h : old.Backed w σ) (columns : List (String × Operand)) :
    (w.rowOf columns).Follows rights old σ := by
  refine after_follows h fun given named => ?_
  obtain ⟨τ, leads, h₁, holds⟩ := h.ofHeldNamed named
  refine Turn.Follows.after (after_follows h₁ fun r _ => ?_) leads
  obtain ⟨υ, leads', h₂, laid⟩ := h₁.holdFields r.columns
  generalize given.1.holdFields r.columns = p at h₂ laid ⊢
  refine (Turn.ofNew_follows (h₂.insert (List.forall_mem_map.mpr ?_) rfl)).after leads'
  have put : ∀ (fs : HeldFields), (∀ f ∈ fs, υ.Holds f.2) → ∀ fields : HeldFields,
      (∀ f ∈ fields, υ.Holds f.2) →
      ∀ f ∈ fs.foldl (fun f g => HeldFields.put f g.1 g.2) fields, υ.Holds f.2 := by
    intro fs
    induction fs with
    | nil => exact fun _ fields all => all
    | cons f rest ih =>
        intro given fields all
        rw [List.forall_mem_cons] at given
        exact ih given.2 _ (HeldFields.put_holds all given.1)
  exact put given.2 (fun f member => leads'.holds (holds f member)) p.2 laid

theorem rowToClient_follows (h : old.Backed w σ) (on : String) :
    (w.rowToClient on).Follows rights old σ := by
  refine onRow_follows h fun fields holds => after_follows h fun r _ => ?_
  refine Turn.ofOutcome_follows h fun c => ?_
  obtain ⟨τ, leads, backed, -⟩ := h.insertRestored holds c
  exact ⟨τ, leads, backed⟩

end ClientRegistry.Workspace
