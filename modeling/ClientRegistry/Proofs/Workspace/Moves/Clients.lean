import ClientRegistry.Proofs.Workspace.Options

/-! Moves of the steps on drafts of clients and on clients. A client that is built has bags of its
own; one that is made of given fields has the bags that were given. -/

namespace ClientRegistry.Workspace

open Holding (Leads Rights Sealing)

variable {rights : Rights} {σ : Holding} {old w : Workspace} {a : Address}

theorem withId_follows (h : old.Backed w σ) (id : Operand) :
    (w.withId id).Follows rights old σ := by
  refine onHeld_follows h fun w' x τ _ h' _ => ?_
  refine after_follows h' fun d _ => Turn.ofNew_follows (h'.insert ?_ rfl)
  exact fun y member => by rcases List.mem_pair.mp member with rfl | rfl <;> trivial

theorem fromClient_follows (h : old.Backed w σ) (client : Option String) :
    (w.fromClient client).Follows rights old σ := by
  cases client with
  | none => exact Turn.fail_follows h _
  | some name =>
      refine onClient_follows h fun c clientSettings tokenSettings => ?_
      have first : Sealing rights σ (w.store.copyCell c.clientSettings) :=
        h.store ▸ h.grounded.copyCell (.inl (clientSettings.knows _ rfl))
      have h₁ : old.Backed { w with store := (w.store.copyCell c.clientSettings).1 } _ :=
        h.next_bag first rfl rfl
      have second : Sealing rights _ _ :=
        h₁.grounded.copyCell (.inl ((first.leads.holds tokenSettings).knows _ rfl))
      have h₂ : old.Backed { w with store :=
          ((w.store.copyCell c.clientSettings).1.copyCell c.tokenSettings).1 } _ :=
        h₁.next_bag second rfl rfl
      refine (Turn.ofNew_follows (h₂.insert ?_ rfl)).after (first.leads.trans second.leads)
      intro y member
      rcases List.mem_pair.mp member with rfl | rfl
      · exact second.leads.holds (Holding.holds_withBag _ _ _)
      · exact Holding.holds_withBag _ _ _

theorem assign_follows (h : old.Backed w σ) (on : String) (field : ScalarField) (value : Operand) :
    (w.assign on field value).Follows rights old σ := by
  refine onDraft_follows h fun i d loose clientSettings tokenSettings => ?_
  refine onHeld_follows h fun w' x τ leads h' holds => ?_
  split
  next draft _ =>
    refine Turn.ofObject_follows (h'.replace loose ?_ rfl) i []
    intro y member
    cases field
    all_goals
      rcases List.mem_pair.mp member with rfl | rfl
      all_goals first
        | exact holds
        | exact leads.holds clientSettings
        | exact leads.holds tokenSettings
  · exact Turn.fail_follows h' _

/-- A draft keeps its bags. -/
theorem Backed.replaceDraft (h : old.Backed w σ) {i : Handle} {d : HeldDraft} (loose : old.Loose i)
    (clientSettings : σ.Holds d.clientSettings) (tokenSettings : σ.Holds d.tokenSettings)
    (draft : Draft) : old.Backed (w.replace i (.draft { d with draft })) σ := by
  refine h.replace loose ?_ rfl
  intro y member
  rcases List.mem_pair.mp member with rfl | rfl
  · exact clientSettings
  · exact tokenSettings

theorem add_follows (h : old.Backed w σ) (on : String) (field : SetField) (value : Operand) :
    (w.add on field value).Follows rights old σ := by
  refine onDraft_follows h fun i d loose clientSettings tokenSettings => ?_
  refine onHeld_follows h fun w' x τ leads h' holds => ?_
  have backed := fun draft => h'.replaceDraft loose (leads.holds clientSettings)
    (leads.holds tokenSettings) draft
  exact Turn.ofEdited_follows (backed _) i _

theorem editMembers_follows (h : old.Backed w σ) (on : String) (field : SetField)
    (edits : List (Edit Value)) : (w.editMembers on field edits).Follows rights old σ := by
  refine onDraft_follows h fun i d loose clientSettings tokenSettings => ?_
  obtain ⟨τ, leads, h', -⟩ :
      ∃ τ, Leads rights σ τ ∧ old.Backed (w.readInEdits edits).1 τ ∧ _ :=
    h.lay (readInEdits_lays w edits).1 (readInEdits_objects w edits)
  have backed := fun draft => h'.replaceDraft loose (leads.holds clientSettings)
    (leads.holds tokenSettings) draft
  exact (Turn.ofEdited_follows (backed _) i _).after leads

/-- The bags of a new client are copies that nobody else has. -/
theorem Backed.insertBuilt (h : old.Backed w σ) {x y : Shared} (holds : σ.Holds x)
    (holds' : σ.Holds y) (c : Client) :
    ∃ τ, Leads rights σ τ ∧ old.Backed (w.insertBuilt x y c).1 τ ∧
      SealsNew τ (w.insertBuilt x y c) := by
  have first : ∀ rights, Sealing rights σ (w.store.copyBag x) :=
    fun rights => h.store ▸ h.grounded.copyBag holds.knows
  have leads : Leads .all σ _ := (first _).leads
  have second : ∀ rights, Sealing rights _ ((w.store.copyBag x).1.copyBag y) :=
    fun rights => (leads.grounded h.grounded).copyBag (leads.holds holds').knows
  exact h.insertSealed { w with store := ((w.store.copyBag x).1.copyBag y).1 } first second rfl
    rfl c

/-- The bag that a draft of a bag makes is a copy of its options. -/
theorem Backed.buildBag (h : old.Backed w σ) (draft : σ.drafts a) :
    (∀ rights, Sealing rights σ (w.store.copyCell a)) ∧
      old.Backed { w with store := (w.store.copyCell a).1 } (σ.withBag (w.store.copyCell a)) := by
  have sealing : ∀ rights, Sealing rights σ (w.store.copyCell a) :=
    fun rights => h.store ▸ h.grounded.copyCell (.inr draft)
  exact ⟨sealing, h.next_bag (sealing .all) rfl rfl⟩

theorem build_follows (h : old.Backed w σ) (on : String) :
    (w.build on).Follows rights old σ := by
  refine onObject_follows h fun i o _ present holds => ?_
  cases o with
  | draft d =>
      refine Turn.ofOutcome_follows h fun c => ?_
      obtain ⟨τ, leads, backed, -⟩ := h.insertBuilt (holds _ List.mem_cons_self)
        (holds _ (List.mem_cons_of_mem _ List.mem_cons_self)) c
      exact ⟨τ, leads, backed⟩
  | settingsDraft kind a =>
      have draft := h.drafts _ (List.mem_of_getElem? present) a rfl
      obtain ⟨sealing, backed⟩ := h.buildBag draft
      refine (Turn.ofNew_follows (backed.insert ?_ rfl)).after (sealing rights).leads
      exact List.forall_mem_singleton.mpr (Holding.holds_withBag _ _ kind)
  | _ => exact Turn.fail_follows h _

theorem makeClient_follows (h : old.Backed w σ) (fields : Fields) {a b : Option Address}
    (clientSettings : ∀ c ∈ a, σ.Holds (.bag .client c))
    (tokenSettings : ∀ c ∈ b, σ.Holds (.bag .token c)) :
    (w.makeClient fields a b).Follows rights old σ := by
  simp only [makeClient]
  split
  next c a b made =>
    refine Turn.ofObject_follows (h.insert (o := .client ⟨c, a, b⟩) ?_ rfl) _ _
    intro y member
    rcases List.mem_pair.mp member with rfl | rfl
    · exact clientSettings a rfl
    · exact tokenSettings b rfl
  · exact Turn.failLogged_follows h _ _
  · exact Turn.failLogged_follows h _ _

/-- A bag that was given can be held as a bag of either kind. -/
theorem holds_bagCell {fields : HeldFields} (holds : ∀ f ∈ fields, σ.Holds f.2) (kind : BagKind)
    {name : String} : ∀ a ∈ bagCell? fields name, σ.Holds (.bag kind a) := by
  intro a found
  simp only [bagCell?] at found
  split at found
  next kind' _ given =>
    cases found
    have bag : σ.Holds (.bag kind' a) := HeldFields.holds_of_field? holds given
    exact bag
  · cases found

theorem construct_follows (h : old.Backed w σ) (fields : List (String × Operand)) :
    (w.construct fields).Follows rights old σ := by
  refine after_follows h fun p found => ?_
  obtain ⟨τ, leads, h', holds⟩ := h.ofHeldNamed found
  refine Turn.Follows.after ?_ leads
  simp only
  split
  · exact makeClient_follows h' _ (holds_bagCell holds .client) (holds_bagCell holds .token)
  · exact Turn.fail_follows h' _

theorem replaceFields_follows (h : old.Backed w σ) (on : String)
    (changes : List (String × Operand)) : (w.replaceFields on changes).Follows rights old σ := by
  refine onClient_follows h fun c clientSettings tokenSettings => ?_
  refine after_follows h fun p found => ?_
  obtain ⟨τ, leads, h', holds⟩ := h.ofHeldNamed found
  have chosen : ∀ kind name b, τ.Holds (.bag kind b) →
      τ.Holds (.bag kind ((bagCell? p.2 name).getD b)) := by
    intro kind name b own
    cases given : bagCell? p.2 name with
    | none => exact own
    | some a => exact holds_bagCell holds kind a given
  refine Turn.Follows.after ?_ leads
  simp only
  split
  · refine makeClient_follows h' _ ?_ ?_
    · rintro a ⟨⟩
      exact chosen .client _ _ (leads.holds clientSettings)
    · rintro b ⟨⟩
      exact chosen .token _ _ (leads.holds tokenSettings)
  · exact Turn.fail_follows h' _

theorem setAttribute_follows (h : old.Backed w σ) (on field : String) (value : Operand) :
    (w.setAttribute on field value).Follows rights old σ := by
  refine onObject_follows h fun i o _ present holds => ?_
  cases o with
  | client c => exact Turn.fail_follows h _
  | value x =>
      simp only
      split
      · exact Turn.fail_follows h _
      · exact Turn.fail_follows h _
  | snapshot f => exact Turn.fail_follows h _
  | row f =>
      refine onHeld_follows h fun w' x τ leads h' given => ?_
      have loose := h.loose present fun steady => steady
      have backed : old.Backed (w'.replace i (.row (f.put field x))) τ := by
        refine h'.replace loose (List.forall_mem_map.mpr ?_) rfl
        exact HeldFields.put_holds
          (fun f member => leads.holds (holds _ (List.mem_map_of_mem member))) given
      exact Turn.ofResult_follows backed _
  | draft d => exact Turn.ofResult_follows h _
  | settingsDraft kind a => exact Turn.ofResult_follows h _
  | registry r => exact Turn.ofResult_follows h _
  | database t => exact Turn.ofResult_follows h _

theorem fieldCall_follows (h : old.Backed w σ) (on : String) (edits : List (Edit Value)) :
    (w.fieldCall on edits).Follows rights old σ := by
  refine onObject_follows h fun i o _ _ _ => ?_
  cases o with
  | client c => exact Turn.ofEdited_follows h i _
  | _ => exact Turn.fail_follows h _

theorem compareObjects_follows (h : old.Backed w σ) (a b : Operand) :
    (w.compareObjects a b).Follows rights old σ := by
  refine after_follows h fun p first => ?_
  obtain ⟨τ, leads, h'⟩ := h.ofOperand first
  refine Turn.Follows.after (after_follows h' fun q second => ?_) leads
  obtain ⟨υ, leads', h''⟩ := h'.ofOperand second
  exact (Turn.ofResult_follows h'' _).after leads'

theorem compareDigests_follows (h : old.Backed w σ) (a b : Operand) :
    (w.compareDigests a b).Follows rights old σ := by
  refine after_follows h fun p first => ?_
  obtain ⟨τ, leads, h'⟩ := h.ofOperand first
  refine Turn.Follows.after (after_follows h' fun q second => ?_) leads
  obtain ⟨υ, leads', h''⟩ := h'.ofOperand second
  refine Turn.Follows.after (after_follows h'' fun _ _ => after_follows h'' fun _ _ => ?_) leads'
  exact Turn.ofResult_follows h'' _

theorem countDistinct_follows (h : old.Backed w σ) (items : List Operand) :
    (w.countDistinct items).Follows rights old σ := by
  refine after_follows h fun p found => ?_
  obtain ⟨τ, leads, h'⟩ := h.ofOperands found
  exact Turn.Follows.after (after_follows h' fun _ _ => Turn.ofResult_follows h' _) leads

theorem print_follows (h : old.Backed w σ) (on : String) : (w.print on).Follows rights old σ :=
  onObject_follows h fun _ _ _ _ _ => Turn.ofResult_follows h _

theorem token_follows (h : old.Backed w σ) (kind : TokenKind) (name : Operand) :
    (w.token kind name).Follows rights old σ := by
  refine onHeld_follows h fun w' x τ _ h' _ => ?_
  refine after_follows h' fun v _ => ?_
  split
  · obtain ⟨υ, leads, backed⟩ := h'.insertValue v
    exact (Turn.follows_of_backed backed).after leads
  · exact Turn.fail_follows h' _

end ClientRegistry.Workspace
