import ClientRegistry.Proofs.Workspace.Options

/-! Moves of the steps on bags, on drafts of bags, and on plain values. The only one of them that
looks into a bag is to take its view. -/

namespace ClientRegistry.Workspace

open Holding (Leads Rights)

variable {rights : Rights} {σ : Holding} {old w : Workspace}

theorem bagDraft_follows (h : old.Backed w σ) (kind : BagKind) :
    (w.bagDraft kind).Follows rights old σ := by
  have laid := Store.allocEntries_lays w.store (SettingsDraft.empty kind).options
  generalize entries : w.store.allocEntries (SettingsDraft.empty kind).options = p at laid
  obtain ⟨store, es⟩ := p
  obtain ⟨lays, new⟩ := laid
  obtain ⟨τ, leads, h', holds⟩ :
      ∃ τ, Leads rights σ τ ∧ old.Backed { w with store } τ ∧
        ∀ x, w.store.New store x → τ.Holds x := h.lay lays rfl
  have gathered : Leads rights τ _ := Holding.leads_draft fun e listed => holds e.2 (new e listed)
  have backed : old.Backed { w with store := store ++ [.dict es] } _ :=
    h'.next gathered rfl (congrArg (fun s : Store => s ++ [.dict es]) h'.store)
  have draft := backed.insertSettingsDraft kind (.inr (congrArg List.length h'.store.symm))
  have same : w.store.allocOptions (SettingsDraft.empty kind).options =
      (store ++ [.dict es], store.length) := by
    rw [Store.allocOptions, entries]
  simp only [bagDraft, same]
  exact (Turn.ofNew_follows draft).after (leads.trans gathered)

theorem withSettings_follows (h : old.Backed w σ) (kind : BagKind) (mapping : Operand) :
    (w.withSettings kind mapping).Follows rights old σ := by
  refine onHeld_follows h fun w' x τ _ h' holds => ?_
  split
  · exact Turn.fail_follows h' _
  · refine after_follows h' fun p made => ?_
    obtain ⟨υ, leads, backed, draft⟩ := h'.draftOptions (knows_mappingOf holds.knows) made
    exact (Turn.ofNew_follows (backed.insertSettingsDraft kind draft)).after leads

theorem setting_follows (h : old.Backed w σ) (on : String) (name value : Operand) :
    (w.setting on name value).Follows rights old σ := by
  refine onSettingsDraft_follows h fun i kind a draft => ?_
  refine onHeld_follows h fun w₁ n τ leads h₁ _ => ?_
  refine onHeld_follows h₁ fun w₂ x υ leads' h₂ holds => ?_
  simp only
  split
  · exact Turn.fail_follows h₂ _
  · have own := leads'.within.drafts a (leads.within.drafts a draft)
    have parts : ∀ e ∈ Entries.put (w₂.store.entriesAt a) (w₂.store.read n) x,
        e.2 ∈ (υ.store.cellAt a).parts ∨ υ.Holds e.2 := by
      refine Entries.put_values (R := fun z => z ∈ (υ.store.cellAt a).parts ∨ υ.Holds z) ?_
        (.inr holds)
      exact fun e listed => .inl (h₂.store ▸ Store.mem_parts_of_entriesAt listed)
    have put : Leads rights υ _ := Holding.leads_put own parts
    rw [h₂.store] at put
    have backed : old.Backed { w₂ with store := w₂.store.set a (.dict
        (Entries.put (w₂.store.entriesAt a) (w₂.store.read n) x)) } _ := h₂.next put rfl rfl
    exact (Turn.ofObject_follows backed i []).after put

theorem settings_follows (h : old.Backed w σ) (on : String) (edits : List (Edit Value)) :
    (w.settings on edits).Follows rights old σ := by
  refine onSettingsDraft_follows h fun i kind a draft => ?_
  obtain ⟨lays, new⟩ := readInEdits_lays w edits
  rw [← h.store] at lays new
  have amended : Leads rights σ _ :=
    Holding.leads_amend (.inr draft) lays (lays.closed.editCell new a)
  have backed : old.Backed { (w.readInEdits edits).1 with
      store := ((w.readInEdits edits).1.store.editCell a (w.readInEdits edits).2).1 } _ :=
    h.next amended (readInEdits_objects w edits) rfl
  exact (Turn.ofEdited_follows backed i _).after amended

theorem bag_follows (h : old.Backed w σ) (kind : BagKind) (mapping : Operand) :
    (w.bag kind mapping).Follows rights old σ := by
  refine onHeld_follows h fun w' x τ _ h' holds => ?_
  refine after_follows h' fun p made => ?_
  obtain ⟨sealing, backed⟩ := h'.copiedOptions holds.knows made
  refine (Turn.ofNew_follows (backed.insert ?_ rfl)).after (sealing rights).leads
  exact List.forall_mem_singleton.mpr (Holding.holds_withBag _ _ kind)

theorem getSetting_follows (h : old.Backed w σ) (on : String) (name default : Operand) :
    (w.getSetting on name default).Follows rights old σ := by
  refine onBag_follows h fun kind a _ bag => ?_
  refine onHeld_follows h fun w₁ n τ leads h₁ _ => ?_
  refine onHeld_follows h₁ fun w₂ x υ leads' h₂ holds => ?_
  refine after_follows h₂ fun _ _ => ?_
  generalize option : (Entries.find? (w₂.store.entriesAt a) (w₂.store.read n)).getD x = z
  have known : υ.Knows z := by
    cases found : Entries.find? (w₂.store.entriesAt a) (w₂.store.read n) with
    | none =>
        rw [found] at option
        exact option ▸ holds.knows
    | some y =>
        rw [found] at option
        subst option
        refine Holding.knows_part ((leads'.holds (leads.holds bag)).knows a rfl) ?_
        rw [h₂.store]
        obtain ⟨e, listed, rfl⟩ := List.mem_map.mp (Store.mem_of_find? found)
        exact Store.mem_parts_of_entriesAt listed
  obtain ⟨ρ, leads'', store, copies⟩ : ∃ ρ, Leads rights υ ρ ∧ _ ∧ _ :=
    Holding.leads_copied (List.forall_mem_singleton.mpr fun b at' => .inl (known b at'))
  rw [h₂.store] at store copies
  have backed : old.Backed { w₂ with store := (w₂.store.copy z).1 } ρ := h₂.next leads'' rfl store
  refine (Turn.ofNew_follows (backed.insert ?_ rfl)).after leads''
  refine List.forall_mem_singleton.mpr (copies.holds ?_ ?_)
  · exact fun b at' => (h₂.grounded.known (known b at')).2
  · exact fun b at' => ⟨z, List.mem_singleton_self z, at'⟩

theorem toDict_follows (h : old.Backed w σ) (on : String) :
    (w.toDict on).Follows rights old σ := by
  refine onBag_follows h fun kind a _ bag => ?_
  obtain ⟨τ, leads, backed, holds⟩ := h.copyCell (bag.knows a rfl)
  refine (Turn.ofNew_follows (backed.insert ?_ rfl)).after leads
  exact List.forall_mem_singleton.mpr holds

theorem takeView_follows (h : old.Backed w σ) (on : String)
    (allowed : ∀ kind a, w.named? on = .ok (.value (.bag kind a)) → rights.view a) :
    (w.takeView on).Follows rights old σ := by
  refine onBag_follows h fun kind a named bag => ?_
  have looked : Leads rights σ _ := Holding.leads_view bag (allowed kind a named)
  have parts : ∀ e ∈ w.store.entriesAt a,
      Holding.Holds (σ.hold fun x => x ∈ (σ.store.cellAt a).parts) e.2 := by
    rw [← h.store]
    exact fun e listed => Holding.holds_of_held (.inr (Store.mem_parts_of_entriesAt listed))
  have gathered : Leads rights _ _ := (looked.grounded h.grounded).leads_gather parts
  have leads := looked.trans gathered
  have backed : old.Backed { w with store := w.store ++ [.dict (w.store.entriesAt a)] } _ :=
    h.next leads rfl (congrArg (fun s : Store => s ++ [.dict (w.store.entriesAt a)]) h.store)
  refine (Turn.ofNew_follows (backed.insert ?_ rfl)).after leads
  refine List.forall_mem_singleton.mpr (.inr ?_)
  exact congrArg some (congrArg List.length h.store.symm)

theorem viewEdit_follows (h : old.Backed w σ) (on : String) (edits : List (Edit Value)) :
    (w.viewEdit on edits).Follows rights old σ := by
  refine onBag_follows h fun kind a _ _ => ?_
  split
  · exact Turn.fail_follows h _
  · exact Turn.ofResult_follows h _

theorem clientBag_follows (h : old.Backed w σ) (on : String) (kind : BagKind) :
    (w.clientBag on kind).Follows rights old σ := by
  refine onClient_follows h fun c clientSettings tokenSettings => ?_
  cases kind with
  | client => exact Turn.ofNew_follows (h.insert (List.forall_mem_singleton.mpr clientSettings) rfl)
  | token => exact Turn.ofNew_follows (h.insert (List.forall_mem_singleton.mpr tokenSettings) rfl)

theorem plain_follows (h : old.Backed w σ) (v : Operand) : (w.plain v).Follows rights old σ := by
  refine after_follows h fun p found => ?_
  obtain ⟨τ, leads, backed⟩ := h.ofOperand found
  exact (Turn.ofObject_follows backed _ []).after leads

theorem mutate_follows (h : old.Backed w σ) (on : String) (path : List Value)
    (edits : List (Edit Value)) (allowed : ∀ x a, w.named? on = .ok (.value x) →
      w.target? x path = some a → rights.edit a) :
    (w.mutate on path edits).Follows rights old σ := by
  refine onObject_follows h fun i o named _ holds => ?_
  cases o with
  | value x =>
      obtain ⟨τ, leads, backed⟩ := h.editAt (holds x (List.mem_singleton_self x)) path edits
        fun a => allowed x a named
      exact (Turn.ofEdited_follows backed i _).after leads
  | _ => exact Turn.fail_follows h _

end ClientRegistry.Workspace
