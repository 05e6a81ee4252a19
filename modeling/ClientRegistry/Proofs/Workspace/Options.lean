import ClientRegistry.Proofs.Workspace.Following

/-! How steps make options and fields: by copying what they know, by gathering what they hold, and
by editing what they hold in place. -/

namespace ClientRegistry.Workspace

open Holding (Leads Rights Sealing)

variable {rights : Rights} {σ : Holding} {old w w' : Workspace} {x : Shared} {a : Address}

namespace HeldFields

variable {fields : HeldFields} {name : String} {R : Shared → Prop}

theorem put_holds (old : ∀ f ∈ fields, R f.2) (new : R x) : ∀ f ∈ fields.put name x, R f.2 := by
  refine List.forall_mem_map.mpr fun f member => ?_
  split
  · exact new
  · exact old f member

theorem holds_of_field? (all : ∀ f ∈ fields, R f.2) (found : fields.field? name = some x) :
    R x := by
  obtain ⟨f, present, rfl⟩ := Option.map_eq_some_iff.mp found
  exact all f (List.mem_of_find?_eq_some present)

end HeldFields

/-- There is a new record, and its bags are sealed. -/
def SealsNew (σ : Holding) (p : Workspace × Handle) : Prop :=
  ∃ o : Object, p.1.objects[p.2]? = some o ∧ o.Record ∧ ∀ a ∈ o.bags, σ.Seals a

theorem sealsNew_insert {o : Object} (record : o.Record) (seals : ∀ a ∈ o.bags, σ.Seals a) :
    SealsNew σ (w.insert o) :=
  ⟨o, List.getElem?_concat_length, record, seals⟩

/-- A bag is known as well as its options are. -/
theorem knows_mappingOf (known : σ.Knows x) : σ.Knows (mappingOf x) := by
  cases x with
  | bag kind b => exact known
  | leaf v => exact known
  | cell b => exact known

/-- The cell that a path leads to. -/
def target? (w : Workspace) (x : Shared) (path : List Value) : Option Address :=
  match w.store.walk x path with
  | .ok (.cell a) => some a
  | _ => none

namespace Backed

/-- The options are those that the mapping has, and these are known if the mapping is. -/
theorem exists_entries (h : old.Backed w σ) (known : σ.Knows x)
    (made : w.copiedOptions x = .ok (w', a)) :
    ∃ es, (∀ e ∈ es, σ.Knows e.2) ∧ σ.store.copyEntries es = (w'.store, a) ∧
      w'.objects = w.objects := by
  obtain ⟨es, entries, same⟩ := except_map_eq_ok.mp made
  cases same
  rw [← h.store] at entries ⊢
  exact ⟨es, Bag.entriesFrom_values σ.knows_closed.keeps known entries, rfl, rfl⟩

theorem next_bag (h : old.Backed w σ) {p : Store × Address} (sealing : Sealing rights σ p)
    (store : w'.store = p.1) (objects : w'.objects = w.objects) :
    old.Backed w' (σ.withBag p) :=
  h.next sealing.leads objects store.symm

theorem copiedOptions (h : old.Backed w σ) (known : σ.Knows x)
    (made : w.copiedOptions x = .ok (w', a)) :
    (∀ rights, Sealing rights σ (w'.store, a)) ∧ old.Backed w' (σ.withBag (w'.store, a)) := by
  obtain ⟨es, known, copied, objects⟩ := h.exists_entries known made
  have sealing : ∀ rights, Sealing rights σ (w'.store, a) :=
    fun rights => copied ▸ h.grounded.copyEntries known
  exact ⟨sealing, h.next_bag (sealing .all) rfl objects⟩

/-- The same options as those of a draft. -/
theorem draftOptions (h : old.Backed w σ) (known : σ.Knows x)
    (made : w.copiedOptions x = .ok (w', a)) :
    ∃ τ, Leads rights σ τ ∧ old.Backed w' τ ∧ τ.drafts a := by
  obtain ⟨es, known, copied, objects⟩ := h.exists_entries known made
  have leads : Leads rights σ _ := Holding.leads_stow known
  rw [copied] at leads
  exact ⟨_, leads, h.next leads objects rfl, .inr rfl⟩

/-- Two bags that are made one after the other both are sealed at the end. -/
theorem insertSealed (h : old.Backed w σ) (w' : Workspace) {p q : Store × Address}
    (first : ∀ rights, Sealing rights σ p) (second : ∀ rights, Sealing rights (σ.withBag p) q)
    (store : w'.store = q.1) (objects : w'.objects = w.objects) (c : Client) :
    ∃ τ, Leads rights σ τ ∧ old.Backed (w'.insert (.client ⟨c, p.2, q.2⟩)).1 τ ∧
      SealsNew τ (w'.insert (.client ⟨c, p.2, q.2⟩)) := by
  have leads : Leads rights σ _ := (first rights).leads.trans (second rights).leads
  refine ⟨_, leads, (h.next leads objects store.symm).insert ?_ rfl, sealsNew_insert trivial ?_⟩
  · intro z member
    rcases List.mem_pair.mp member with rfl | rfl
    · exact (second rights).leads.holds (Holding.holds_withBag _ _ _)
    · exact Holding.holds_withBag _ _ _
  · have grounded := (first rights).leads.grounded h.grounded
    intro a member
    rcases List.mem_pair.mp member with rfl | rfl
    · exact ((first rights).seals.moves grounded (second .blind).moves id).1
    · exact (second rights).seals

theorem restoredOptions (h : old.Backed w σ) {fields : HeldFields}
    (holds : ∀ f ∈ fields, σ.Holds f.2) {name : String}
    (made : w.restoredOptions fields name = (w', a)) :
    (∀ rights, Sealing rights σ (w'.store, a)) ∧ old.Backed w' (σ.withBag (w'.store, a)) := by
  have known : σ.Knows ((fields.field? name).getD (.leaf .null)) := by
    cases found : fields.field? name with
    | none => exact Holding.Holds.knows trivial
    | some x => exact (HeldFields.holds_of_field? holds found).knows
  simp only [Workspace.restoredOptions] at made
  split at made
  next p copied =>
    subst made
    exact h.copiedOptions known copied
  · cases made
    have sealing : ∀ rights, Sealing rights σ (w.store ++ [.dict []], w.store.length) :=
      fun rights => h.store ▸ h.grounded.emptyBag
    exact ⟨sealing, h.next_bag (sealing .all) rfl rfl⟩

/-- A copy of the options of a known bag, as a dictionary in hand. -/
theorem copyCell (h : old.Backed w σ) (known : σ.Known a) :
    ∃ τ, Leads rights σ τ ∧ old.Backed { w with store := (w.store.copyCell a).1 } τ ∧
      τ.Holds (.cell (w.store.copyCell a).2) := by
  obtain ⟨τ, leads, store, holds⟩ := h.grounded.leads_copyCell known
  rw [h.store] at store holds
  exact ⟨τ, leads, h.next leads rfl store, holds⟩

theorem exported (h : old.Backed w σ) {c : HeldClient}
    (clientSettings : σ.Holds (.bag .client c.clientSettings))
    (tokenSettings : σ.Holds (.bag .token c.tokenSettings)) (named : List (String × Value)) :
    ∃ τ, Leads rights σ τ ∧ old.Backed (w.exported c named).1 τ ∧
      ∀ f ∈ (w.exported c named).2, τ.Holds f.2 := by
  obtain ⟨τ₁, leads₁, backed₁, fields⟩ := h.holdFields named
  obtain ⟨τ₂, leads₂, backed₂, first⟩ :=
    backed₁.copyCell ((leads₁.holds clientSettings).knows _ rfl)
  obtain ⟨τ₃, leads₃, backed₃, second⟩ :=
    backed₂.copyCell ((leads₂.holds (leads₁.holds tokenSettings)).knows _ rfl)
  refine ⟨τ₃, (leads₁.trans leads₂).trans leads₃, backed₃, ?_⟩
  refine HeldFields.put_holds (HeldFields.put_holds ?_ (leads₃.holds first)) second
  exact fun f member => leads₃.holds (leads₂.holds (fields f member))

/-- A new dictionary of what a held dictionary holds. -/
theorem keepField (h : old.Backed w σ) {given fields : HeldFields}
    (givenHeld : ∀ f ∈ given, σ.Holds f.2) (holds : ∀ f ∈ fields, σ.Holds f.2) (name : String) :
    ∃ τ, Leads rights σ τ ∧ old.Backed (keepField given name (w, fields)).1 τ ∧
      ∀ f ∈ (keepField given name (w, fields)).2, τ.Holds f.2 := by
  simp only [Workspace.keepField]
  split
  next a found =>
    split
    next es checked =>
      have leads₁ : Leads rights σ _ :=
        Holding.leads_parts (HeldFields.holds_of_field? givenHeld found)
      have parts : ∀ e ∈ es, Holding.Holds (σ.hold fun x => x ∈ (σ.store.cellAt a).parts) e.2 := by
        rw [← h.store] at checked
        exact Snapshot.checkEntries_values checked fun e listed =>
          Holding.holds_of_held (.inr (Store.mem_parts_of_entriesAt listed))
      have leads₂ : Leads rights _ _ := (leads₁.grounded h.grounded).leads_gather parts
      have leads := leads₁.trans leads₂
      refine ⟨_, leads, h.next leads rfl (congrArg (fun s : Store => s ++ [.dict es]) h.store), ?_⟩
      refine HeldFields.put_holds (fun f member => leads.holds (holds f member)) (.inr ?_)
      exact congrArg some (congrArg List.length h.store.symm)
    · exact ⟨σ, .refl σ, h, holds⟩
  · exact ⟨σ, .refl σ, h, holds⟩

theorem keepEntries (h : old.Backed w σ) {given fields : HeldFields}
    (givenHeld : ∀ f ∈ given, σ.Holds f.2) (holds : ∀ f ∈ fields, σ.Holds f.2) :
    ∃ τ, Leads rights σ τ ∧ old.Backed (w.keepEntries given fields).1 τ ∧
      ∀ f ∈ (w.keepEntries given fields).2, τ.Holds f.2 := by
  obtain ⟨τ, leads, backed, first⟩ := h.keepField givenHeld holds "client_settings"
  obtain ⟨υ, leads', backed', second⟩ :=
    backed.keepField (fun f member => leads.holds (givenHeld f member)) first "token_settings"
  exact ⟨υ, leads.trans leads', backed', second⟩

/-- What can come in hand at the end of a path can be edited there. -/
theorem editReached (h : old.Backed w σ) {path : List Value}
    (inside : ∀ b, x.address? = some b → b < σ.store.length)
    (reach : ∀ y, σ.store.walk x path = .ok y →
      ∃ τ, Leads rights σ τ ∧ τ.store = σ.store ∧ τ.Holds y)
    (edits : List (Edit Value)) (allowed : ∀ a, w.target? x path = some a → rights.edit a) :
    ∃ τ, Leads rights σ τ ∧ old.Backed (w.editAt x path edits).1 τ := by
  obtain ⟨lays, new⟩ := readInEdits_lays w edits
  have laid : ∃ τ, Leads rights σ τ ∧ old.Backed (w.readInEdits edits).1 τ := by
    obtain ⟨τ, leads, backed, -⟩ := h.lay lays (readInEdits_objects w edits)
    exact ⟨τ, leads, backed⟩
  simp only [Workspace.editAt]
  split
  · exact laid
  next y walked =>
    cases y with
    | leaf v => exact laid
    | bag kind a => exact laid
    | cell a =>
        rw [← h.store] at lays new
        rw [lays.walk h.grounded.ranked inside] at walked
        have may : rights.edit a := by
          apply allowed
          rw [target?, ← h.store, walked]
        obtain ⟨τ, leads, store, held⟩ := reach _ walked
        rw [← store] at lays new
        have edited := lays.closed.editCell new a
        have amended : Leads rights τ _ := Holding.leads_amend (.inl ⟨held, may⟩) lays edited
        exact ⟨_, leads.trans amended,
          h.next (leads.trans amended) (readInEdits_objects w edits) rfl⟩

/-- What a path leads to from a held value can be held, and then it can be edited. -/
theorem editAt (h : old.Backed w σ) (holds : σ.Holds x) (path : List Value)
    (edits : List (Edit Value)) (allowed : ∀ a, w.target? x path = some a → rights.edit a) :
    ∃ τ, Leads rights σ τ ∧ old.Backed (w.editAt x path edits).1 τ := by
  refine h.editReached (fun b at' => (h.grounded.holds holds at').1) ?_ edits allowed
  intro y walked
  exact (Holding.leads_closed rights σ).walk ⟨σ, .refl σ, rfl, holds⟩ walked

/-- Whoever may look into a bag can edit what a path from its view leads to. -/
theorem editView (h : old.Backed w σ) {kind : BagKind} (bag : σ.Holds (.bag kind a))
    (view : rights.view a) (path : List Value) (edits : List (Edit Value))
    (allowed : ∀ b, path ≠ [] → w.target? (.cell a) path = some b → rights.edit b) :
    ∃ τ, Leads rights σ τ ∧ old.Backed (w.editView a path edits).1 τ := by
  cases path with
  | nil => exact ⟨σ, .refl σ, h⟩
  | cons key rest =>
      refine h.editReached ?_ ?_ edits fun b => allowed b (List.cons_ne_nil key rest)
      · intro b at'
        cases at'
        exact (h.grounded.holds bag rfl).1
      · intro y walked
        have options : ∀ x ∈ (σ.store.cellAt a).parts,
            ∃ τ, Leads rights σ τ ∧ τ.store = σ.store ∧ τ.Holds x := by
          intro x member
          exact ⟨_, Holding.leads_view bag view, rfl, Holding.holds_of_held (.inr member)⟩
        exact (Holding.leads_closed rights σ).walkOfCell options walked

end Backed

end ClientRegistry.Workspace
