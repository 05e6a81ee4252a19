import ClientRegistry.Proofs.Workspace.Options

/-! Moves of the steps that copy objects. The copy of an object holds the copies of what the object
holds, and a draft that is copied is a draft. -/

namespace ClientRegistry.Workspace

open Holding (Leads Rights)

variable {rights : Rights} {σ τ : Holding} {old w : Workspace} {o : Object}

theorem mem_of_listed {r : Registry Listed} {p : Handle × HeldClient} (h : p ∈ w.listedClients r) :
    .client p.2 ∈ w.objects := by
  obtain ⟨i, -, found⟩ := List.mem_filterMap.mp h
  obtain ⟨c, listed, rfl⟩ := Option.map_eq_some_iff.mp found
  simp only [clientAt?] at listed
  split at listed
  next c' present =>
    cases listed
    exact List.mem_of_getElem? present
  · cases listed

namespace Backed

theorem knows_parts (h : old.Backed w σ) (present : o ∈ w.objects) :
    ∀ x ∈ o.parts, ∀ a, x.address? = some a → σ.Known a ∨ σ.drafts a := by
  intro x member a at'
  rcases Object.known_of_listed member at' with ⟨y, held, at''⟩ | own
  · exact .inl ((h.held o present y held).knows a at'')
  · exact .inr (h.drafts o present a own)

theorem knows_partsOf (h : old.Backed w σ) (present : o ∈ w.objects) :
    ∀ x ∈ w.partsOf o, ∀ a, x.address? = some a → σ.Known a ∨ σ.drafts a := by
  cases o with
  | registry r =>
      intro x member
      obtain ⟨p, listed, part⟩ := List.mem_flatMap.mp member
      exact h.knows_parts (mem_of_listed listed) x part
  | _ => exact h.knows_parts present

/-- The copy of an object holds what was copied for it. -/
theorem holds_relocate (h : old.Backed w σ) (present : o ∈ w.objects) {f : Address → Address}
    {xs : List Shared} (copies : σ.HasCopies τ f xs) (listed : ∀ x ∈ o.parts, x ∈ xs) :
    ∀ x ∈ (o.relocate f).held, τ.Holds x := by
  rw [Object.held_relocate]
  refine List.forall_mem_map.mpr fun x member => copies.holds ?_ ?_
  · exact fun a at' => (h.grounded.holds (h.held o present x member) at').2
  · intro a at'
    obtain ⟨y, part, at''⟩ := Object.listed_of_held member at'
    exact ⟨y, listed y part, at''⟩

theorem drafts_relocate (h : old.Backed w σ) (present : o ∈ w.objects) {f : Address → Address}
    {xs : List Shared} (copies : σ.HasCopies τ f xs) (listed : ∀ x ∈ o.parts, x ∈ xs) :
    ∀ a, (o.relocate f).own? = some a → τ.drafts a := by
  intro a own
  rw [Object.own?_relocate] at own
  obtain ⟨b, own', rfl⟩ := Option.map_eq_some_iff.mp own
  exact copies.drafts _ (listed _ (Object.listed_of_own own')) b rfl (h.drafts o present b own')

theorem insertRegistry (h : old.Backed w σ) {clients : List (Handle × Object)}
    (held : ∀ p ∈ clients, ∀ x ∈ p.2.held, σ.Holds x)
    (plain : ∀ p ∈ clients, ∀ a, p.2.own? = some a → σ.drafts a) (r : Registry Listed) :
    old.Backed (w.insertRegistry clients r).1 σ := by
  have appended : old.Backed { w with objects := w.objects ++ clients.unzip.2 } σ := by
    rw [List.unzip_eq_map]
    exact h.append (List.forall_mem_map.mpr held) (List.forall_mem_map.mpr plain)
  exact appended.insert (fun _ member => by cases member) rfl

/-- The copies of the clients that a registry lists. -/
theorem relocated (h : old.Backed w σ) {r : Registry Listed} {f : Address → Address}
    (copies : σ.HasCopies τ f (w.partsOf (.registry r))) :
    (∀ p ∈ relocated f (w.listedClients r), ∀ x ∈ p.2.held, τ.Holds x) ∧
      ∀ p ∈ Workspace.relocated f (w.listedClients r), ∀ a, p.2.own? = some a → τ.drafts a := by
  have listed : ∀ p ∈ w.listedClients r, ∀ x ∈ (Object.client p.2).parts,
      x ∈ w.partsOf (.registry r) :=
    fun p member x part => List.mem_flatMap.mpr ⟨p, member, part⟩
  constructor
  · exact List.forall_mem_map.mpr fun p member =>
      h.holds_relocate (mem_of_listed member) copies (listed p member)
  · exact List.forall_mem_map.mpr fun p member =>
      h.drafts_relocate (mem_of_listed member) copies (listed p member)

theorem copyObject (h : old.Backed w σ) (present : o ∈ w.objects) :
    ∃ τ, Leads rights σ τ ∧ old.Backed (w.copyObject o).1 τ := by
  have known := h.knows_partsOf present
  obtain ⟨τ, leads, store, copies⟩ : ∃ τ, Leads rights σ τ ∧ _ ∧ _ := Holding.leads_copied known
  rw [h.store] at store copies
  have backed : old.Backed { w with store := (w.store.copied (w.partsOf o)).1 } τ :=
    h.next leads rfl store
  refine ⟨τ, leads, ?_⟩
  cases o with
  | registry r =>
      obtain ⟨held, plain⟩ := h.relocated copies
      exact backed.insertRegistry held plain r
  | _ =>
      exact backed.append
        (List.forall_mem_singleton.mpr (h.holds_relocate present copies fun _ => id))
        (List.forall_mem_singleton.mpr (h.drafts_relocate present copies fun _ => id))

theorem deepCopyOf (h : old.Backed w σ) (i : Handle) (present : o ∈ w.objects) :
    ∃ τ, Leads rights σ τ ∧ old.Backed (w.deepCopyOf i o).1 τ := by
  simp only [Workspace.deepCopyOf]
  split
  · split
    · exact ⟨σ, .refl σ, h⟩
    · exact h.copyObject present
  · split
    · exact ⟨σ, .refl σ, h⟩
    · exact h.copyObject present
  · exact h.copyObject present

/-- New marks change no cell. -/
theorem holds_freshen {x : Shared} (holds : σ.Holds x) (next : Nat) :
    σ.Holds (x.freshen next).1 := by
  cases x with
  | leaf v => trivial
  | cell a => exact holds
  | bag kind a => exact holds

theorem mem_of_freshenClients {clients : List (Handle × HeldClient)} {next : Nat}
    {p : Handle × HeldClient} (h : p ∈ (freshenClients next clients).1) :
    ∃ q ∈ clients, q.2.clientSettings = p.2.clientSettings ∧
      q.2.tokenSettings = p.2.tokenSettings := by
  induction clients generalizing next with
  | nil => cases h
  | cons q rest ih =>
      simp only [freshenClients] at h
      rcases List.mem_cons.mp h with rfl | later
      · exact ⟨q, List.mem_cons_self, rfl, rfl⟩
      · obtain ⟨q', listed, same⟩ := ih later
        exact ⟨q', List.mem_cons_of_mem _ listed, same⟩

theorem pickleOf (h : old.Backed w σ) (present : o ∈ w.objects) :
    ∃ τ, Leads rights σ τ ∧ old.Backed (w.pickleOf o).1 τ := by
  have known := h.knows_partsOf present
  obtain ⟨τ, leads, store, copies⟩ : ∃ τ, Leads rights σ τ ∧ _ ∧ _ :=
    Holding.leads_transferred w.next known
  rw [h.store] at store copies
  have backed : ∀ next, old.Backed { w with
      store := (w.store.transferred w.next (w.partsOf o)).1, next } τ :=
    fun next => h.next leads rfl store
  refine ⟨τ, leads, ?_⟩
  cases o with
  | registry r =>
      obtain ⟨held, plain⟩ := h.relocated copies
      refine (backed _).insertRegistry ?_ ?_ _
      · refine List.forall_mem_map.mpr fun p member x part => ?_
        obtain ⟨q, listed, clientSettings, tokenSettings⟩ := mem_of_freshenClients member
        have same : ∀ f, ((Object.client q.2).relocate f).held =
            ((Object.client p.2).relocate f).held := by
          intro f
          simp only [Object.relocate, Object.held, clientSettings, tokenSettings]
        exact held _ (List.mem_map_of_mem listed) x ((same _).symm ▸ part)
      · refine List.forall_mem_map.mpr fun p member a own => ?_
        cases own
  | value x =>
      refine (backed _).insert (List.forall_mem_singleton.mpr (holds_freshen ?_ _)) rfl
      exact h.holds_relocate present copies (fun _ => id) _ List.mem_cons_self
  | client c =>
      refine (backed _).insert ?_ rfl
      exact h.holds_relocate present copies fun _ => id
  | _ =>
      exact (backed _).append
        (List.forall_mem_singleton.mpr (h.holds_relocate present copies fun _ => id))
        (List.forall_mem_singleton.mpr (h.drafts_relocate present copies fun _ => id))

end Backed

end ClientRegistry.Workspace
