import ClientRegistry.Proofs.Outcome
import ClientRegistry.Proofs.Value.Keyed
import ClientRegistry.Registry.Memory

/-! The two indexes of a registry. An indexed registry holds each entry in both of them, under
its own id and under its own client id; a save that is not refused keeps it so. -/

namespace ClientRegistry.Registry

variable {α : Type} [Registered α] {r : Registry α} {c : α}

/-- Entries that can be told apart by texts, as every typed client can. -/
structure Named (c : α) : Prop where
  id : (Registered.id c).IsText
  clientId : (Registered.clientId c).IsText

instance (c : α) : Decidable (Named c) :=
  decidable_of_iff ((Registered.id c).IsText ∧ (Registered.clientId c).IsText)
    ⟨fun ⟨id, clientId⟩ => ⟨id, clientId⟩, fun h => ⟨h.id, h.clientId⟩⟩

/-- The two indexes mirror each other. -/
structure Indexed (r : Registry α) : Prop where
  byId : Entries.Keyed r.byId
  byClientId : Entries.Keyed r.byClientId
  ids : ∀ e ∈ r.byId, e.1 = Registered.id e.2
  clientIds : ∀ e ∈ r.byClientId, e.1 = Registered.clientId e.2
  twins : ∀ d, (Registered.id d, d) ∈ r.byId ↔ (Registered.clientId d, d) ∈ r.byClientId

theorem empty_indexed : Indexed (empty : Registry α) where
  byId := Entries.Keyed.nil
  byClientId := Entries.Keyed.nil
  ids _ member := absurd member List.not_mem_nil
  clientIds _ member := absurd member List.not_mem_nil
  twins _ := ⟨fun member => absurd member List.not_mem_nil,
    fun member => absurd member List.not_mem_nil⟩

/-- What is listed under a client id is also listed under its id. -/
theorem Indexed.mem_byId (h : r.Indexed) {e : Value × α} (member : e ∈ r.byClientId) :
    (Registered.id e.2, e.2) ∈ r.byId := by
  rw [h.twins, ← h.clientIds e member]
  exact member

theorem Indexed.mem_byClientId (h : r.Indexed) {e : Value × α} (member : e ∈ r.byId) :
    (Registered.clientId e.2, e.2) ∈ r.byClientId := by
  rw [← h.twins, ← h.ids e member]
  exact member

theorem Indexed.named (h : r.Indexed) {e : Value × α} (member : e ∈ r.byId) : Named e.2 where
  id := h.ids e member ▸ h.byId.texts e member
  clientId := h.byClientId.texts _ (h.mem_byClientId member)

/-- A client id is taken if the entry that has it has another id. -/
theorem taken_iff (h : r.Indexed) (named : Named c) :
    r.taken c = true ↔
      ∃ d, (Registered.clientId c, d) ∈ r.byClientId ∧ Registered.id d ≠ Registered.id c := by
  unfold taken
  cases found : Entries.find? r.byClientId (Registered.clientId c) with
  | none =>
      have absent := (Entries.find?_eq_none h.byClientId).mp found
      simp only [Bool.false_eq_true, false_iff, not_exists, not_and]
      exact fun d member => absurd member (absent d)
  | some owner =>
      have member := (Entries.find?_eq_some h.byClientId).mp found
      simp only [Bool.not_eq_true', ← Bool.not_eq_true, named.id.equal_iff]
      constructor
      · exact fun ne => ⟨owner, member, ne⟩
      · rintro ⟨d, other, ne⟩
        rw [h.byClientId.unique member other]
        exact ne

/-- Entries with hashable ids are stored unless their client id is taken. -/
theorem save_result (r : Registry α) (named : Named c) :
    (r.save c).result =
      if r.taken c then .error (.alreadyExists (Registered.clientId c)) else .ok (r.store c) := by
  simp only [save, named.clientId.hashable, named.id.hashable, Bool.not_true, Bool.false_eq_true,
    if_false]
  split
  · rfl
  · rfl

theorem mem_store_byId (h : r.Indexed) {e : Value × α} :
    e ∈ (r.store c).byId ↔
      e = (Registered.id c, c) ∨ e ∈ r.byId ∧ Registered.id e.2 ≠ Registered.id c := by
  simp only [store, Entries.mem_put h.byId]
  refine or_congr_right (and_congr_right fun member => ?_)
  rw [h.ids e member]

/-- The client index without the entry that a save replaces. -/
def freed (r : Registry α) (c : α) : List (Value × α) :=
  match Entries.find? r.byId (Registered.id c) with
  | some previous => Entries.erase r.byClientId (Registered.clientId previous)
  | none => r.byClientId

theorem store_byClientId (r : Registry α) (c : α) :
    (r.store c).byClientId = Entries.put (r.freed c) (Registered.clientId c) c := rfl

theorem freed_keyed (h : r.Indexed) : Entries.Keyed (r.freed c) := by
  unfold freed
  cases Entries.find? r.byId (Registered.id c) with
  | none => exact h.byClientId
  | some previous => exact h.byClientId.erase _

theorem mem_freed (h : r.Indexed) {e : Value × α} :
    e ∈ r.freed c ↔ e ∈ r.byClientId ∧ Registered.id e.2 ≠ Registered.id c := by
  unfold freed
  cases found : Entries.find? r.byId (Registered.id c) with
  | none =>
      have absent := (Entries.find?_eq_none h.byId).mp found
      refine (and_iff_left_of_imp fun member same => ?_).symm
      exact absent e.2 (same ▸ h.mem_byId member)
  | some previous =>
      have member := (Entries.find?_eq_some h.byId).mp found
      have self : Registered.id c = Registered.id previous := h.ids _ member
      have twin : (Registered.clientId previous, previous) ∈ r.byClientId :=
        h.mem_byClientId member
      rw [Entries.mem_erase (h.byClientId.texts _ twin)]
      refine and_congr_right fun listed => not_congr ?_
      constructor
      · intro (same : e.1 = Registered.clientId previous)
        have eq : previous = e.2 := h.byClientId.unique twin (same ▸ listed)
        rw [← eq, self]
      · intro same
        have eq : e.2 = previous := h.byId.unique (same ▸ h.mem_byId listed) member
        rw [h.clientIds e listed, eq]

theorem mem_store_byClientId (h : r.Indexed) (named : Named c) (free : r.taken c = false)
    {e : Value × α} :
    e ∈ (r.store c).byClientId ↔ e = (Registered.clientId c, c) ∨
      e ∈ r.byClientId ∧ Registered.id e.2 ≠ Registered.id c := by
  rw [store_byClientId, Entries.mem_put (freed_keyed h), mem_freed h]
  refine or_congr_right (and_iff_left_of_imp ?_)
  -- Another entry with the client id would have made it taken.
  rintro ⟨listed, ne⟩ same
  have taken : r.taken c = true := (taken_iff h named).mpr ⟨e.2, same ▸ listed, ne⟩
  rw [free] at taken
  cases taken

theorem store_indexed (h : r.Indexed) (named : Named c) (free : r.taken c = false) :
    (r.store c).Indexed where
  byId := h.byId.put named.id c
  byClientId := (freed_keyed h).put named.clientId c
  ids e member := by
    rcases (mem_store_byId h).mp member with rfl | ⟨old, _⟩
    · rfl
    · exact h.ids e old
  clientIds e member := by
    rcases (mem_store_byClientId h named free).mp member with rfl | ⟨old, _⟩
    · rfl
    · exact h.clientIds e old
  twins d := by
    rw [mem_store_byId h, mem_store_byClientId h named free, h.twins]
    refine or_congr_left ?_
    simp only [Prod.mk.injEq]
    constructor
    · rintro ⟨_, rfl⟩
      exact ⟨rfl, rfl⟩
    · rintro ⟨_, rfl⟩
      exact ⟨rfl, rfl⟩

end ClientRegistry.Registry
