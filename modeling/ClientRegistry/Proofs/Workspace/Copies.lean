import ClientRegistry.Proofs.Value.Fresh
import ClientRegistry.Proofs.Workspace.Sound

/-! Copies of objects. A deep copy has the fields of its original, and a copy by way of bytes has
them too unless it holds a not-a-number, which no typed client does. -/

namespace ClientRegistry.Workspace

variable {w : Workspace}

theorem listedClients_sound (h : w.Sound) (r : Registry Listed) :
    ∀ p ∈ w.listedClients r, p.2.client.Sound := by
  intro p member
  obtain ⟨i, _, found⟩ := List.mem_filterMap.mp member
  obtain ⟨c, listed, same⟩ := Option.map_eq_some_iff.mp found
  cases same
  simp only [clientAt?] at listed
  split at listed
  · rename_i c' present
    cases listed
    exact h _ (List.mem_of_getElem? present)
  · cases listed

theorem Sound.insertRegistry (h : w.Sound) {clients : List (Handle × Object)}
    (hc : ∀ p ∈ clients, p.2.Sound) (r : Registry Listed) :
    (w.insertRegistry clients r).1.Sound := by
  refine Sound.insert (w := { w with objects := w.objects ++ clients.unzip.2 }) ?_ trivial
  intro o member
  simp only [List.unzip_eq_map, List.mem_append, List.mem_map] at member
  rcases member with old | ⟨p, listed, rfl⟩
  · exact h o old
  · exact hc p listed

theorem relocated_sound {f : Address → Address} {clients : List (Handle × HeldClient)}
    (hc : ∀ p ∈ clients, p.2.client.Sound) : ∀ p ∈ relocated f clients, p.2.Sound := by
  intro p member
  obtain ⟨c, listed, rfl⟩ := List.mem_map.mp member
  exact hc c listed

theorem Object.Sound.relocate {o : Object} (h : o.Sound) (f : Address → Address) :
    (o.relocate f).Sound := by
  cases o with
  | client c => exact h
  | _ => trivial

theorem copyObject_sound (h : w.Sound) {o : Object} (ho : o.Sound) : (w.copyObject o).1.Sound := by
  have h' : ({ w with store := (w.store.copied (w.partsOf o)).1 } : Workspace).Sound :=
    h.of_objects rfl
  cases o with
  | registry r => exact h'.insertRegistry (relocated_sound (listedClients_sound h r)) r
  | _ => exact h'.insert (ho.relocate _)

theorem deepCopyOf_sound (h : w.Sound) (i : Handle) {o : Object} (ho : o.Sound) :
    (w.deepCopyOf i o).1.Sound := by
  simp only [deepCopyOf]
  split
  · split
    · exact h
    · exact copyObject_sound h ho
  · split
    · exact h
    · exact copyObject_sound h ho
  · exact copyObject_sound h ho

/-- A client of typed fields has no marks that could change. -/
theorem HeldClient.client_freshen {c : HeldClient} {next : Nat}
    (typed : (c.freshen next).1.client.Typed) : (c.freshen next).1.client = c.client := by
  have id := Value.freshen_eq_of_atom typed.id.atom
  have clientId := Value.freshen_eq_of_atom typed.clientId.atom
  have issuedAt := Value.freshen_eq_of_atom (Value.atom_of_optionalMoment typed.issuedAt)
  have secret := Value.freshen_eq_of_atom (Value.atom_of_optionalText typed.secret)
  have expiry := Value.freshen_eq_of_atom (Value.atom_of_optionalMoment typed.secretExpiresAt)
  have name := Value.freshen_eq_of_atom typed.name.atom
  have methods := Value.freshenList_eq_of_atoms fun v hv => (typed.methods v hv).atom
  have grants := Value.freshenList_eq_of_atoms fun v hv => (typed.grants v hv).atom
  have uris := Value.freshenList_eq_of_atoms fun v hv => (typed.redirectUris v hv).atom
  have scopes := Value.freshenList_eq_of_atoms fun v hv => (typed.scopes v hv).atom
  simp only [freshen, id, clientId, issuedAt, secret, expiry, name, methods, grants, uris, scopes]

theorem HeldClient.sound_freshen {c : HeldClient} (h : c.client.Sound) (next : Nat) :
    (c.freshen next).1.client.Sound := by
  intro typed
  have same := client_freshen typed
  rw [same] at typed ⊢
  exact h typed

theorem freshenClients_sound {clients : List (Handle × HeldClient)}
    (hc : ∀ p ∈ clients, p.2.client.Sound) (next : Nat) :
    ∀ p ∈ (freshenClients next clients).1, p.2.client.Sound := by
  induction clients generalizing next with
  | nil => exact hc
  | cons c rest ih =>
      rw [List.forall_mem_cons] at hc
      simp only [freshenClients, List.forall_mem_cons]
      exact ⟨HeldClient.sound_freshen hc.1 next, ih hc.2 _⟩

theorem pickleOf_sound (h : w.Sound) {o : Object} (ho : o.Sound) : (w.pickleOf o).1.Sound := by
  cases o with
  | value x => exact Sound.insert (h.of_objects rfl) trivial
  | client c => exact Sound.insert (h.of_objects rfl) (HeldClient.sound_freshen (c := _) ho _)
  | registry r =>
      refine Sound.insertRegistry (h.of_objects rfl) (relocated_sound ?_) _
      exact freshenClients_sound (listedClients_sound h r) _
  | _ => exact Sound.insert (h.of_objects rfl) trivial

end ClientRegistry.Workspace
