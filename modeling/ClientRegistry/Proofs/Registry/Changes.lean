import ClientRegistry.Proofs.Registry.Ledger

/-! A save, change by change. In the middle of a save the two indexes differ: the client id of the
entry that is replaced is freed first, which fails if it is not listed, and the new entry is
listed in one index before it is in the other. After every save they mirror each other again. -/

namespace ClientRegistry.Registry

variable {α : Type} [Registered α] {r : Registry α} {c : α}

/-- One change of an index. -/
inductive Change (α : Type) where
  | free (clientId : Value)
  | byId (c : α)
  | byClientId (c : α)

/-- A client id can only be freed if it is listed. -/
def change (r : Registry α) : Change α → Except Fault (Registry α)
  | .free x =>
    if Entries.contains r.byClientId x then
      .ok { r with byClientId := Entries.erase r.byClientId x }
    else .error .missingKey
  | .byId c => .ok { r with byId := Entries.put r.byId (Registered.id c) c }
  | .byClientId c => .ok { r with byClientId := Entries.put r.byClientId (Registered.clientId c) c }

/-- Makes changes up to the first that fails. Those made before it stay. -/
def changeAll (r : Registry α) : List (Change α) → Registry α × Except Fault Unit
  | [] => (r, .ok ())
  | c :: cs =>
    match r.change c with
    | .ok r' => r'.changeAll cs
    | .error e => (r, .error e)

/-- The changes of a save, in their order. -/
def changes (r : Registry α) (c : α) : List (Change α) :=
  match Entries.find? r.byId (Registered.id c) with
  | some previous => [.free (Registered.clientId previous), .byId c, .byClientId c]
  | none => [.byId c, .byClientId c]

/-- A save that changes the indexes in place, with the checks of `save`. -/
def saveInPlace (r : Registry α) (c : α) : Registry α × Except Fault Unit :=
  if !(Registered.clientId c).hashable then (r, .error .badType)
  else if r.taken c then (r, .error (.alreadyExists (Registered.clientId c)))
  else if !(Registered.id c).hashable then (r, .error .badType)
  else r.changeAll (r.changes c)

/-- The client id of what is listed under an id is listed too, so that freeing it does not fail. -/
theorem change_free (h : r.Indexed) {k : Value} {d : α} (listed : Entries.find? r.byId k = some d) :
    r.change (.free (Registered.clientId d)) =
      .ok { r with byClientId := Entries.erase r.byClientId (Registered.clientId d) } := by
  have twin := h.mem_byClientId ((Entries.find?_eq_some h.byId).mp listed)
  have self : (Registered.clientId d).same (Registered.clientId d) = true :=
    (h.byClientId.texts _ twin).same_iff.mpr rfl
  have present : Entries.contains r.byClientId (Registered.clientId d) = true :=
    List.any_eq_true.mpr ⟨_, twin, self⟩
  rw [change, if_pos present]

theorem changeAll_changes (h : r.Indexed) (c : α) :
    r.changeAll (r.changes c) = (r.store c, .ok ()) := by
  unfold changes store
  cases listed : Entries.find? r.byId (Registered.id c) with
  | none => rfl
  | some previous =>
      have freed := change_free h listed
      simp only [changeAll, freed]
      rfl

/-- In place, a save does what `save` does, and a refused one leaves the indexes as they were. -/
theorem saveInPlace_eq (h : r.Indexed) (c : α) :
    r.saveInPlace c =
      match (r.save c).result with
      | .ok r' => (r', .ok ())
      | .error e => (r, .error e) := by
  unfold saveInPlace save
  rw [changeAll_changes h]
  split
  · rfl
  · split
    · rfl
    · split <;> rfl

theorem save_ne_missingKey (r : Registry α) (c : α) :
    (r.save c).result ≠ .error .missingKey := by
  unfold save
  split
  · exact nofun
  · split
    · exact nofun
    · split <;> exact nofun

theorem saveInPlace_ne_missingKey (h : r.Indexed) (c : α) :
    (r.saveInPlace c).2 ≠ .error .missingKey := by
  rw [saveInPlace_eq h]
  have other := save_ne_missingKey r c
  cases outcome : (r.save c).result with
  | ok _ => exact nofun
  | error e =>
      intro fails
      cases fails
      exact other outcome

/-- Each index has one entry for each of its keys, and both hold the same registrations. -/
structure Mirrored (r : Registry α) : Prop where
  keys : (r.byId.map Prod.fst).Nodup
  clientKeys : (r.byClientId.map Prod.fst).Nodup
  ids : ∀ e ∈ r.byId, e.1 = Registered.id e.2
  clientIds : ∀ e ∈ r.byClientId, e.1 = Registered.clientId e.2
  same : ∀ d, d ∈ r.byId.map Prod.snd ↔ d ∈ r.byClientId.map Prod.snd
  size : r.byId.length = r.byClientId.length
  held : ∀ d ∈ r.byId.map Prod.snd, ∀ e ∈ r.byId.map Prod.snd,
    Registered.clientId d = Registered.clientId e → d = e

theorem Indexed.mirrored (h : r.Indexed) : r.Mirrored := by
  have same : ∀ d, d ∈ r.byId.map Prod.snd ↔ d ∈ r.byClientId.map Prod.snd := fun d => by
    rw [Entries.mem_values h.ids, Entries.mem_values h.clientIds, h.twins]
  have perm : (r.byId.map Prod.snd).Perm (r.byClientId.map Prod.snd) :=
    (List.perm_ext_iff_of_nodup (Entries.nodup_values h.ids h.byId.distinct)
      (Entries.nodup_values h.clientIds h.byClientId.distinct)).mpr same
  refine ⟨h.byId.distinct, h.byClientId.distinct, h.ids, h.clientIds, same, ?_, ?_⟩
  · simpa only [List.length_map] using perm.length_eq
  · intro d listed e listed' shared
    rw [same, Entries.mem_values h.clientIds] at listed listed'
    rw [shared] at listed
    exact h.byClientId.unique listed listed'

/-- The registry after saves made one after another, whether they go through or not. -/
def saveAllInPlace (r : Registry α) (cs : List α) : Registry α :=
  cs.foldl (fun r c => (r.saveInPlace c).1) r

theorem saveInPlace_fst (h : r.Indexed) (c : α) (M : Ledger α) :
    (r.saveInPlace c).1 = (History.offer ⟨r, M⟩ c).registry := by
  rw [saveInPlace_eq h, History.offer]
  cases (r.save c).result with
  | ok _ => rfl
  | error _ => rfl

theorem saveAllInPlace_eq {s : History α} (h : s.Coherent) {cs : List α}
    (named : ∀ c ∈ cs, Named c) :
    s.registry.saveAllInPlace cs = (cs.foldl History.offer s).registry := by
  induction cs generalizing s with
  | nil => rfl
  | cons c rest ih =>
      rw [List.forall_mem_cons] at named
      have first := saveInPlace_fst h.indexed c s.ledger
      have others := ih (h.offer named.1) named.2
      rw [saveAllInPlace, List.foldl_cons, first]
      exact others

/-- After any saves of entries that texts name, refused ones among them, the two indexes mirror
each other, and the next save does in place what `save` does: freeing the client id of the entry
that it replaces never fails. -/
theorem saves_mirrored (cs : List α) (named : ∀ c ∈ cs, Named c) :
    saveAllInPlace empty cs = (History.ofSaves cs).registry ∧
    (saveAllInPlace empty cs).Mirrored ∧
    ∀ c, ((saveAllInPlace empty cs).saveInPlace c).2 ≠ .error .missingKey ∧
      (saveAllInPlace empty cs).saveInPlace c =
        match ((saveAllInPlace empty cs).save c).result with
        | .ok r => (r, .ok ())
        | .error e => (saveAllInPlace empty cs, .error e) := by
  have run : saveAllInPlace empty cs = (History.ofSaves cs).registry :=
    saveAllInPlace_eq History.empty_coherent named
  have indexed : (saveAllInPlace empty cs).Indexed := by
    rw [run]
    exact (History.empty_coherent.foldl named).indexed
  refine ⟨run, indexed.mirrored, fun c => ?_⟩
  exact ⟨saveInPlace_ne_missingKey indexed c, saveInPlace_eq indexed c⟩

/-- Two entries change their client ids for each other's, by way of a third one. -/
def swap : List Client :=
  [History.sample "a" "x" "first", History.sample "b" "y" "second",
    History.sample "a" "y" "refused", History.sample "a" "z" "aside",
    History.sample "b" "x" "moved", History.sample "a" "y" "moved",
    History.sample "a" "y" "renamed"]

theorem swap_mirrored :
    (saveAllInPlace empty swap).Mirrored ∧
    (saveAllInPlace empty swap).byId =
      [(.text "a", History.sample "a" "y" "renamed"), (.text "b", History.sample "b" "x" "moved")] ∧
    (saveAllInPlace empty swap).byClientId =
      [(.text "x", History.sample "b" "x" "moved"), (.text "y", History.sample "a" "y" "renamed")] ∧
    ∀ c, ((saveAllInPlace empty swap).saveInPlace c).2 ≠ .error .missingKey := by
  have named : ∀ c ∈ swap, Named c := by decide
  have mirrored := saves_mirrored swap named
  refine ⟨mirrored.2.1, ?_, ?_, fun c => (mirrored.2.2 c).1⟩
  · with_unfolding_all rfl
  · with_unfolding_all rfl

end ClientRegistry.Registry
