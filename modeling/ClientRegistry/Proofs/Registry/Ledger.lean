import ClientRegistry.Proofs.Registry.Index
import ClientRegistry.Workspace.Registries

/-! The registry as a map. A ledger keeps for each id the entry of the last accepted save; after
any history of saves the registry answers as the ledger tells. -/

namespace ClientRegistry

variable {α : Type} [Registered α]

/-- For each id its entry. -/
abbrev Ledger (α : Type) := Value → Option α

namespace Ledger

def empty : Ledger α := fun _ => none

/-- An accepted save: the entry takes the place of the one with its id. -/
def enter (M : Ledger α) (c : α) : Ledger α :=
  fun k => if k.same (Registered.id c) then some c else M k

/-- An entry of another id has the client id of an entry. -/
def Conflict (M : Ledger α) (c : α) : Prop :=
  ∃ k d, M k = some d ∧ Registered.id d ≠ Registered.id c ∧
    Registered.clientId d = Registered.clientId c

/-- The one entry that has a client id. -/
structure Owner (M : Ledger α) (x : Value) (d : α) : Prop where
  entered : M (Registered.id d) = some d
  clientId : Registered.clientId d = x
  only : ∀ k e, M k = some e → Registered.clientId e = x → e = d

end Ledger

/-- A registry beside the ledger of what it accepted. -/
structure History (α : Type) where
  registry : Registry α
  ledger : Ledger α

namespace History

def empty : History α := ⟨.empty, .empty⟩

/-- Saves an entry; a refused save changes neither. -/
def offer (s : History α) (c : α) : History α :=
  match (s.registry.save c).result with
  | .ok r => ⟨r, s.ledger.enter c⟩
  | .error _ => s

def ofSaves (cs : List α) : History α := cs.foldl offer empty

/-- What the next save does and what is found, as the ledger tells it. -/
structure Faithful (s : History α) : Prop where
  refused : ∀ c, Registry.Named c → ((s.registry.save c).result =
    .error (.alreadyExists (Registered.clientId c)) ↔ s.ledger.Conflict c)
  kept : ∀ c, Registry.Named c → s.ledger.Conflict c → s.offer c = s
  stored : ∀ c, Registry.Named c → ¬s.ledger.Conflict c →
    (s.registry.save c).result = .ok (s.registry.store c) ∧
      s.offer c = ⟨s.registry.store c, s.ledger.enter c⟩
  byId : ∀ k, k.truthy = true → k.hashable = true → s.registry.findById k = .ok (s.ledger k)
  byClientId : ∀ x, x.truthy = true → x.hashable = true →
    (∃ d, s.ledger.Owner x d ∧ s.registry.findByClientId x = .ok (some d)) ∨
      (∀ k d, s.ledger k = some d → Registered.clientId d ≠ x) ∧
        s.registry.findByClientId x = .ok none
  moved : ∀ c p, Registry.Named c → ¬s.ledger.Conflict c → s.ledger (Registered.id c) = some p →
    Registered.clientId p ≠ Registered.clientId c → (Registered.clientId p).truthy = true →
    (s.offer c).registry.findByClientId (Registered.clientId p) = .ok none ∧
      ∀ d, Registry.Named d → Registered.clientId d = Registered.clientId p →
        ((s.offer c).registry.save d).result = .ok ((s.offer c).registry.store d)

/-- The invariant of a history: the indexes mirror each other, and the ledger is one of them. -/
structure Coherent (s : History α) : Prop where
  indexed : s.registry.Indexed
  ledger : ∀ k, s.ledger k = Entries.find? s.registry.byId k

variable {s : History α} {c : α}

theorem empty_coherent : Coherent (empty : History α) :=
  ⟨Registry.empty_indexed, fun _ => rfl⟩

theorem Coherent.ledger_iff (h : s.Coherent) {k : Value} {d : α} :
    s.ledger k = some d ↔ (k, d) ∈ s.registry.byId := by
  rw [h.ledger, Entries.find?_eq_some h.indexed.byId]

/-- An entry of the ledger is listed under its client id. -/
theorem Coherent.listed (h : s.Coherent) {k : Value} {d : α} (entered : s.ledger k = some d) :
    (Registered.clientId d, d) ∈ s.registry.byClientId :=
  h.indexed.mem_byClientId (h.ledger_iff.mp entered)

theorem Coherent.entered (h : s.Coherent) {x : Value} {d : α}
    (listed : (x, d) ∈ s.registry.byClientId) : s.ledger (Registered.id d) = some d :=
  h.ledger_iff.mpr (h.indexed.mem_byId listed)

theorem Coherent.conflict_iff (h : s.Coherent) (named : Registry.Named c) :
    s.ledger.Conflict c ↔ s.registry.taken c = true := by
  rw [Registry.taken_iff h.indexed named]
  constructor
  · rintro ⟨k, d, entered, ne, same⟩
    exact ⟨d, same ▸ h.listed entered, ne⟩
  · rintro ⟨d, listed, ne⟩
    exact ⟨Registered.id d, d, h.entered listed, ne, (h.indexed.clientIds _ listed).symm⟩

theorem Coherent.offer_of_conflict (h : s.Coherent) (named : Registry.Named c)
    (conflict : s.ledger.Conflict c) : s.offer c = s := by
  rw [h.conflict_iff named] at conflict
  simp only [offer, Registry.save_result s.registry named, conflict, if_true]

theorem Coherent.save_of_free (h : s.Coherent) (named : Registry.Named c)
    (free : ¬s.ledger.Conflict c) : (s.registry.save c).result = .ok (s.registry.store c) := by
  rw [h.conflict_iff named] at free
  rw [Registry.save_result s.registry named, if_neg free]

theorem Coherent.offer_of_free (h : s.Coherent) (named : Registry.Named c)
    (free : ¬s.ledger.Conflict c) : s.offer c = ⟨s.registry.store c, s.ledger.enter c⟩ := by
  simp only [History.offer, h.save_of_free named free]

theorem Coherent.offer (h : s.Coherent) (named : Registry.Named c) : (s.offer c).Coherent := by
  by_cases conflict : s.ledger.Conflict c
  · rw [h.offer_of_conflict named conflict]
    exact h
  · rw [h.offer_of_free named conflict]
    rw [h.conflict_iff named, Bool.not_eq_true] at conflict
    refine ⟨Registry.store_indexed h.indexed named conflict, fun k => ?_⟩
    simp only [Ledger.enter, Registry.store, Entries.find?_put named.id, h.ledger]

theorem Coherent.foldl (h : s.Coherent) {cs : List α} (named : ∀ c ∈ cs, Registry.Named c) :
    (cs.foldl History.offer s).Coherent := by
  induction cs generalizing s with
  | nil => exact h
  | cons c rest ih =>
      rw [List.forall_mem_cons] at named
      exact ih (h.offer named.1) named.2

theorem Coherent.findByClientId (h : s.Coherent) {x : Value} (present : x.truthy = true)
    (hashable : x.hashable = true) :
    (∃ d, s.ledger.Owner x d ∧ s.registry.findByClientId x = .ok (some d)) ∨
      (∀ k d, s.ledger k = some d → Registered.clientId d ≠ x) ∧
        s.registry.findByClientId x = .ok none := by
  simp only [Registry.findByClientId, present, hashable, Bool.not_true, Bool.false_eq_true,
    if_false]
  cases found : Entries.find? s.registry.byClientId x with
  | none =>
      have absent := (Entries.find?_eq_none h.indexed.byClientId).mp found
      exact .inr ⟨fun k d entered same => absent d (same ▸ h.listed entered), rfl⟩
  | some d =>
      have listed := (Entries.find?_eq_some h.indexed.byClientId).mp found
      refine .inl ⟨d, ⟨h.entered listed, (h.indexed.clientIds _ listed).symm, ?_⟩, rfl⟩
      exact fun k e entered same => h.indexed.byClientId.unique (same ▸ h.listed entered) listed

/-- After an entry has moved to another client id, no entry has the old one. -/
theorem Coherent.vacated (h : s.Coherent) {p : α} (named : Registry.Named c)
    (free : ¬s.ledger.Conflict c) (previous : s.ledger (Registered.id c) = some p)
    (moves : Registered.clientId p ≠ Registered.clientId c) {k : Value} {d : α}
    (entered : (s.offer c).ledger k = some d) : Registered.clientId d ≠ Registered.clientId p := by
  intro same
  rw [h.offer_of_free named free] at entered
  simp only [Ledger.enter] at entered
  split at entered
  · cases entered
    exact moves same.symm
  · rename_i other
    have eq : d = p := h.indexed.byClientId.unique (same ▸ h.listed entered) (h.listed previous)
    have ids := h.indexed.ids _ (h.ledger_iff.mp entered)
    have ids' := h.indexed.ids _ (h.ledger_iff.mp previous)
    exact other (named.id.iff_same.mpr (ids.trans (eq ▸ ids'.symm)))

theorem Coherent.faithful (h : s.Coherent) : s.Faithful where
  refused c named := by
    rw [h.conflict_iff named, Registry.save_result s.registry named]
    cases s.registry.taken c <;> simp
  kept _ named conflict := h.offer_of_conflict named conflict
  stored _ named free := ⟨h.save_of_free named free, h.offer_of_free named free⟩
  byId k present hashable := by
    simp only [Registry.findById, present, hashable, Bool.not_true, Bool.false_eq_true, if_false,
      h.ledger]
  byClientId _ present hashable := h.findByClientId present hashable
  moved c p named free previous moves present := by
    have coherent := h.offer named
    have vacated := fun k d => h.vacated named free previous moves (k := k) (d := d)
    have hashable := (h.indexed.named (h.ledger_iff.mp previous)).clientId.hashable
    constructor
    · rcases coherent.findByClientId present hashable with ⟨d, owner, _⟩ | ⟨_, found⟩
      · exact absurd owner.clientId (vacated _ d owner.entered)
      · exact found
    · intro d named' same
      refine coherent.save_of_free named' ?_
      rintro ⟨k, e, entered, _, same'⟩
      exact vacated k e entered (same'.trans same)

/-- After any saves of entries that texts name, refused ones among them, the registry does and
finds what the ledger of the accepted saves tells. -/
theorem saves_faithful (cs : List α) (named : ∀ c ∈ cs, Registry.Named c) :
    (ofSaves cs).Faithful :=
  (empty_coherent.foldl named).faithful

def sample (id clientId name : String) : Client :=
  ⟨.text id, .text clientId, .null, .null, .null, .text name, [clientSecretBasic],
    [.token .grantType (.text "client_credentials")], [], [], [], []⟩

/-- A client id is left, refused while it is in use, and taken over. -/
def moves : List Client :=
  [sample "a" "x" "first", sample "a" "y" "moved", sample "b" "y" "refused",
    sample "b" "x" "heir", sample "c" "x" "refused"]

theorem moves_faithful :
    (ofSaves moves).Faithful ∧
      (ofSaves moves).ledger (.text "a") = some (sample "a" "y" "moved") ∧
      (ofSaves moves).ledger (.text "b") = some (sample "b" "x" "heir") ∧
      (ofSaves moves).ledger (.text "c") = none :=
  ⟨saves_faithful moves (by decide), by with_unfolding_all rfl, by with_unfolding_all rfl,
    by with_unfolding_all rfl⟩

end History

namespace Workspace

theorem after_fails {α : Type} {w : Workspace} {r : Except Fault α} {f : α → Turn} {e : Fault}
    (each : ∀ a, (f a).display = .error e → (f a).workspace = w)
    (fails : (w.after r f).display = .error e) : (w.after r f).workspace = w := by
  cases r with
  | error _ => rfl
  | ok a => exact each a fails

/-- A refused save leaves the whole workspace as it was, the indexes of the registry included. -/
theorem save_refused {w : Workspace} {on client : String} {x : Value}
    (refused : (w.save on client).display = .error (.alreadyExists x)) :
    (w.save on client).workspace = w := by
  refine after_fails (fun h => after_fails fun o => ?_) refused
  cases o with
  | registry r =>
      refine after_fails ?_
      intro c fails
      simp only [settle] at fails ⊢
      cases saved : (r.save c).result with
      | error e => simp only [Turn.failLogged]
      | ok r' =>
          simp only [saved, Turn.ofObject, object?] at fails
          split at fails
          · cases fails
          · rename_i failed
            split at failed
            · cases failed
            · cases failed
              cases fails
  | _ => exact fun _ => rfl

end Workspace

end ClientRegistry
