import ClientRegistry.Proofs.Client.Acceptance
import ClientRegistry.Proofs.Registry.Index

/-! Registries of lists of entries. Once some entries with ids of their own are saved, both indexes
are told by which entries these are; the order in which they came is not seen by any look-up, and
neither is it seen by whether another entry is refused. -/

namespace ClientRegistry.Registry

variable {α : Type} [Registered α] {r s : Registry α} {c : α} {cs ds : List α}

/-- The registry has these entries, and no others, in both of its indexes. -/
structure Lists (r : Registry α) (cs : List α) : Prop where
  indexed : r.Indexed
  entries : ∀ c, (Registered.id c, c) ∈ r.byId ↔ c ∈ cs

theorem empty_lists : Lists (empty : Registry α) [] where
  indexed := empty_indexed
  entries _ := iff_of_false List.not_mem_nil List.not_mem_nil

theorem Lists.mem_byId (h : r.Lists cs) {k : Value} :
    (k, c) ∈ r.byId ↔ k = Registered.id c ∧ c ∈ cs := by
  constructor
  · intro member
    have own : k = Registered.id c := h.indexed.ids _ member
    exact ⟨own, (h.entries c).mp (own ▸ member)⟩
  · rintro ⟨rfl, listed⟩
    exact (h.entries c).mpr listed

theorem Lists.mem_byClientId (h : r.Lists cs) {x : Value} :
    (x, c) ∈ r.byClientId ↔ x = Registered.clientId c ∧ c ∈ cs := by
  rw [← h.entries, h.indexed.twins]
  constructor
  · intro member
    have own : x = Registered.clientId c := h.indexed.clientIds _ member
    exact ⟨own, own ▸ member⟩
  · rintro ⟨rfl, listed⟩
    exact listed

/-- Two registries of the same entries give the same answers. -/
theorem Lists.findById_eq (h : r.Lists cs) (h' : s.Lists ds) (same : cs.Perm ds) (k : Value) :
    r.findById k = s.findById k := by
  have found : Entries.find? r.byId k = Entries.find? s.byId k := by
    refine Option.ext fun d => ?_
    rw [Entries.find?_eq_some h.indexed.byId, Entries.find?_eq_some h'.indexed.byId, h.mem_byId,
      h'.mem_byId, same.mem_iff]
  rw [findById, findById, found]

theorem Lists.findByClientId_eq (h : r.Lists cs) (h' : s.Lists ds) (same : cs.Perm ds)
    (x : Value) : r.findByClientId x = s.findByClientId x := by
  have found : Entries.find? r.byClientId x = Entries.find? s.byClientId x := by
    refine Option.ext fun d => ?_
    rw [Entries.find?_eq_some h.indexed.byClientId, Entries.find?_eq_some h'.indexed.byClientId,
      h.mem_byClientId, h'.mem_byClientId, same.mem_iff]
  rw [findByClientId, findByClientId, found]

theorem Lists.findById_self (h : r.Lists cs) (listed : c ∈ cs) (named : Named c)
    (present : (Registered.id c).truthy = true) :
    r.findById (Registered.id c) = .ok (some c) := by
  have found : Entries.find? r.byId (Registered.id c) = some c :=
    (Entries.find?_eq_some h.indexed.byId).mpr (h.mem_byId.mpr ⟨rfl, listed⟩)
  simp only [findById, present, named.id.hashable, found, Bool.not_true, Bool.false_eq_true,
    if_false]

theorem Lists.findByClientId_self (h : r.Lists cs) (listed : c ∈ cs) (named : Named c)
    (present : (Registered.clientId c).truthy = true) :
    r.findByClientId (Registered.clientId c) = .ok (some c) := by
  have found : Entries.find? r.byClientId (Registered.clientId c) = some c :=
    (Entries.find?_eq_some h.indexed.byClientId).mpr (h.mem_byClientId.mpr ⟨rfl, listed⟩)
  simp only [findByClientId, present, named.clientId.hashable, found, Bool.not_true,
    Bool.false_eq_true, if_false]

theorem Lists.taken_iff (h : r.Lists cs) (named : Named c)
    (new : ∀ d ∈ cs, Registered.id d ≠ Registered.id c) :
    r.taken c = true ↔ ∃ d ∈ cs, Registered.clientId d = Registered.clientId c := by
  rw [Registry.taken_iff h.indexed named]
  constructor
  · rintro ⟨d, member, -⟩
    obtain ⟨same, listed⟩ := h.mem_byClientId.mp member
    exact ⟨d, listed, same.symm⟩
  · rintro ⟨d, listed, same⟩
    exact ⟨d, h.mem_byClientId.mpr ⟨same.symm, listed⟩, new d listed⟩

theorem Lists.save_of_shared (h : r.Lists cs) (named : Named c)
    (new : ∀ d ∈ cs, Registered.id d ≠ Registered.id c)
    (shared : ∃ d ∈ cs, Registered.clientId d = Registered.clientId c) :
    (r.save c).result = .error (.alreadyExists (Registered.clientId c)) := by
  rw [save_result r named, if_pos ((h.taken_iff named new).mpr shared)]

theorem Lists.save_of_free (h : r.Lists cs) (named : Named c)
    (new : ∀ d ∈ cs, Registered.id d ≠ Registered.id c)
    (free : ¬∃ d ∈ cs, Registered.clientId d = Registered.clientId c) :
    (r.save c).result = .ok (r.store c) ∧ (r.store c).Lists (cs ++ [c]) := by
  rw [← h.taken_iff named new, Bool.not_eq_true] at free
  refine ⟨by rw [save_result r named, free]; rfl, store_indexed h.indexed named free, fun d => ?_⟩
  rw [mem_store_byId h.indexed, h.entries, List.mem_append, List.mem_singleton, or_comm]
  simp only [Prod.mk.injEq]
  constructor
  · rintro (⟨listed, -⟩ | ⟨-, rfl⟩)
    · exact .inl listed
    · exact .inr rfl
  · rintro (listed | rfl)
    · exact .inl ⟨listed, new d listed⟩
    · exact .inr ⟨rfl, rfl⟩

theorem go_cons (r : Registry α) (c : α) (rest : List α) :
    (ofList.go r (c :: rest)).result =
      (r.save c).result >>= fun r' => (ofList.go r' rest).result := by
  rw [ofList.go, Outcome.bind_result]

omit [Registered α] in
theorem ne_of_nodup {f : α → Value} (h : ((cs ++ c :: ds).map f).Nodup) :
    ∀ d ∈ cs, f d ≠ f c := by
  intro d listed
  rw [List.map_append, List.map_cons] at h
  exact (List.nodup_append.mp h).2.2 (f d) (List.mem_map_of_mem listed) (f c) List.mem_cons_self

/-- Entries with client ids of their own are all saved. -/
theorem Lists.go_of_distinct (h : r.Lists cs) (named : ∀ d ∈ ds, Named d)
    (ids : ((cs ++ ds).map Registered.id).Nodup)
    (clientIds : ((cs ++ ds).map Registered.clientId).Nodup) :
    ∃ r', (ofList.go r ds).result = .ok r' ∧ r'.Lists (cs ++ ds) := by
  induction ds generalizing r cs with
  | nil => exact ⟨r, rfl, by rwa [List.append_nil]⟩
  | cons d ds ih =>
      rw [List.forall_mem_cons] at named
      have free : ¬∃ e ∈ cs, Registered.clientId e = Registered.clientId d := by
        rintro ⟨e, listed, same⟩
        exact ne_of_nodup clientIds e listed same
      obtain ⟨saved, lists⟩ := h.save_of_free named.1 (ne_of_nodup ids) free
      rw [List.append_cons] at ids clientIds ⊢
      obtain ⟨r', rest, lists'⟩ := ih lists named.2 ids clientIds
      exact ⟨r', by rw [go_cons, saved]; exact rest, lists'⟩

/-- Of entries that share a client id one is refused: the first whose client id is listed. -/
theorem Lists.go_of_shared (h : r.Lists cs) (named : ∀ d ∈ ds, Named d)
    (ids : ((cs ++ ds).map Registered.id).Nodup) (clean : (cs.map Registered.clientId).Nodup)
    (shared : ¬((cs ++ ds).map Registered.clientId).Nodup) :
    ∃ d ∈ ds, (∃ e ∈ cs ++ ds, Registered.id e ≠ Registered.id d ∧
        Registered.clientId e = Registered.clientId d) ∧
      (ofList.go r ds).result = .error (.alreadyExists (Registered.clientId d)) := by
  induction ds generalizing r cs with
  | nil => exact absurd clean (by rwa [List.append_nil] at shared)
  | cons d ds ih =>
      rw [List.forall_mem_cons] at named
      have new := ne_of_nodup ids
      by_cases taken : ∃ e ∈ cs, Registered.clientId e = Registered.clientId d
      · have refused := h.save_of_shared named.1 new taken
        obtain ⟨e, listed, same⟩ := taken
        exact ⟨d, List.mem_cons_self, ⟨e, List.mem_append_left _ listed, new e listed, same⟩,
          by rw [go_cons, refused]; rfl⟩
      · obtain ⟨saved, lists⟩ := h.save_of_free named.1 new taken
        have clean' : ((cs ++ [d]).map Registered.clientId).Nodup := by
          rw [List.map_append, List.map_singleton]
          refine List.nodup_append.mpr ⟨clean, by simp, ?_⟩
          rintro x member y single rfl
          obtain ⟨e, listed, same⟩ := List.mem_map.mp member
          exact taken ⟨e, listed, same.trans (List.mem_singleton.mp single)⟩
        rw [List.append_cons] at ids shared ⊢
        obtain ⟨f, member, twin, rest⟩ := ih lists named.2 ids clean' shared
        exact ⟨f, List.mem_cons_of_mem d member, twin, by rw [go_cons, saved]; exact rest⟩

theorem ofList_of_distinct (named : ∀ c ∈ cs, Named c) (ids : (cs.map Registered.id).Nodup)
    (clientIds : (cs.map Registered.clientId).Nodup) :
    ∃ r, (ofList cs).result = .ok r ∧ r.Lists cs :=
  empty_lists.go_of_distinct named ids clientIds

theorem ofList_of_shared (named : ∀ c ∈ cs, Named c) (ids : (cs.map Registered.id).Nodup)
    (shared : ¬(cs.map Registered.clientId).Nodup) :
    ∃ c ∈ cs, (∃ d ∈ cs, Registered.id d ≠ Registered.id c ∧
        Registered.clientId d = Registered.clientId c) ∧
      (ofList cs).result = .error (.alreadyExists (Registered.clientId c)) :=
  empty_lists.go_of_shared named ids List.nodup_nil shared

/-- Clients with ids of their own are put into a registry in any order alike. If their client ids
differ, every order gives a registry that has each of them, and all these registries answer every
look-up alike; if two of them share a client id, every order is refused for such a client id. -/
theorem ofList_rearranged (cs : List Client) (clients : ∀ c ∈ cs, c.Accepted ∧ Named c)
    (ids : (cs.map Client.id).Nodup) :
    ((cs.map Client.clientId).Nodup → ∀ ds, ds.Perm cs → ∃ r, (ofList ds).result = .ok r ∧
        (∀ c ∈ cs, r.findById c.id = .ok (some c) ∧
          r.findByClientId c.clientId = .ok (some c)) ∧
        ∀ es s, es.Perm cs → (ofList es).result = .ok s →
          (∀ k, r.findById k = s.findById k) ∧ ∀ x, r.findByClientId x = s.findByClientId x) ∧
      (¬(cs.map Client.clientId).Nodup → ∀ ds, ds.Perm cs →
        ∃ c ∈ cs, (∃ d ∈ cs, d.id ≠ c.id ∧ d.clientId = c.clientId) ∧
          (ofList ds).result = .error (.alreadyExists c.clientId)) := by
  have named : ∀ {ds : List Client}, ds.Perm cs → ∀ c ∈ ds, Named c :=
    fun perm c member => (clients c (perm.mem_iff.mp member)).2
  have ids' : ∀ {ds : List Client}, ds.Perm cs → (ds.map Registered.id).Nodup :=
    fun perm => (perm.map Client.id).nodup_iff.mpr ids
  constructor
  · intro distinct ds perm
    have lists : ∀ {es : List Client}, es.Perm cs →
        ∃ r, (ofList es).result = .ok r ∧ r.Lists es := fun perm =>
      ofList_of_distinct (named perm) (ids' perm)
        ((perm.map Client.clientId).nodup_iff.mpr distinct)
    obtain ⟨r, made, listed⟩ := lists perm
    refine ⟨r, made, fun c member => ?_, fun es s perm' made' => ?_⟩
    · have member' := perm.mem_iff.mpr member
      obtain ⟨accepted, texts⟩ := clients c member
      exact ⟨listed.findById_self member' texts accepted.id,
        listed.findByClientId_self member' texts accepted.clientId⟩
    · obtain ⟨t, other, listed'⟩ := lists perm'
      rw [made'] at other
      cases other
      have same := perm.trans perm'.symm
      exact ⟨listed.findById_eq listed' same, listed.findByClientId_eq listed' same⟩
  · intro shared ds perm
    have shared' : ¬(ds.map Registered.clientId).Nodup :=
      fun distinct => shared ((perm.map Client.clientId).nodup_iff.mp distinct)
    obtain ⟨c, member, ⟨d, member', twin⟩, refused⟩ :=
      ofList_of_shared (named perm) (ids' perm) shared'
    exact ⟨c, perm.mem_iff.mp member, ⟨d, perm.mem_iff.mp member', twin⟩, refused⟩

def booth (id clientId : String) : Client :=
  ⟨.text id, .text clientId, .null, .null, .null, .text "Booth", [clientSecretBasic],
    [.token .grantType (.text "client_credentials")], [], [.text "read"], [], []⟩

theorem booth_accepted {id clientId : String} (named : id ≠ "") (named' : clientId ≠ "") :
    (booth id clientId).Accepted where
  id := by simpa [booth, Value.truthy] using named
  clientId := by simpa [booth, Value.truthy] using named'
  name := rfl
  grants := by simp [booth]
  methods := by simp [booth]
  redirects code := by
    have other : authorizationCode.memberOf
        [.token .grantType (.text "client_credentials")] = false := by decide +kernel
    rw [booth, other] at code
    cases code
  scopes := List.forall_mem_singleton.mpr rfl
  redirectUris _ member := absurd member List.not_mem_nil

/-- Three clients that differ in their client ids, and three of which two do not. -/
def apart : List Client := [booth "a" "x", booth "b" "y", booth "c" "z"]

def alike : List Client := [booth "a" "x", booth "b" "y", booth "c" "x"]

theorem booths_rearranged :
    (∀ ds, ds.Perm apart → ∃ r, (ofList ds).result = .ok r ∧
        (∀ c ∈ apart, r.findById c.id = .ok (some c) ∧
          r.findByClientId c.clientId = .ok (some c)) ∧
        ∀ es s, es.Perm apart → (ofList es).result = .ok s →
          (∀ k, r.findById k = s.findById k) ∧ ∀ x, r.findByClientId x = s.findByClientId x) ∧
      ∀ ds, ds.Perm alike → ∃ c ∈ alike, (∃ d ∈ alike, d.id ≠ c.id ∧ d.clientId = c.clientId) ∧
        (ofList ds).result = .error (.alreadyExists c.clientId) := by
  have named : ∀ id clientId, Named (booth id clientId) := fun id clientId =>
    ⟨⟨id, rfl⟩, ⟨clientId, rfl⟩⟩
  constructor
  · refine (ofList_rearranged apart ?_ ?_).1 ?_
    · simp [apart, booth_accepted, named]
    · simp [apart, booth]
    · simp [apart, booth]
  · refine (ofList_rearranged alike ?_ ?_).2 ?_
    · simp [alike, booth_accepted, named]
    · simp [alike, booth]
    · simp [alike, booth]

end ClientRegistry.Registry
