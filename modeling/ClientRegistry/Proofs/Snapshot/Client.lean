import ClientRegistry.Proofs.Client.Consistent
import ClientRegistry.Proofs.Value.Order
import ClientRegistry.Proofs.Client.Storable
import ClientRegistry.Proofs.Snapshot.Validation
import ClientRegistry.Proofs.Text.Order
import Mathlib.Data.List.Nodup

/-! Snapshots and the clients that they describe. Taking the snapshot of a client sorts its sets,
and a listed snapshot is restored to the client that it describes. -/

namespace ClientRegistry.Snapshot

/-- The client that a snapshot describes, its sets in the order of the snapshot. -/
def client (s : Snapshot) : Client where
  id := .text s.id
  clientId := .text s.clientId
  issuedAt := optional .moment s.issuedAt
  secret := optional .text s.secret
  secretExpiresAt := optional .moment s.secretExpiresAt
  name := .text s.name
  methods := s.authMethods.map fun n => .token .authMethod (.text n)
  grants := s.grantTypes.map fun n => .token .grantType (.text n)
  redirectUris := s.redirectUris.map .text
  scopes := s.scopes.map .text
  clientSettings := s.clientSettings
  tokenSettings := s.tokenSettings

/-- The snapshot with its lists in order. -/
def sorted (s : Snapshot) : Snapshot :=
  { s with
    authMethods := Listing.sortTexts s.authMethods
    grantTypes := Listing.sortTexts s.grantTypes
    redirectUris := Listing.sortTexts s.redirectUris
    scopes := Listing.sortTexts s.scopes }

/-- Snapshots of clients: what they describe is accepted, tokens have names, and no list repeats
an entry. -/
structure Listed (s : Snapshot) : Prop where
  accepted : s.client.Accepted
  methods : ∀ n ∈ s.authMethods, n ≠ ""
  grants : ∀ n ∈ s.grantTypes, n ≠ ""
  methodsOnce : s.authMethods.Nodup
  grantsOnce : s.grantTypes.Nodup
  redirectUrisOnce : s.redirectUris.Nodup
  scopesOnce : s.scopes.Nodup

variable {s : Snapshot}

theorem ofClient_client (client : Entries.Keyed s.clientSettings)
    (token : Entries.Keyed s.tokenSettings) : ofClient s.client = .ok s.sorted := by
  have listed : ∀ xs : List String,
      (Value.list ((Listing.sortTexts xs).map .text)) = texts (Listing.sortTexts xs) := fun _ => rfl
  simp only [ofClient, Snapshot.client, Listing.ofTokens, Listing.mapM_tokenName?,
    Listing.ofMembers_texts, bind, Except.bind, listed]
  refine ofInput_eq_ok.mpr ⟨?_, ?_, ?_, ?_, ?_, ?_, ?_, ?_, ?_, ?_, ?_, ?_⟩
  · simp [required, given, checkText, sorted]
  · simp [required, given, checkText, sorted]
  · simp [defaulted, given, checkMoment_optional, sorted]
  · simp [defaulted, given, checkOptionalText_optional, sorted]
  · simp [defaulted, given, checkMoment_optional, sorted]
  · simp [required, given, checkText, sorted]
  · simp [defaulted, given, checkTexts_texts, sorted]
  · simp [defaulted, given, checkTexts_texts, sorted]
  · simp [defaulted, given, checkTexts_texts, sorted]
  · simp [defaulted, given, checkTexts_texts, sorted]
  · simp [defaulted, given, checkOptions_keyed _ client, sorted]
  · simp [defaulted, given, checkOptions_keyed _ token, sorted]

theorem exists_optional {α : Type} {f : α → Value} {v : Value} (h : v = .null ∨ ∃ a, v = f a) :
    ∃ o, v = optional f o := by
  rcases h with rfl | ⟨a, rfl⟩
  · exact ⟨none, rfl⟩
  · exact ⟨some a, rfl⟩

theorem exists_named {kind : TokenKind} {xs : List Value} (h : ∀ v ∈ xs, v.IsNamedToken kind) :
    ∃ names : List String, xs = names.map (fun n => .token kind (.text n)) ∧
      ∀ n ∈ names, n ≠ "" := by
  obtain ⟨names, rfl⟩ := Listing.exists_map fun v member => (h v member).isToken
  refine ⟨names, rfl, fun n member => ?_⟩
  obtain ⟨t, same, ne⟩ := h _ (List.mem_map_of_mem member)
  cases same
  exact ne

/-- A storable client whose fields are of their types is described by a snapshot. -/
theorem exists_client {c : Client} (h : c.Storable) (typed : c.Typed) :
    ∃ s : Snapshot, s.client = c ∧ s.Listed := by
  obtain ⟨i, id⟩ := h.id
  obtain ⟨ci, clientId⟩ := h.clientId
  obtain ⟨issued, issuedAt⟩ := exists_optional typed.issuedAt
  obtain ⟨sec, secret⟩ := exists_optional typed.secret
  obtain ⟨expires, expiry⟩ := exists_optional typed.secretExpiresAt
  obtain ⟨n, name⟩ := typed.name
  obtain ⟨ms, methods, msNamed⟩ := exists_named h.methods
  obtain ⟨gs, grants, gsNamed⟩ := exists_named h.grants
  obtain ⟨us, uris⟩ := Listing.exists_map typed.redirectUris
  obtain ⟨ss, scopes⟩ := Listing.exists_map h.scopes
  have same : Snapshot.client ⟨i, ci, issued, sec, expires, n, ms, gs, us, ss, c.clientSettings,
      c.tokenSettings⟩ = c := by
    cases c
    simp_all [Snapshot.client]
  refine ⟨_, same, same ▸ h.accepted, msNamed, gsNamed, ?_, ?_, ?_, ?_⟩
  · exact List.Nodup.of_map _ (methods ▸ h.methodsOnce)
  · exact List.Nodup.of_map _ (grants ▸ h.grantsOnce)
  · exact List.Nodup.of_map _ (uris ▸ h.redirectUrisOnce)
  · exact List.Nodup.of_map _ (scopes ▸ h.scopesOnce)

theorem mapM_tokenOf {kind : TokenKind} {names : List String} (named : ∀ n ∈ names, n ≠ "") :
    names.mapM (tokenOf kind) = .ok (names.map fun n => .token kind (.text n)) := by
  induction names with
  | nil => rfl
  | cons n rest ih =>
      rw [List.forall_mem_cons] at named
      have present : n.isEmpty = false := by simpa using named.1
      simp [tokenOf, present, ih named.2, bind, Except.bind, pure, Except.pure]

theorem tokensOf_listed {kind : TokenKind} {names : List String} (named : ∀ n ∈ names, n ≠ "")
    (once : names.Nodup) :
    tokensOf kind names = .ok (names.map fun n => .token kind (.text n)) := by
  have tokens : ∀ v ∈ names.map (fun n => Value.token kind (.text n)), v.IsToken kind :=
    List.forall_mem_map.mpr fun n _ => ⟨n, rfl⟩
  have distinct : (names.map fun n => Value.token kind (.text n)).Nodup :=
    once.map fun a b same => by simpa using same
  rw [tokensOf, mapM_tokenOf named, Except.map,
    Value.toMembers_of_nodup (Value.plain_of_tokens tokens) distinct]

theorem toMembers_texts {xs : List String} (once : xs.Nodup) :
    Value.toMembers (xs.map .text) = xs.map .text :=
  Value.toMembers_of_nodup
    (Value.plain_of_texts (List.forall_mem_map.mpr fun t _ => ⟨t, rfl⟩))
    (once.map fun _ _ same => Value.text.inj same)

theorem Listed.toClient (h : s.Listed) : s.toClient.result = .ok s.client := by
  refine Outcome.bind_eq_ok.mpr ⟨Draft.ofClient s.client, ?_, Draft.build_ofClient h.accepted⟩
  have id : (Value.text s.id).truthy = true := h.accepted.id
  simp only [Outcome.ofExcept_result, toDraft, Draft.withId, id, if_true, bind, Except.bind,
    tokensOf_listed h.methods h.methodsOnce, tokensOf_listed h.grants h.grantsOnce,
    toMembers_texts h.redirectUrisOnce, toMembers_texts h.scopesOnce]
  rfl

theorem sorted_client_perm (s : Snapshot) :
    s.sorted.client.methods.Perm s.client.methods ∧ s.sorted.client.grants.Perm s.client.grants ∧
      s.sorted.client.redirectUris.Perm s.client.redirectUris ∧
      s.sorted.client.scopes.Perm s.client.scopes :=
  ⟨(Listing.sortTexts_perm _).map _, (Listing.sortTexts_perm _).map _,
    (Listing.sortTexts_perm _).map _, (Listing.sortTexts_perm _).map _⟩

theorem Listed.sorted (h : s.Listed) : s.sorted.Listed where
  accepted := by
    obtain ⟨methods, grants, uris, scopes⟩ := sorted_client_perm s
    exact h.accepted.relist methods grants uris scopes
  methods n member := h.methods n ((Listing.sortTexts_perm _).mem_iff.mp member)
  grants n member := h.grants n ((Listing.sortTexts_perm _).mem_iff.mp member)
  methodsOnce := (Listing.sortTexts_perm _).nodup_iff.mpr h.methodsOnce
  grantsOnce := (Listing.sortTexts_perm _).nodup_iff.mpr h.grantsOnce
  redirectUrisOnce := (Listing.sortTexts_perm _).nodup_iff.mpr h.redirectUrisOnce
  scopesOnce := (Listing.sortTexts_perm _).nodup_iff.mpr h.scopesOnce

end ClientRegistry.Snapshot
