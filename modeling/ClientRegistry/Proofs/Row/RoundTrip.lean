import ClientRegistry.Proofs.Client.Consistent
import ClientRegistry.Proofs.Value.Order
import ClientRegistry.Proofs.Client.Storable
import ClientRegistry.Proofs.Settings.Bag

/-! Rows hold clients faithfully. Writing a client to a row never fails, and reading the row
back gives the same client, whose sets may list their members in another order. -/

namespace ClientRegistry.Row

theorem entries_list (xs : List Value) : entries (.list xs) = .ok xs := by
  cases xs with
  | nil => rfl
  | cons x rest => rfl

theorem tokens_list {kind : TokenKind} {names : List Value}
    (named : ∀ v ∈ names, v.IsNonemptyText) (once : (names.map (Value.token kind)).Nodup) :
    tokens kind (.list names) = .ok (names.map (.token kind)) := by
  have each : names.mapM (tokenOf kind) = .ok (names.map (.token kind)) := by
    clear once
    induction names with
    | nil => rfl
    | cons n rest ih =>
        rw [List.forall_mem_cons] at named
        obtain ⟨s, rfl, ne⟩ := named.1
        have present : (Value.text s).truthy = true := by simp [Value.truthy, ne]
        simp [tokenOf, present, Value.hashable, ih named.2, bind, Except.bind, pure, Except.pure]
  have tokens : ∀ v ∈ names.map (Value.token kind), v.IsToken kind := by
    intro v member
    obtain ⟨n, hn, rfl⟩ := List.mem_map.mp member
    obtain ⟨s, rfl, _⟩ := named n hn
    exact ⟨s, rfl⟩
  simp only [Row.tokens, entries_list, each, bind, Except.bind]
  rw [Value.toMembers_of_nodup (Value.plain_of_tokens tokens) once]

theorem memberSet_list {xs : List Value} (texts : ∀ v ∈ xs, v.IsText) (once : xs.Nodup) :
    memberSet (.list xs) = .ok xs := by
  have hashable : xs.all Value.hashable = true :=
    List.all_eq_true.mpr fun v member => (texts v member).hashable
  simp only [memberSet, entries_list, hashable, if_true, bind, Except.bind]
  rw [Value.toMembers_of_nodup (Value.plain_of_texts texts) once]

variable {c : Client} {row : Row}

theorem ofClient_eq_ok : ofClient c = .ok row ↔ ∃ methods grants redirectUris scopes,
    Listing.ofTokens c.methods = .ok methods ∧ Listing.ofTokens c.grants = .ok grants ∧
    Listing.ofMembers c.redirectUris = .ok redirectUris ∧ Listing.ofMembers c.scopes = .ok scopes ∧
    row = ⟨c.id, c.clientId, c.issuedAt, c.secret, c.secretExpiresAt, c.name, .list methods,
      .list grants, .list redirectUris, .list scopes, .dict c.clientSettings,
      .dict c.tokenSettings⟩ := by
  simp only [ofClient, except_bind_eq_ok, Except.ok.injEq, Client.fields]
  constructor
  · rintro ⟨methods, hm, grants, hg, uris, hu, scopes, hs, made⟩
    exact ⟨methods, grants, uris, scopes, hm, hg, hu, hs, made.symm⟩
  · rintro ⟨methods, grants, uris, scopes, hm, hg, hu, hs, made⟩
    exact ⟨methods, hm, grants, hg, uris, hu, scopes, hs, made.symm⟩

theorem id_of_ofClient (written : ofClient c = .ok row) : row.id = c.id := by
  obtain ⟨_, _, _, _, _, _, _, _, rfl⟩ := ofClient_eq_ok.mp written
  rfl

theorem clientId_of_ofClient (written : ofClient c = .ok row) : row.clientId = c.clientId := by
  obtain ⟨_, _, _, _, _, _, _, _, rfl⟩ := ofClient_eq_ok.mp written
  rfl

theorem exists_ofClient (h : c.Storable) : ∃ row, ofClient c = .ok row := by
  have texts := fun v member => Validation.isText_of_redirectUriOk (h.accepted.redirectUris v member)
  obtain ⟨methods, hm, _⟩ := Listing.ofTokens_perm fun v member => (h.methods v member).isToken
  obtain ⟨grants, hg, _⟩ := Listing.ofTokens_perm fun v member => (h.grants v member).isToken
  obtain ⟨uris, hu, _⟩ := Listing.ofMembers_perm texts
  obtain ⟨scopes, hs, _⟩ := Listing.ofMembers_perm h.scopes
  exact ⟨_, ofClient_eq_ok.mpr ⟨methods, grants, uris, scopes, hm, hg, hu, hs, rfl⟩⟩

/-- The names under which tokens are listed are read back as these tokens. -/
theorem tokens_listed {kind : TokenKind} {xs names : List Value}
    (named : ∀ v ∈ xs, v.IsNamedToken kind) (once : xs.Nodup)
    (listed : Listing.ofTokens xs = .ok names) :
    tokens kind (.list names) = .ok (names.map (.token kind)) ∧
      (names.map (Value.token kind)).Perm xs := by
  obtain ⟨names', listed', perm⟩ := Listing.ofTokens_perm fun v member => (named v member).isToken
  cases listed.symm.trans listed'
  refine ⟨tokens_list ?_ (perm.nodup_iff.mpr once), perm⟩
  intro n member
  obtain ⟨s, eq, ne⟩ := named _ (perm.subset (List.mem_map_of_mem member))
  cases eq
  exact ⟨s, rfl, ne⟩

theorem members_listed {xs ys : List Value} (texts : ∀ v ∈ xs, v.IsText) (once : xs.Nodup)
    (listed : Listing.ofMembers xs = .ok ys) : memberSet (.list ys) = .ok ys ∧ ys.Perm xs := by
  obtain ⟨ys', listed', perm⟩ := Listing.ofMembers_perm texts
  cases listed.symm.trans listed'
  exact ⟨memberSet_list (fun v member => texts v (perm.subset member)) (perm.nodup_iff.mpr once),
    perm⟩

/-- Reading back only needs the scopes to be read as what they were listed from. -/
theorem toClient_same_of_scopes (h : Client.Storable { c with scopes := [] })
    (accepted : c.Accepted) (readScopes : ∀ ys, Listing.ofMembers c.scopes = .ok ys →
      memberSet (.list ys) = .ok ys ∧ ys.Perm c.scopes)
    (written : ofClient c = .ok row) : ∃ d, row.toClient.result = .ok d ∧ c.same d = true := by
  obtain ⟨methods, grants, uris, scopes, hm, hg, hu, hs, rfl⟩ := ofClient_eq_ok.mp written
  have texts := fun v member => Validation.isText_of_redirectUriOk (accepted.redirectUris v member)
  obtain ⟨readMethods, pm⟩ := tokens_listed h.methods h.methodsOnce hm
  obtain ⟨readGrants, pg⟩ := tokens_listed h.grants h.grantsOnce hg
  obtain ⟨readUris, pu⟩ := members_listed texts h.redirectUrisOnce hu
  obtain ⟨readScopes, ps⟩ := readScopes scopes hs
  refine ⟨_, Outcome.bind_eq_ok.mpr ⟨_, ?_, Draft.build_ofClient (accepted.relist pm pg pu ps)⟩,
    Client.same_relisted pm pg pu ps⟩
  simp only [Outcome.ofExcept_result, toDraft, Draft.withId, accepted.id, readMethods, readGrants,
    readUris, readScopes, Bag.ofMapping_dict h.clientSettings, Bag.ofMapping_dict h.tokenSettings,
    if_true]
  rfl

theorem toClient_same (h : c.Storable) (written : ofClient c = .ok row) :
    ∃ d, row.toClient.result = .ok d ∧ c.same d = true :=
  toClient_same_of_scopes h.unscoped h.accepted (fun _ => members_listed h.scopes h.scopesOnce) written

end ClientRegistry.Row
