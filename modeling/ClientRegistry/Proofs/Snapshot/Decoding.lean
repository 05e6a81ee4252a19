import ClientRegistry.Proofs.Row.RoundTrip
import ClientRegistry.Proofs.Snapshot.Portable

/-! Decoding. A row that carries the values of a snapshot describes the same draft, and a draft is
built or refused alike however its sets are listed, so the decoders agree on snapshots and rows
that differ in the order and the repetitions of their lists only, whatever is wrong with them. -/

namespace ClientRegistry

/-- The columns of the row hold the values of the snapshot. -/
def Row.Carries (row : Row) (s : Snapshot) : Prop :=
  row.columns.map Prod.snd = s.named.map Prod.snd

/-- The options of both settings have texts for names. -/
structure Snapshot.Keyed (s : Snapshot) : Prop where
  clientSettings : Entries.Keyed s.clientSettings
  tokenSettings : Entries.Keyed s.tokenSettings

/-- Snapshots whose lists have the same members, in any order and with any repetitions, and whose
other fields are equal. -/
structure Snapshot.Rearranges (s r : Snapshot) : Prop where
  id : s.id = r.id
  clientId : s.clientId = r.clientId
  issuedAt : s.issuedAt = r.issuedAt
  secret : s.secret = r.secret
  secretExpiresAt : s.secretExpiresAt = r.secretExpiresAt
  name : s.name = r.name
  authMethods : ∀ n, n ∈ s.authMethods ↔ n ∈ r.authMethods
  grantTypes : ∀ n, n ∈ s.grantTypes ↔ n ∈ r.grantTypes
  redirectUris : ∀ u, u ∈ s.redirectUris ↔ u ∈ r.redirectUris
  scopes : ∀ x, x ∈ s.scopes ↔ x ∈ r.scopes
  clientSettings : s.clientSettings = r.clientSettings
  tokenSettings : s.tokenSettings = r.tokenSettings

/-- Faults of one cause. Which of several bad scopes or redirect URIs is named depends on the
order of the set. -/
inductive Fault.Alike : Fault → Fault → Prop
  | refl (e : Fault) : Alike e e
  | scope (v w : Value) : Alike (.invalidScope v) (.invalidScope w)
  | redirectUri (u v : Value) : Alike (.invalidRedirectUri u) (.invalidRedirectUri v)

/-- Two decodings end alike: with the same client, or with faults of one cause. -/
inductive Client.Agree : Except Fault Client → Except Fault Client → Prop
  | client {c d : Client} (same : c.same d = true) : Agree (.ok c) (.ok d)
  | fault {e f : Fault} (alike : e.Alike f) : Agree (.error e) (.error f)

/-- The row of the values of a snapshot. -/
def Snapshot.row (s : Snapshot) : Row where
  id := .text s.id
  clientId := .text s.clientId
  issuedAt := Snapshot.optional .moment s.issuedAt
  secret := Snapshot.optional .text s.secret
  secretExpiresAt := Snapshot.optional .moment s.secretExpiresAt
  name := .text s.name
  methods := Snapshot.texts s.authMethods
  grants := Snapshot.texts s.grantTypes
  redirectUris := Snapshot.texts s.redirectUris
  scopes := Snapshot.texts s.scopes
  clientSettings := .dict s.clientSettings
  tokenSettings := .dict s.tokenSettings

theorem Snapshot.row_carries (s : Snapshot) : s.row.Carries s := rfl

theorem Row.tokens_texts (kind : TokenKind) (names : List String) :
    tokens kind (Snapshot.texts names) = Snapshot.tokensOf kind names := by
  have each : tokenOf kind ∘ Value.text = Snapshot.tokenOf kind := funext fun n => by
    cases empty : n.isEmpty <;>
      simp [tokenOf, Snapshot.tokenOf, Value.truthy, Value.hashable, empty]
  have converted : (names.map Value.text).mapM (tokenOf kind) = names.mapM (Snapshot.tokenOf kind) := by
    rw [List.mapM_map, each]
  simp only [tokens, Snapshot.texts, entries_list, Snapshot.tokensOf, bind, Except.bind, converted,
    Except.map]

theorem Row.memberSet_texts (xs : List String) :
    memberSet (Snapshot.texts xs) = .ok (Value.toMembers (xs.map .text)) := by
  have hashable : (xs.map Value.text).all Value.hashable = true := by
    simp [Value.hashable]
  simp only [memberSet, Snapshot.texts, entries_list, bind, Except.bind, hashable, if_true]

theorem Row.Carries.toDraft_eq {row : Row} {s : Snapshot} (carries : row.Carries s)
    (keyed : s.Keyed) : row.toDraft = s.toDraft := by
  obtain ⟨id, clientId, issuedAt, secret, expiry, name, methods, grants, uris, scopes, client,
    token⟩ := row
  simp only [Carries, columns, Fields.named, Snapshot.named, List.map_cons, List.map_nil,
    List.cons.injEq, and_true] at carries
  obtain ⟨rfl, rfl, rfl, rfl, rfl, rfl, rfl, rfl, rfl, rfl, rfl, rfl⟩ := carries
  simp only [toDraft, Snapshot.toDraft, tokens_texts, memberSet_texts,
    Bag.ofMapping_dict keyed.clientSettings, Bag.ofMapping_dict keyed.tokenSettings, bind,
    Except.bind, Bag.value]

theorem Row.Carries.toClient_eq {row : Row} {s : Snapshot} (carries : row.Carries s)
    (keyed : s.Keyed) : row.toClient = s.toClient := by
  simp only [toClient, Snapshot.toClient, carries.toDraft_eq keyed]

theorem Validation.scopes_lenient {xs : List Value} (lenient : ∀ v ∈ xs, v = .null ∨ v.IsText) :
    (scopes xs).result = .ok () ∨ ∃ v, (scopes xs).result = .error (.invalidScope v) := by
  induction xs with
  | nil => exact .inl rfl
  | cons x rest ih =>
      rw [List.forall_mem_cons] at lenient
      rcases lenient.1 with rfl | ⟨s, rfl⟩
      · exact ih lenient.2
      · cases admissible : Scope.isAdmissible s.toList with
        | true => simpa [scopes, scopeOk, admissible] using ih lenient.2
        | false => exact .inr ⟨_, by simp [scopes, scopeOk, admissible]; rfl⟩

theorem Validation.scopes_texts {xs : List Value} (texts : ∀ v ∈ xs, v.IsText) :
    (scopes xs).result = .ok () ∨ ∃ v, (scopes xs).result = .error (.invalidScope v) :=
  scopes_lenient fun v member => .inr (texts v member)

theorem Validation.redirectUris_texts {xs : List Value} (texts : ∀ v ∈ xs, v.IsText) :
    (redirectUris xs).result = .ok () ∨
      ∃ v, (redirectUris xs).result = .error (.invalidRedirectUri v) := by
  induction xs with
  | nil => exact .inl rfl
  | cons x rest ih =>
      rw [List.forall_mem_cons] at texts
      obtain ⟨s, rfl⟩ := texts.1
      cases valid : Uri.isRedirect s.toList with
      | true => simpa [redirectUris, redirectUriOk, valid] using ih texts.2
      | false => exact .inr ⟨_, by simp [redirectUris, redirectUriOk, valid]; rfl⟩

/-- The scopes of two listings of a set are all good, or each listing has a bad one. -/
theorem Validation.scopes_agree {xs ys : List Value} (texts : ∀ v ∈ xs, v.IsText)
    (perm : ys.Perm xs) :
    ((scopes xs).result = .ok () ∧ (scopes ys).result = .ok ()) ∨
      ∃ v w, (scopes xs).result = .error (.invalidScope v) ∧
        (scopes ys).result = .error (.invalidScope w) := by
  have valid : (scopes xs).result = .ok () ↔ (scopes ys).result = .ok () := by
    simp only [scopes_eq_ok, perm.mem_iff]
  rcases scopes_texts texts with good | ⟨v, bad⟩
  · exact .inl ⟨good, valid.mp good⟩
  · rcases scopes_texts fun w member => texts w (perm.subset member) with good | ⟨w, bad'⟩
    · simp [valid.mpr good] at bad
    · exact .inr ⟨v, w, bad, bad'⟩

theorem Validation.redirectUris_agree {xs ys : List Value} (texts : ∀ v ∈ xs, v.IsText)
    (perm : ys.Perm xs) :
    ((redirectUris xs).result = .ok () ∧ (redirectUris ys).result = .ok ()) ∨
      ∃ u v, (redirectUris xs).result = .error (.invalidRedirectUri u) ∧
        (redirectUris ys).result = .error (.invalidRedirectUri v) := by
  have valid : (redirectUris xs).result = .ok () ↔ (redirectUris ys).result = .ok () := by
    simp only [redirectUris_eq_ok, perm.mem_iff]
  rcases redirectUris_texts texts with good | ⟨u, bad⟩
  · exact .inl ⟨good, valid.mp good⟩
  · rcases redirectUris_texts fun v member => texts v (perm.subset member) with good | ⟨v, bad'⟩
    · simp [valid.mpr good] at bad
    · exact .inr ⟨u, v, bad, bad'⟩

namespace Draft

variable {d : Draft} {clientSettings tokenSettings : Options}
  {methods grants redirectUris scopes : List Value}

/-- The client that a draft is completed to if nothing is wrong with it. -/
def completed (d : Draft) (clientSettings tokenSettings : Options) : Client where
  id := d.id
  clientId := d.clientId
  issuedAt := d.issuedAt
  secret := d.secret
  secretExpiresAt := d.secretExpiresAt
  name := if d.name.truthy then d.name else d.id
  methods := if d.methods.isEmpty then [clientSecretBasic] else d.methods
  grants := d.grants
  redirectUris := d.redirectUris
  scopes := d.scopes
  clientSettings
  tokenSettings

/-- The options of both settings, as a build takes them over. -/
def copiedOptions (d : Draft) : Except Fault (Options × Options) := do
  let clientSettings ← copySettings .client d.clientSettings
  let tokenSettings ← copySettings .token d.tokenSettings
  let client ← Client.settingsOf "client_settings" .client clientSettings
  let token ← Client.settingsOf "token_settings" .token tokenSettings
  return (client, token)

/-- What has passed the checks of a draft passes those of the client. -/
theorem accepted_completed (id : d.id.truthy = true) (complete : d.missingField? = none)
    (scopes : (Validation.scopes d.scopes).result = .ok ())
    (uris : (Validation.redirectUris d.redirectUris).result = .ok ()) :
    (d.completed clientSettings tokenSettings).Accepted := by
  obtain ⟨clientId, present, redirects⟩ := missingField?_eq_none.mp complete
  exact {
    id
    clientId
    name := by
      simp only [completed]
      split
      next named => exact named
      · exact id
    grants := present
    methods := by
      simp only [completed]
      split
      · exact List.cons_ne_nil _ _
      next filled => simpa using filled
    redirects
    scopes := Validation.scopes_eq_ok.mp scopes
    redirectUris := Validation.redirectUris_eq_ok.mp uris }

/-- Of a draft that has passed its checks only settings of another kind are refused. -/
theorem make_complete (id : d.id.truthy = true) (complete : d.missingField? = none)
    (scopes : (Validation.scopes d.scopes).result = .ok ())
    (uris : (Validation.redirectUris d.redirectUris).result = .ok ()) (client token : Value) :
    (Client.make (d.complete client token)).result = do
      let clientSettings ← Client.settingsOf "client_settings" .client client
      let tokenSettings ← Client.settingsOf "token_settings" .token token
      return d.completed clientSettings tokenSettings := by
  cases hc : Client.settingsOf "client_settings" .client client with
  | error e =>
      simp only [Client.make, Outcome.bind_result, Client.shape, Client.frozenMembers,
        Draft.complete, hc]
      rfl
  | ok clientSettings =>
      cases ht : Client.settingsOf "token_settings" .token token with
      | error e =>
          simp only [Client.make, Outcome.bind_result, Client.shape, Client.frozenMembers,
            Draft.complete, hc, ht]
          rfl
      | ok tokenSettings =>
          rw [Client.settingsOf_eq_ok.mp hc, Client.settingsOf_eq_ok.mp ht]
          exact Client.make_eq_ok.mpr ⟨rfl, accepted_completed id complete scopes uris⟩

/-- The stages of a build: each is asked only if the ones before it let the draft pass. -/
theorem build_stages (id : d.id.truthy = true) :
    d.build.result = match d.missingField? with
      | some field => .error (.missingField field)
      | none => do
        (Validation.scopes d.scopes).result
        (Validation.redirectUris d.redirectUris).result
        let options ← d.copiedOptions
        return d.completed options.1 options.2 := by
  cases missing : d.missingField? with
  | some field => simp [build, missing]
  | none =>
      simp only [build, missing, Outcome.bind_result]
      cases hs : (Validation.scopes d.scopes).result with
      | error e => rfl
      | ok _ =>
          cases hu : (Validation.redirectUris d.redirectUris).result with
          | error e => rfl
          | ok _ =>
              simp only [copiedOptions]
              cases copySettings .client d.clientSettings with
              | error e => rfl
              | ok client =>
                  cases copySettings .token d.tokenSettings with
                  | error e => rfl
                  | ok token =>
                      have made := make_complete id missing hs hu client token
                      simp only [Outcome.ofExcept_result, Outcome.record_result, bind, Except.bind,
                        pure, Except.pure] at made ⊢
                      rw [made]
                      cases Client.settingsOf "client_settings" .client client with
                      | error e => rfl
                      | ok options =>
                          cases Client.settingsOf "token_settings" .token token <;> rfl

/-- What a draft with an id and with bags for settings is built to. -/
theorem build_result (id : d.id.truthy = true)
    (client : d.clientSettings = .bag .client clientSettings)
    (token : d.tokenSettings = .bag .token tokenSettings) :
    d.build.result = match d.missingField? with
      | some field => .error (.missingField field)
      | none => do
        (Validation.scopes d.scopes).result
        (Validation.redirectUris d.redirectUris).result
        return d.completed clientSettings tokenSettings := by
  have copied : d.copiedOptions = .ok (clientSettings, tokenSettings) := by
    rw [copiedOptions, client, token]
    rfl
  rw [build_stages id, copied]
  rfl

/-- A draft whose sets are listed anew. -/
def relisted (d : Draft) (methods grants redirectUris scopes : List Value) : Draft :=
  { d with methods, grants, redirectUris, scopes }

theorem missingField?_relisted (hg : grants.Perm d.grants) (hu : redirectUris.Perm d.redirectUris) :
    (d.relisted methods grants redirectUris scopes).missingField? = d.missingField? := by
  simp only [missingField?, relisted, Value.memberOf_perm hg, hg.isEmpty_eq, hu.isEmpty_eq]

theorem same_completed_relisted (hm : methods.Perm d.methods) (hg : grants.Perm d.grants)
    (hu : redirectUris.Perm d.redirectUris) (hs : scopes.Perm d.scopes) :
    (d.completed clientSettings tokenSettings).same
      ((d.relisted methods grants redirectUris scopes).completed clientSettings tokenSettings) =
        true := by
  have filled : (if methods.isEmpty then [clientSecretBasic] else methods).Perm
      (if d.methods.isEmpty then [clientSecretBasic] else d.methods) := by
    rw [hm.isEmpty_eq]
    split
    · exact List.Perm.refl _
    · exact hm
  exact Client.same_relisted (c := d.completed clientSettings tokenSettings) filled hg hu hs

/-- The order in which the sets of a draft are listed decides neither whether it is built nor the
cause for which it is refused. -/
theorem build_relisted (id : d.id.truthy = true)
    (client : d.clientSettings = .bag .client clientSettings)
    (token : d.tokenSettings = .bag .token tokenSettings) (uris : ∀ v ∈ d.redirectUris, v.IsText)
    (texts : ∀ v ∈ d.scopes, v.IsText) (hm : methods.Perm d.methods) (hg : grants.Perm d.grants)
    (hu : redirectUris.Perm d.redirectUris) (hs : scopes.Perm d.scopes) :
    Client.Agree d.build.result (d.relisted methods grants redirectUris scopes).build.result := by
  have other := build_result (d := d.relisted methods grants redirectUris scopes) id client token
  rw [missingField?_relisted hg hu] at other
  rw [build_result id client token, other]
  cases missing : d.missingField? with
  | some field => exact .fault (.refl _)
  | none =>
      rcases Validation.scopes_agree texts hs with ⟨first, second⟩ | ⟨v, w, first, second⟩
      · rcases Validation.redirectUris_agree uris hu with ⟨third, fourth⟩ | ⟨u, v, third, fourth⟩
        · simp only [relisted, first, second, third, fourth]
          exact .client (same_completed_relisted hm hg hu hs)
        · simp only [relisted, first, second, third, fourth]
          exact .fault (.redirectUri u v)
      · simp only [relisted, first, second]
        exact .fault (.scope v w)

end Draft

namespace Snapshot

variable {s r : Snapshot}

theorem Rearranges.refl (s : Snapshot) : s.Rearranges s :=
  ⟨rfl, rfl, rfl, rfl, rfl, rfl, fun _ => .rfl, fun _ => .rfl, fun _ => .rfl, fun _ => .rfl, rfl, rfl⟩

theorem Rearranges.symm (h : s.Rearranges r) : r.Rearranges s :=
  ⟨h.id.symm, h.clientId.symm, h.issuedAt.symm, h.secret.symm, h.secretExpiresAt.symm, h.name.symm,
    fun n => (h.authMethods n).symm, fun n => (h.grantTypes n).symm,
    fun u => (h.redirectUris u).symm, fun x => (h.scopes x).symm, h.clientSettings.symm,
    h.tokenSettings.symm⟩

theorem tokensOf_of_nameless {kind : TokenKind} {names : List String} (nameless : "" ∈ names) :
    tokensOf kind names = .error (.emptyToken kind) := by
  have refused : names.mapM (tokenOf kind) = .error (.emptyToken kind) := by
    induction names with
    | nil => cases nameless
    | cons n rest ih =>
        rw [List.mapM_cons]
        cases empty : n.isEmpty with
        | true => simp [tokenOf, empty, bind, Except.bind]
        | false =>
            have later : "" ∈ rest := by
              rcases List.mem_cons.mp nameless with rfl | later
              · cases empty
              · exact later
            simp [tokenOf, empty, ih later, bind, Except.bind]
  rw [tokensOf, refused, Except.map]

theorem mem_map_iff {f : String → Value} {xs ys : List String} (same : ∀ n, n ∈ xs ↔ n ∈ ys)
    (v : Value) : v ∈ xs.map f ↔ v ∈ ys.map f := by
  simp only [List.mem_map, same]

theorem toMembers_texts_perm {xs ys : List String} (same : ∀ n, n ∈ xs ↔ n ∈ ys) :
    (Value.toMembers (xs.map .text)).Perm (Value.toMembers (ys.map .text)) := by
  have plain : ∀ zs : List String, Value.Plain (zs.map .text) := fun zs =>
    Value.plain_of_texts (List.forall_mem_map.mpr fun t _ => ⟨t, rfl⟩)
  exact Value.toMembers_perm (plain xs) (plain ys) (mem_map_iff same)

/-- Names are refused if one of them is empty, and else listed in some order. -/
theorem tokensOf_agree {xs ys : List String} (kind : TokenKind) (same : ∀ n, n ∈ xs ↔ n ∈ ys) :
    (tokensOf kind xs = .error (.emptyToken kind) ∧ tokensOf kind ys = .error (.emptyToken kind)) ∨
      ∃ ts us, tokensOf kind xs = .ok ts ∧ tokensOf kind ys = .ok us ∧ us.Perm ts := by
  by_cases nameless : "" ∈ xs
  · exact .inl ⟨tokensOf_of_nameless nameless, tokensOf_of_nameless ((same _).mp nameless)⟩
  · have named : ∀ n ∈ xs, n ≠ "" := fun n member empty => nameless (empty ▸ member)
    have plain : ∀ zs : List String,
        Value.Plain (zs.map fun n => Value.token kind (.text n)) := fun zs => by
      have tokens : ∀ v ∈ zs.map (fun n => Value.token kind (.text n)), v.IsToken kind :=
        List.forall_mem_map.mpr fun n _ => ⟨n, rfl⟩
      exact Value.plain_of_tokens tokens
    refine .inr ⟨_, _, by rw [tokensOf, mapM_tokenOf named, Except.map],
      by rw [tokensOf, mapM_tokenOf fun n member => named n ((same n).mpr member), Except.map], ?_⟩
    exact Value.toMembers_perm (plain ys) (plain xs) fun v => (mem_map_iff same v).symm

/-- The decoding of a snapshot does not depend on the order of its lists nor on repetitions. -/
theorem Rearranges.toClient_agree (h : s.Rearranges r) :
    Client.Agree s.toClient.result r.toClient.result := by
  obtain ⟨id, clientId, issuedAt, secret, expiry, name, methods, grants, uris, scopes, client,
    token⟩ := r
  obtain ⟨rfl, rfl, rfl, rfl, rfl, rfl, hm, hg, hu, hs, rfl, rfl⟩ := h
  simp only [toClient, Outcome.bind_result, Outcome.ofExcept_result, toDraft, Draft.withId]
  cases present : (Value.text s.id).truthy with
  | false => exact .fault (.refl _)
  | true =>
      rcases tokensOf_agree .authMethod hm with ⟨first, second⟩ | ⟨ms, ms', first, second, pm⟩
      · simp only [first, second]
        exact .fault (.refl _)
      · rcases tokensOf_agree .grantType hg with ⟨third, fourth⟩ | ⟨gs, gs', third, fourth, pg⟩
        · simp only [first, second, third, fourth]
          exact .fault (.refl _)
        · simp only [first, second, third, fourth]
          exact Draft.build_relisted present rfl rfl (texts_of_toMembers _).2
            (texts_of_toMembers _).2 pm pg (toMembers_texts_perm fun u => (hu u).symm)
            (toMembers_texts_perm fun x => (hs x).symm)

/-- Two snapshots with rearranged lists, and rows that carry their values, are all decoded alike. -/
theorem Rearranges.decoders_agree {p q : Row} (h : s.Rearranges r) (keyed : s.Keyed)
    (first : p.Carries s) (second : q.Carries r) :
    ∀ x ∈ [s.toClient.result, p.toClient.result, r.toClient.result, q.toClient.result],
      ∀ y ∈ [s.toClient.result, p.toClient.result, r.toClient.result, q.toClient.result],
        Client.Agree x y := by
  have keyed' : r.Keyed := ⟨h.clientSettings ▸ keyed.clientSettings,
    h.tokenSettings ▸ keyed.tokenSettings⟩
  rw [first.toClient_eq keyed, second.toClient_eq keyed']
  simp only [List.forall_mem_cons, List.not_mem_nil, false_imp_iff, implies_true, and_true]
  simp only [(Rearranges.refl s).toClient_agree, (Rearranges.refl r).toClient_agree,
    h.toClient_agree, h.symm.toClient_agree, and_true]

/-- A snapshot with two bad scopes and a bad redirect URI. -/
def tampered : Snapshot where
  id := "r"
  clientId := "shop"
  issuedAt := none
  secret := none
  secretExpiresAt := none
  name := ""
  authMethods := []
  grantTypes := ["authorization_code", "custom"]
  redirectUris := ["https://shop.example/cb#part"]
  scopes := ["read all", "read", "write\""]
  clientSettings := [(.text "limits", .list [.int 1])]
  tokenSettings := []

/-- The same lists in another order and with repetitions. -/
def retampered : Snapshot :=
  { tampered with
    grantTypes := ["custom", "authorization_code", "custom"]
    scopes := ["write\"", "read", "write\"", "read all"] }

theorem tampered_decoders_agree : tampered.Rearranges retampered ∧ tampered.Keyed ∧
    tampered.row.Carries tampered ∧ retampered.row.Carries retampered ∧
    Client.Agree tampered.toClient.result retampered.row.toClient.result := by
  have rearranged : tampered.Rearranges retampered := by
    refine ⟨rfl, rfl, rfl, rfl, rfl, rfl, fun _ => .rfl, fun n => ?_, fun _ => .rfl, fun x => ?_,
      rfl, rfl⟩
    · simp only [tampered, retampered, List.mem_cons, List.not_mem_nil, or_false]
      tauto
    · simp only [tampered, retampered, List.mem_cons, List.not_mem_nil, or_false]
      tauto
  have keyed : tampered.Keyed :=
    ⟨⟨by simp [tampered, Value.IsText], by simp [tampered]⟩,
      ⟨by simp [tampered], by simp [tampered]⟩⟩
  exact ⟨rearranged, keyed, row_carries _, row_carries _,
    rearranged.decoders_agree keyed (row_carries _) (row_carries _) _ (by simp) _ (by simp)⟩

end Snapshot

end ClientRegistry
