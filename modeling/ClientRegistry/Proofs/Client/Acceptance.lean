import ClientRegistry.Proofs.Outcome
import ClientRegistry.Row
import ClientRegistry.Snapshot.Basic

/-! Which fields a client can have. `Client.Accepted` lists what the checks of a client demand;
`Client.make` accepts exactly such fields, and a draft is built exactly if its completed fields
are accepted. -/

namespace ClientRegistry

theorem Validation.scopes_eq_ok {xs : List Value} :
    (scopes xs).result = .ok () ↔ ∀ v ∈ xs, scopeOk v = .ok true := by
  induction xs with
  | nil => simp [scopes]
  | cons x rest ih =>
      simp only [scopes, List.forall_mem_cons]
      cases h : scopeOk x with
      | error e => simp
      | ok valid => cases valid <;> simp [ih]

theorem Validation.redirectUris_eq_ok {xs : List Value} :
    (redirectUris xs).result = .ok () ↔ ∀ v ∈ xs, redirectUriOk v = .ok true := by
  induction xs with
  | nil => simp [redirectUris]
  | cons x rest ih =>
      simp only [redirectUris, List.forall_mem_cons]
      cases h : redirectUriOk x with
      | error e => simp
      | ok valid => cases valid <;> simp [ih]

namespace Client

/-- What is demanded of a record, whatever the types of its values. -/
structure Accepted (c : Client) : Prop where
  id : c.id.truthy = true
  clientId : c.clientId.truthy = true
  name : c.name.truthy = true
  grants : c.grants ≠ []
  methods : c.methods ≠ []
  redirects : authorizationCode.memberOf c.grants = true → c.redirectUris ≠ []
  scopes : ∀ v ∈ c.scopes, Validation.scopeOk v = .ok true
  redirectUris : ∀ v ∈ c.redirectUris, Validation.redirectUriOk v = .ok true

theorem missingField?_eq_none {c : Client} :
    c.missingField? = none ↔ c.clientId.truthy = true ∧ c.name.truthy = true ∧ c.grants ≠ [] ∧
      c.methods ≠ [] ∧ (authorizationCode.memberOf c.grants = true → c.redirectUris ≠ []) := by
  simp only [missingField?]
  grind

theorem check_eq_ok {c : Client} : c.check.result = .ok () ↔ c.Accepted := by
  simp only [check]
  cases named : c.id.truthy with
  | false =>
      refine ⟨fun h => by simp at h, fun h => ?_⟩
      have present := h.id
      simp [named] at present
  | true =>
      cases missing : c.missingField? with
      | some field =>
          refine ⟨fun h => by simp at h, fun h => ?_⟩
          have complete : c.missingField? = none :=
            missingField?_eq_none.mpr ⟨h.clientId, h.name, h.grants, h.methods, h.redirects⟩
          simp [missing] at complete
      | none =>
          obtain ⟨clientId, name, grants, methods, redirects⟩ := missingField?_eq_none.mp missing
          simp only [Bool.not_true, Bool.false_eq_true, if_false, Outcome.bind_unit_eq_ok,
            Validation.scopes_eq_ok, Validation.redirectUris_eq_ok]
          constructor
          · rintro ⟨scopes, uris⟩
            exact ⟨named, clientId, name, grants, methods, redirects, scopes, uris⟩
          · intro h
            exact ⟨h.scopes, h.redirectUris⟩

theorem frozenMembers_eq_ok {field : String} {v : Value} {xs : List Value} :
    frozenMembers field v = .ok xs ↔ v = .frozen xs := by
  cases v <;> simp [frozenMembers]

theorem settingsOf_eq_ok {field : String} {kind : BagKind} {v : Value} {options : Options} :
    settingsOf field kind v = .ok options ↔ v = .bag kind options := by
  cases v with
  | bag k es =>
      simp only [settingsOf, Value.bag.injEq]
      by_cases same : k = kind
      · simp [same]
      · simp [same]
  | _ => simp [settingsOf]

/-- A record is of the right shape if its sets are frozen and its bags of their own kinds. -/
theorem shape_eq_ok {f : Fields} {c : Client} : shape f = .ok c ↔ c.fields = f := by
  simp only [shape, except_bind_eq_ok, frozenMembers_eq_ok, settingsOf_eq_ok]
  constructor
  · rintro ⟨methods, hm, grants, hg, uris, hu, scopes, hs, clientSettings, hc, tokenSettings, ht,
      made⟩
    cases made
    simp only [fields, ← hm, ← hg, ← hu, ← hs, ← hc, ← ht]
  · rintro rfl
    exact ⟨c.methods, rfl, c.grants, rfl, c.redirectUris, rfl, c.scopes, rfl, c.clientSettings, rfl,
      c.tokenSettings, rfl, rfl⟩

theorem make_eq_ok {f : Fields} {c : Client} :
    (make f).result = .ok c ↔ c.fields = f ∧ c.Accepted := by
  simp only [make, ↓Outcome.bind_unit_eq_ok, Outcome.bind_eq_ok, Outcome.ofExcept_result,
    Outcome.pure_result, shape_eq_ok, check_eq_ok]
  constructor
  · rintro ⟨_, shaped, accepted, made⟩
    cases made
    exact ⟨shaped, accepted⟩
  · rintro ⟨shaped, accepted⟩
    exact ⟨c, shaped, accepted, rfl⟩

end Client

namespace Draft

theorem missingField?_eq_none {d : Draft} :
    d.missingField? = none ↔ d.clientId.truthy = true ∧ d.grants ≠ [] ∧
      (authorizationCode.memberOf d.grants = true → d.redirectUris ≠ []) := by
  simp only [missingField?]
  grind

/-- The checks of a draft are among the checks of the client that it is built to. -/
theorem unmissed_of_accepted {d : Draft} {c : Client} {clientSettings tokenSettings : Value}
    (completed : c.fields = d.complete clientSettings tokenSettings) (accepted : c.Accepted) :
    d.missingField? = none ∧ (Validation.scopes d.scopes).result = .ok () ∧
      (Validation.redirectUris d.redirectUris).result = .ok () := by
  simp only [Client.fields, complete, Fields.mk.injEq, Value.frozen.injEq] at completed
  obtain ⟨-, clientId, -, -, -, -, -, grants, uris, scopes, -, -⟩ := completed
  rw [missingField?_eq_none, Validation.scopes_eq_ok, Validation.redirectUris_eq_ok, ← clientId,
    ← grants, ← uris, ← scopes]
  exact ⟨⟨accepted.clientId, accepted.grants, accepted.redirects⟩, accepted.scopes,
    accepted.redirectUris⟩

theorem build_eq_ok {d : Draft} {c : Client} :
    d.build.result = .ok c ↔ ∃ clientSettings tokenSettings,
      copySettings .client d.clientSettings = .ok clientSettings ∧
      copySettings .token d.tokenSettings = .ok tokenSettings ∧
      c.fields = d.complete clientSettings tokenSettings ∧ c.Accepted := by
  simp only [build]
  cases missing : d.missingField? with
  | some field =>
      refine ⟨fun h => by simp at h, ?_⟩
      rintro ⟨_, _, _, _, completed, accepted⟩
      have none := (unmissed_of_accepted completed accepted).1
      simp [missing] at none
  | none =>
      simp only [↓Outcome.bind_unit_eq_ok, Outcome.bind_eq_ok, Outcome.ofExcept_result,
        Outcome.pure_result, Client.make_eq_ok]
      constructor
      · rintro ⟨_, _, clientSettings, copied, tokenSettings, copied', _, made, _, same⟩
        cases same
        exact ⟨clientSettings, tokenSettings, copied, copied', made⟩
      · rintro ⟨clientSettings, tokenSettings, copied, copied', completed, accepted⟩
        obtain ⟨-, scopes, uris⟩ := unmissed_of_accepted completed accepted
        exact ⟨scopes, uris, clientSettings, copied, tokenSettings, copied', c,
          ⟨completed, accepted⟩, rfl, rfl⟩

theorem accepted_of_build {d : Draft} {c : Client} (built : d.build.result = .ok c) :
    c.Accepted := by
  obtain ⟨_, _, _, _, _, accepted⟩ := build_eq_ok.mp built
  exact accepted

/-- The draft that holds the fields of a client is built to this client. -/
theorem build_ofClient {c : Client} (accepted : c.Accepted) :
    (ofClient c).build.result = .ok c := by
  refine build_eq_ok.mpr
    ⟨.bag .client c.clientSettings, .bag .token c.tokenSettings, rfl, rfl, ?_, accepted⟩
  simp only [complete, ofClient, Client.fields, accepted.name, if_true, List.isEmpty_iff,
    accepted.methods, if_false]

end Draft

/-- Every way back from a stored form ends in the build of a draft. -/
theorem Row.accepted_of_toClient {r : Row} {c : Client} (restored : r.toClient.result = .ok c) :
    c.Accepted := by
  obtain ⟨d, _, built⟩ := Outcome.bind_eq_ok.mp restored
  exact Draft.accepted_of_build built

theorem Snapshot.accepted_of_toClient {s : Snapshot} {c : Client}
    (restored : s.toClient.result = .ok c) : c.Accepted := by
  obtain ⟨d, _, built⟩ := Outcome.bind_eq_ok.mp restored
  exact Draft.accepted_of_build built

end ClientRegistry
