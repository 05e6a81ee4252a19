import ClientRegistry.Proofs.Client.Calls

/-! What it comes to when a draft is built. `Draft.Verdict` lists the six ways to end, each with
what is required of the draft and with the one log record that it leaves; a draft whose fields are
of their types is built in one of them. -/

namespace ClientRegistry

namespace Value

theorem IsNonemptyText.truthy {v : Value} (h : v.IsNonemptyText) : v.truthy = true := by
  obtain ⟨s, rfl, nonempty⟩ := h
  simpa [Value.truthy] using nonempty

/-- What may be absent and does not count as present is null or the empty text. -/
theorem absent_iff {v : Value} (h : v = .null ∨ v.IsText) :
    v.truthy = false ↔ v = .null ∨ v = .text "" := by
  rcases h with rfl | ⟨s, rfl⟩
  · simp [truthy]
  · simp [truthy]

theorem present_of_truthy {v : Value} (h : v = .null ∨ v.IsText) (present : v.truthy = true) :
    v.IsNonemptyText := by
  rcases h with rfl | text
  · cases present
  · exact text.nonempty present

theorem memberOf_iff_of_tokens {kind : TokenKind} {v : Value} {xs : List Value}
    (hv : v.IsToken kind) (h : ∀ x ∈ xs, x.IsToken kind) : v.memberOf xs = true ↔ v ∈ xs := by
  constructor
  · intro member
    obtain ⟨x, listed, same⟩ := List.any_eq_true.mp member
    exact hv.eq_of_same (h x listed) same ▸ listed
  · intro listed
    exact List.any_eq_true.mpr ⟨v, listed, same_refl v⟩

end Value

namespace Validation

variable {xs : List Value}

/-- Admissible scopes leave nothing in the log. -/
theorem scopes_of_valid (h : ∀ v ∈ xs, scopeOk v = .ok true) : scopes xs = .ok () := by
  induction xs with
  | nil => rfl
  | cons x rest ih =>
      rw [List.forall_mem_cons] at h
      simp only [scopes, h.1]
      exact ih h.2

theorem redirectUris_of_valid (h : ∀ v ∈ xs, redirectUriOk v = .ok true) :
    redirectUris xs = .ok () := by
  induction xs with
  | nil => rfl
  | cons x rest ih =>
      rw [List.forall_mem_cons] at h
      simp only [redirectUris, h.1]
      exact ih h.2

theorem scopeOk_of_scope {v : Value} (h : v.IsScope) : scopeOk v = .ok true := by
  obtain ⟨s, rfl, valid⟩ := h
  exact congrArg Except.ok valid

theorem redirectUriOk_of_redirectUri {v : Value} (h : v.IsRedirectUri) :
    redirectUriOk v = .ok true := by
  obtain ⟨s, rfl, valid, -⟩ := h
  exact congrArg Except.ok valid

/-- Of texts either all are scopes, or one that is none is refused and logged. -/
theorem scopes_settle (texts : ∀ v ∈ xs, v.IsText) :
    (∀ v ∈ xs, v.IsScope) ∨
      ∃ v ∈ xs, ¬v.IsScope ∧ scopes xs = .reject (scopeRejected v) (.invalidScope v) := by
  induction xs with
  | nil => exact .inl fun _ member => by cases member
  | cons x rest ih =>
      rw [List.forall_mem_cons] at texts
      obtain ⟨s, rfl⟩ := texts.1
      cases valid : Scope.isAdmissible s.toList with
      | false =>
          refine .inr ⟨.text s, List.mem_cons_self, ?_, by simp only [scopes, scopeOk, valid]⟩
          rintro ⟨t, same, admissible⟩
          cases same
          rw [valid] at admissible
          cases admissible
      | true =>
          rcases ih texts.2 with all | ⟨v, member, bad, refused⟩
          · exact .inl (List.forall_mem_cons.mpr ⟨⟨s, rfl, valid⟩, all⟩)
          · refine .inr ⟨v, List.mem_cons_of_mem _ member, bad, ?_⟩
            simpa only [scopes, scopeOk, valid] using refused

theorem redirectUris_settle (texts : ∀ v ∈ xs, v.IsText) :
    (∀ v ∈ xs, v.IsRedirectUri) ∨
      ∃ v ∈ xs, ¬v.IsRedirectUri ∧
        redirectUris xs = .reject (redirectUriRejected v) (.invalidRedirectUri v) := by
  induction xs with
  | nil => exact .inl fun _ member => by cases member
  | cons x rest ih =>
      rw [List.forall_mem_cons] at texts
      obtain ⟨s, rfl⟩ := texts.1
      cases valid : Uri.isRedirect s.toList with
      | false =>
          refine .inr
            ⟨.text s, List.mem_cons_self, ?_, by simp only [redirectUris, redirectUriOk, valid]⟩
          rintro ⟨t, same, redirect, -⟩
          cases same
          rw [valid] at redirect
          cases redirect
      | true =>
          have ok : redirectUriOk (.text s) = .ok true := congrArg Except.ok valid
          rcases ih texts.2 with all | ⟨v, member, bad, refused⟩
          · exact .inl (List.forall_mem_cons.mpr ⟨texts.1.redirectUri ok, all⟩)
          · refine .inr ⟨v, List.mem_cons_of_mem _ member, bad, ?_⟩
            simpa only [redirectUris, ok] using refused

end Validation

/-- Accepted fields make their client without a trace in the log. -/
theorem Client.make_of_accepted {c : Client} (h : c.Accepted) : make c.fields = .ok c := by
  have complete : c.missingField? = none :=
    missingField?_eq_none.mpr ⟨h.clientId, h.name, h.grants, h.methods, h.redirects⟩
  have checked : c.check = .ok () := by
    simp only [check, h.id, complete, Validation.scopes_of_valid h.scopes,
      Validation.redirectUris_of_valid h.redirectUris]
    rfl
  rw [make, shape_eq_ok.mpr rfl]
  show (Outcome.ok c).andThen (fun c => c.check.andThen fun _ => pure c) = .ok c
  rw [Outcome.andThen_ok, checked, Outcome.andThen_ok]
  rfl

/-- The value, or another one in place of null and of the empty text. -/
def Value.orElse (v default : Value) : Value :=
  match v with
  | .null => default
  | .text s => if s = "" then default else .text s
  | v => v

theorem Value.orElse_eq {v : Value} (default : Value) (h : v = .null ∨ v.IsText) :
    v.orElse default = if v.truthy then v else default := by
  rcases h with rfl | ⟨s, rfl⟩
  · rfl
  · by_cases empty : s = ""
    · simp [orElse, truthy, empty]
    · simp [orElse, truthy, empty]

namespace Draft

variable {d : Draft} {o : Outcome Client}

/-- The options of settings; absent settings have none. -/
def optionsOf : Value → Options
  | .bag _ options => options
  | _ => []

/-- The client with the values of a draft. The name defaults to the id and the methods to the basic
one. -/
def client (d : Draft) : Client where
  id := d.id
  clientId := d.clientId
  issuedAt := d.issuedAt
  secret := d.secret
  secretExpiresAt := d.secretExpiresAt
  name := d.name.orElse d.id
  methods := match d.methods with
    | [] => [clientSecretBasic]
    | methods => methods
  grants := d.grants
  redirectUris := d.redirectUris
  scopes := d.scopes
  clientSettings := optionsOf d.clientSettings
  tokenSettings := optionsOf d.tokenSettings

/-- The draft has all that is required. -/
structure Complete (d : Draft) : Prop where
  clientId : d.clientId.IsNonemptyText
  grants : d.grants ≠ []
  redirects : authorizationCode ∈ d.grants → d.redirectUris ≠ []

/-- A required field is missing, which is logged. -/
def missing (d : Draft) (field : String) : Outcome Client :=
  .reject (d.rejected field) (.missingField field)

/-- The ways to end of a build, in the order of its checks: each comes with what the checks before
it have found. -/
inductive Verdict (d : Draft) : Outcome Client → Prop
  | noClientId (absent : d.clientId = .null ∨ d.clientId = .text "") :
      Verdict d (d.missing "client_id")
  | noGrants (clientId : d.clientId.IsNonemptyText) (absent : d.grants = []) :
      Verdict d (d.missing "authorization_grant_types")
  | noRedirectUris (clientId : d.clientId.IsNonemptyText) (code : authorizationCode ∈ d.grants)
      (absent : d.redirectUris = []) : Verdict d (d.missing "redirect_uris")
  | badScope (complete : d.Complete) {v : Value} (member : v ∈ d.scopes) (bad : ¬v.IsScope) :
      Verdict d (.reject (Validation.scopeRejected v) (.invalidScope v))
  | badRedirectUri (complete : d.Complete) (scopes : ∀ v ∈ d.scopes, v.IsScope) {v : Value}
      (member : v ∈ d.redirectUris) (bad : ¬v.IsRedirectUri) :
      Verdict d (.reject (Validation.redirectUriRejected v) (.invalidRedirectUri v))
  | built (complete : d.Complete) (scopes : ∀ v ∈ d.scopes, v.IsScope)
      (redirectUris : ∀ v ∈ d.redirectUris, v.IsRedirectUri) :
      Verdict d ⟨.ok d.client, [built d.client]⟩

/-- A build that succeeds leaves one record of severity debug, and one that fails leaves a
warning. -/
theorem Verdict.log (h : Verdict d o) : ∃ r, o.log = [r] ∧
    (r.severity = .debug ↔ ∃ c, o.result = .ok c) ∧
      (r.severity = .warning ↔ ∃ e, o.result = .error e) := by
  cases h <;>
    exact ⟨_, rfl, by simp [missing, Outcome.reject, rejected, Validation.scopeRejected,
      Validation.redirectUriRejected, Draft.built], by simp [missing, Outcome.reject, rejected,
      Validation.scopeRejected, Validation.redirectUriRejected, Draft.built]⟩

/-- There is no other way to end than by what a build requires. -/
theorem Verdict.succeeds_iff (h : Verdict d o) : (∃ c, o.result = .ok c) ↔
    d.Complete ∧ (∀ v ∈ d.scopes, v.IsScope) ∧ ∀ v ∈ d.redirectUris, v.IsRedirectUri := by
  have refused : ∀ (r : LogRecord) (e : Fault),
      ¬∃ c, (Outcome.reject r e : Outcome Client).result = .ok c := by
    rintro r e ⟨c, none⟩
    cases none
  cases h with
  | noClientId absent =>
      refine iff_of_false (refused _ _) fun ⟨complete, _⟩ => ?_
      obtain ⟨s, same, nonempty⟩ := complete.clientId
      rcases absent with absent | absent <;> rw [absent] at same <;> cases same
      exact nonempty rfl
  | noGrants clientId absent =>
      exact iff_of_false (refused _ _) fun ⟨complete, _⟩ => complete.grants absent
  | noRedirectUris clientId code absent =>
      exact iff_of_false (refused _ _) fun ⟨complete, _⟩ => complete.redirects code absent
  | badScope complete member bad =>
      exact iff_of_false (refused _ _) fun ⟨_, scopes, _⟩ => bad (scopes _ member)
  | badRedirectUri complete scopes member bad =>
      exact iff_of_false (refused _ _) fun ⟨_, _, uris⟩ => bad (uris _ member)
  | built complete scopes uris => exact iff_of_true ⟨_, rfl⟩ ⟨complete, scopes, uris⟩

/-- What is built is the client with the values of the draft. -/
theorem Verdict.eq_of_ok (h : Verdict d o) {c : Client} (succeeded : o.result = .ok c) :
    c = d.client := by
  cases h <;> cases succeeded
  rfl

namespace Typed

theorem code_memberOf_iff (h : d.Typed) :
    authorizationCode.memberOf d.grants = true ↔ authorizationCode ∈ d.grants :=
  Value.memberOf_iff_of_tokens ⟨_, rfl⟩ (h.members .grants)

theorem missingField?_eq_none (h : d.Typed) : d.missingField? = none ↔ d.Complete := by
  rw [Draft.missingField?_eq_none, h.code_memberOf_iff]
  constructor
  · rintro ⟨clientId, grants, redirects⟩
    exact ⟨Value.present_of_truthy (h.scalars .clientId) clientId, grants, redirects⟩
  · intro complete
    exact ⟨complete.clientId.truthy, complete.grants, complete.redirects⟩

theorem copySettings_client (h : d.Typed) :
    copySettings .client d.clientSettings = .ok (.bag .client d.client.clientSettings) := by
  have typed : d.clientSettings = .null ∨ ∃ options, d.clientSettings = .bag .client options :=
    h.scalars .clientSettings
  rcases typed with absent | ⟨options, given⟩
  · simp only [client, absent, optionsOf, copySettings]
  · simp only [client, given, optionsOf, copySettings]

theorem copySettings_token (h : d.Typed) :
    copySettings .token d.tokenSettings = .ok (.bag .token d.client.tokenSettings) := by
  have typed : d.tokenSettings = .null ∨ ∃ options, d.tokenSettings = .bag .token options :=
    h.scalars .tokenSettings
  rcases typed with absent | ⟨options, given⟩
  · simp only [client, absent, optionsOf, copySettings]
  · simp only [client, given, optionsOf, copySettings]

theorem complete_eq (h : d.Typed) :
    d.complete (.bag .client d.client.clientSettings) (.bag .token d.client.tokenSettings) =
      d.client.fields := by
  have named := Value.orElse_eq d.id (h.scalars .name)
  simp only [complete, Client.fields, client]
  congr 1
  · exact named.symm
  · cases d.methods <;> rfl

/-- What the checks of a build let through, the checks of the client let through again. -/
theorem accepted (h : d.Typed) (complete : d.Complete) (scopes : ∀ v ∈ d.scopes, v.IsScope)
    (uris : ∀ v ∈ d.redirectUris, v.IsRedirectUri) : d.client.Accepted where
  id := h.named
  clientId := complete.clientId.truthy
  name := by
    have named : d.client.name = _ := Value.orElse_eq d.id (h.scalars .name)
    rw [named]
    split
    next present => exact present
    · exact h.named
  grants := complete.grants
  methods := by
    simp only [client]
    split
    · simp
    next nonempty => exact nonempty
  redirects code := complete.redirects (h.code_memberOf_iff.mp code)
  scopes v member := Validation.scopeOk_of_scope (scopes v member)
  redirectUris v member := Validation.redirectUriOk_of_redirectUri (uris v member)

/-- So the client of a complete draft is made, and nothing but the end of the build is logged. -/
theorem build_of_valid (h : d.Typed) (complete : d.Complete) (scopes : ∀ v ∈ d.scopes, v.IsScope)
    (uris : ∀ v ∈ d.redirectUris, v.IsRedirectUri) :
    d.build = ⟨.ok d.client, [Draft.built d.client]⟩ := by
  have accepted := h.accepted complete scopes uris
  have made : Client.make (d.complete (.bag .client d.client.clientSettings)
      (.bag .token d.client.tokenSettings)) = .ok d.client := by
    rw [h.complete_eq, Client.make_of_accepted accepted]
  have valid : Validation.scopes d.scopes = .ok () := Validation.scopes_of_valid accepted.scopes
  have valid' : Validation.redirectUris d.redirectUris = .ok () :=
    Validation.redirectUris_of_valid accepted.redirectUris
  simp only [build, h.missingField?_eq_none.mpr complete, valid, valid', h.copySettings_client,
    h.copySettings_token]
  show (Outcome.ok ()).andThen (fun _ => (Outcome.ok ()).andThen fun _ =>
    (Outcome.ok (Value.bag .client d.client.clientSettings)).andThen fun clientSettings =>
    (Outcome.ok (Value.bag .token d.client.tokenSettings)).andThen fun tokenSettings =>
    (Client.make (d.complete clientSettings tokenSettings)).andThen fun c =>
    (Outcome.record (built c)).andThen fun _ => Outcome.ok c) = _
  simp only [Outcome.andThen_ok, made]
  rfl

theorem build_of_missing {field : String} (found : d.missingField? = some field) :
    d.build = d.missing field := by
  simp only [build, found, missing]

/-- A complete draft is refused by the checks of its scopes and of its redirect URIs alone. -/
theorem build_of_complete (h : d.Typed) (complete : d.Complete) : d.Verdict d.build := by
  have required := h.missingField?_eq_none.mpr complete
  rcases Validation.scopes_settle (h.members .scopes) with scopes | ⟨v, member, bad, refused⟩
  · have valid : Validation.scopes d.scopes = .ok () :=
      Validation.scopes_of_valid fun v member => Validation.scopeOk_of_scope (scopes v member)
    rcases Validation.redirectUris_settle (h.members .redirectUris) with
      uris | ⟨v, member, bad, refused⟩
    · rw [h.build_of_valid complete scopes uris]
      exact .built complete scopes uris
    · have refused' : Validation.redirectUris d.redirectUris = _ := refused
      simp only [build, required, valid, refused']
      exact .badRedirectUri complete scopes member bad
  · have refused' : Validation.scopes d.scopes = _ := refused
    simp only [build, required, refused']
    exact .badScope complete member bad

/-- A build refuses the draft for the first requirement that it misses, in the order of its checks,
or else makes the client. -/
theorem build_verdict (h : d.Typed) : d.Verdict d.build := by
  cases present : d.clientId.truthy with
  | false =>
      have missing : d.missingField? = some "client_id" := by simp [Draft.missingField?, present]
      rw [build_of_missing missing]
      exact .noClientId ((Value.absent_iff (h.scalars .clientId)).mp present)
  | true =>
      have clientId := Value.present_of_truthy (h.scalars .clientId) present
      by_cases grants : d.grants = []
      · have missing : d.missingField? = some "authorization_grant_types" := by
          simp [Draft.missingField?, present, grants]
        rw [build_of_missing missing]
        exact .noGrants clientId grants
      · by_cases redirects : authorizationCode ∈ d.grants ∧ d.redirectUris = []
        · obtain ⟨code, absent⟩ := redirects
          have missing : d.missingField? = some "redirect_uris" := by
            simp [Draft.missingField?, present, grants, h.code_memberOf_iff.mpr code, absent]
          rw [build_of_missing missing]
          exact .noRedirectUris clientId code absent
        · exact h.build_of_complete
            ⟨clientId, grants, fun code absent => redirects ⟨code, absent⟩⟩

end Typed

end Draft

end ClientRegistry
