import ClientRegistry.Proofs.Client.Acceptance
import ClientRegistry.Proofs.Value.Kinds

/-! Consistent clients: the conditions that a registration keeps on every way by which it comes
into being. They are stated of the twelve fields as values, so that the kinds of the sets and of
the bags are part of them. Nothing is said of clients whose fields are not of their types. -/

namespace ClientRegistry

/-- Scalar fields and members of sets have the types that a registration declares for them. What
the options of the bags are is left open. -/
structure Client.Typed (c : Client) : Prop where
  id : c.id.IsText
  clientId : c.clientId.IsText
  issuedAt : c.issuedAt = .null ∨ c.issuedAt.IsMoment
  secret : c.secret = .null ∨ c.secret.IsText
  secretExpiresAt : c.secretExpiresAt = .null ∨ c.secretExpiresAt.IsMoment
  name : c.name.IsText
  methods : ∀ v ∈ c.methods, v.IsToken .authMethod
  grants : ∀ v ∈ c.grants, v.IsToken .grantType
  redirectUris : ∀ v ∈ c.redirectUris, v.IsText
  scopes : ∀ v ∈ c.scopes, v.IsText

instance (c : Client) : Decidable c.Typed :=
  decidable_of_iff
    (c.id.IsText ∧ c.clientId.IsText ∧ (c.issuedAt = .null ∨ c.issuedAt.IsMoment) ∧
      (c.secret = .null ∨ c.secret.IsText) ∧
      (c.secretExpiresAt = .null ∨ c.secretExpiresAt.IsMoment) ∧ c.name.IsText ∧
      (∀ v ∈ c.methods, v.IsToken .authMethod) ∧ (∀ v ∈ c.grants, v.IsToken .grantType) ∧
      (∀ v ∈ c.redirectUris, v.IsText) ∧ ∀ v ∈ c.scopes, v.IsText)
    ⟨fun ⟨id, clientId, issuedAt, secret, expiry, name, methods, grants, uris, scopes⟩ =>
      ⟨id, clientId, issuedAt, secret, expiry, name, methods, grants, uris, scopes⟩,
      fun h => ⟨h.id, h.clientId, h.issuedAt, h.secret, h.secretExpiresAt, h.name, h.methods,
        h.grants, h.redirectUris, h.scopes⟩⟩

/-- A text with at least one character. -/
def Value.IsNonemptyText (v : Value) : Prop := ∃ s, v = .text s ∧ s ≠ ""

def Value.IsScope (v : Value) : Prop :=
  ∃ s, v = .text s ∧ Scope.isAdmissible s.toList = true

def Value.IsRedirectUri (v : Value) : Prop :=
  ∃ s, v = .text s ∧ Uri.isRedirect s.toList = true ∧ '#' ∉ s.toList

/-- What holds of the fields of every client. -/
structure Fields.Consistent (f : Fields) : Prop where
  id : f.id.IsNonemptyText
  clientId : f.clientId.IsNonemptyText
  name : f.name.IsNonemptyText
  methods : ∃ xs, f.methods = .frozen xs ∧ xs ≠ []
  grants : ∃ xs, f.grants = .frozen xs ∧ xs ≠ []
  redirectUris : ∃ xs, f.redirectUris = .frozen xs ∧ ∀ v ∈ xs, v.IsRedirectUri
  scopes : ∃ xs, f.scopes = .frozen xs ∧ ∀ v ∈ xs, v.IsScope
  redirects : ∀ grants uris, f.grants = .frozen grants → f.redirectUris = .frozen uris →
    authorizationCode ∈ grants → uris ≠ []
  clientSettings : ∃ options, f.clientSettings = .bag .client options
  tokenSettings : ∃ options, f.tokenSettings = .bag .token options

theorem Value.IsText.nonempty {v : Value} (h : v.IsText) (present : v.truthy = true) :
    v.IsNonemptyText := by
  obtain ⟨s, rfl⟩ := h
  refine ⟨s, rfl, ?_⟩
  intro empty
  simp [truthy, empty] at present

theorem Value.IsText.scope {v : Value} (h : v.IsText)
    (valid : Validation.scopeOk v = .ok true) : v.IsScope := by
  obtain ⟨s, rfl⟩ := h
  exact ⟨s, rfl, Except.ok.inj valid⟩

theorem Value.IsText.redirectUri {v : Value} (h : v.IsText)
    (valid : Validation.redirectUriOk v = .ok true) : v.IsRedirectUri := by
  obtain ⟨s, rfl⟩ := h
  have redirect : Uri.isRedirect s.toList = true := Except.ok.inj valid
  refine ⟨s, rfl, redirect, ?_⟩
  simp only [Uri.isRedirect, Bool.and_eq_true] at redirect
  simpa using redirect.2

theorem Value.memberOf_of_mem_grant {s : String} {xs : List Value}
    (h : Value.token .grantType (.text s) ∈ xs) :
    (Value.token .grantType (.text s)).memberOf xs = true :=
  List.any_eq_true.mpr ⟨_, h, by simp [same, sameLeaf]⟩

namespace Client

/-- The property that every step keeps: a client whose fields are of their types is consistent. -/
def Sound (c : Client) : Prop := c.Typed → c.fields.Consistent

theorem Accepted.sound {c : Client} (h : c.Accepted) : c.Sound := by
  intro typed
  have redirects : ∀ grants uris, c.fields.grants = .frozen grants →
      c.fields.redirectUris = .frozen uris → authorizationCode ∈ grants → uris ≠ [] := by
    intro grants uris hg hu member
    cases hg
    cases hu
    exact h.redirects (Value.memberOf_of_mem_grant member)
  exact {
    id := typed.id.nonempty h.id
    clientId := typed.clientId.nonempty h.clientId
    name := typed.name.nonempty h.name
    methods := ⟨c.methods, rfl, h.methods⟩
    grants := ⟨c.grants, rfl, h.grants⟩
    redirectUris :=
      ⟨c.redirectUris, rfl, fun v hv => (typed.redirectUris v hv).redirectUri (h.redirectUris v hv)⟩
    scopes := ⟨c.scopes, rfl, fun v hv => (typed.scopes v hv).scope (h.scopes v hv)⟩
    redirects
    clientSettings := ⟨c.clientSettings, rfl⟩
    tokenSettings := ⟨c.tokenSettings, rfl⟩ }

theorem sound_of_make {f : Fields} {c : Client} (made : (make f).result = .ok c) : c.Sound :=
  (make_eq_ok.mp made).2.sound

/-- Neither the types nor the consistency of a client depend on what its bags hold. -/
theorem Sound.withSettings {c : Client} (h : c.Sound) (clientSettings tokenSettings : Options) :
    ({ c with clientSettings, tokenSettings } : Client).Sound := by
  intro typed
  have consistent := h ⟨typed.id, typed.clientId, typed.issuedAt, typed.secret,
    typed.secretExpiresAt, typed.name, typed.methods, typed.grants, typed.redirectUris, typed.scopes⟩
  exact { consistent with
    clientSettings := ⟨clientSettings, rfl⟩
    tokenSettings := ⟨tokenSettings, rfl⟩ }

end Client

end ClientRegistry
