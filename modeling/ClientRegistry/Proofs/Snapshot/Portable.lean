import ClientRegistry.Proofs.Snapshot.Client
import ClientRegistry.Proofs.Snapshot.Json

/-! Clients that a JSON text can carry. Every client that is restored from a text is one, so that
writing and reading go on without end. -/

namespace ClientRegistry

open Json (Shaped mostNested)

/-- Nothing, or a moment of the calendar whose offset is a count of minutes. -/
def Value.IsPortableMoment (v : Value) : Prop :=
  v = .null ∨ ∃ m, v = .moment m ∧ m.Valid ∧ m.WholeMinutes

/-- Clients whose fields are of their types and whose bags hold values of the JSON types, with
doubles as given, integers of at most 4300 characters (`Json.IntReadable`) and no deeper than a
text may be nested. -/
structure Client.Portable (double : Binary64 → Prop) (c : Client) : Prop where
  storable : c.Storable
  issuedAt : c.issuedAt.IsPortableMoment
  secret : c.secret = .null ∨ c.secret.IsText
  secretExpiresAt : c.secretExpiresAt.IsPortableMoment
  name : c.name.IsText
  clientSettings : Shaped double (mostNested - 1) (.dict c.clientSettings)
  tokenSettings : Shaped double (mostNested - 1) (.dict c.tokenSettings)

theorem Value.IsPortableMoment.null_or_moment {v : Value} (h : v.IsPortableMoment) :
    v = .null ∨ v.IsMoment :=
  h.imp_right fun ⟨m, same, _⟩ => ⟨m, same⟩

theorem Client.Portable.typed {double : Binary64 → Prop} {c : Client} (h : c.Portable double) :
    c.Typed where
  id := h.storable.id
  clientId := h.storable.clientId
  issuedAt := h.issuedAt.null_or_moment
  secret := h.secret
  secretExpiresAt := h.secretExpiresAt.null_or_moment
  name := h.name
  methods v member := (h.storable.methods v member).isToken
  grants v member := (h.storable.grants v member).isToken
  redirectUris v member :=
    Validation.isText_of_redirectUriOk (h.storable.accepted.redirectUris v member)
  scopes := h.storable.scopes

namespace Snapshot

theorem valid_of_portableMoment {o : Option Moment} (h : (optional .moment o).IsPortableMoment) :
    ∀ m ∈ o, m.Valid ∧ m.WholeMinutes := by
  intro m member
  cases member
  rcases h with absent | ⟨_, same, valid⟩
  · cases absent
  · cases same
    exact valid

/-- A portable client is described by a portable snapshot. -/
theorem exists_client_eq {double : Binary64 → Prop} {c : Client} (h : c.Portable double)
    (canonical : ∀ x, double x → x.Canonical) :
    ∃ s : Snapshot, s.client = c ∧ s.Listed ∧ s.Portable := by
  obtain ⟨s, rfl, listed⟩ := exists_client h.storable h.typed
  exact ⟨s, rfl, listed, valid_of_portableMoment h.issuedAt,
    valid_of_portableMoment h.secretExpiresAt, h.clientSettings.mono canonical,
    h.tokenSettings.mono canonical⟩

variable {t : List Char} {s : Snapshot} {c : Client}

theorem shaped_of_given {v : Value} {data : List (String × Value)} {field : String} {es : Options}
    (shaped : Shaped Binary64.Canonical mostNested (.dict es)) (named : es.filterMap keyName = data)
    (h : given data field = some v) : Shaped Binary64.Canonical (mostNested - 1) v := by
  obtain ⟨d, found, rfl⟩ := Option.map_eq_some_iff.mp h
  subst named
  obtain ⟨e, member, key⟩ := List.mem_filterMap.mp (List.mem_of_find?_eq_some found)
  have value : e.2 = d.2 := by
    obtain ⟨k, w⟩ := e
    cases k <;> cases key
    rfl
  rw [← value]
  cases shaped with
  | emptyDict => cases member
  | dict room es keyed values => exact values e member

theorem not_moment_of_shaped {double : Binary64 → Prop} {room : Nat} {v : Value}
    (h : Shaped double room v) : ¬v.IsMoment := by
  rintro ⟨m, rfl⟩
  cases h

theorem legible_of_defaulted {data : List (String × Value)} {field : String} {path : List PathStep}
    {o : Option Moment}
    (shaped : ∀ v, given data field = some v → Shaped Binary64.Canonical (mostNested - 1) v)
    (h : defaulted data field none (checkMoment .json path) = .ok o) :
    ∀ m ∈ o, m.Valid ∧ m.WholeMinutes := by
  intro m member
  cases member
  simp only [defaulted] at h
  split at h
  next v found =>
    have legible := legible_of_checkMoment (not_moment_of_shaped (shaped v found)) h
    exact ⟨legible.valid, legible.whole⟩
  · cases h

theorem shaped_of_defaulted {data : List (String × Value)} {field : String} {es : Options}
    (shaped : ∀ v, given data field = some v → Shaped Binary64.Canonical (mostNested - 1) v)
    (h : defaulted data field [] (checkOptions field) = .ok es) :
    Shaped Binary64.Canonical (mostNested - 1) (.dict es) := by
  simp only [defaulted] at h
  split at h
  next v found =>
    have value := shaped v found
    cases v with
    | dict fs =>
        rw [checkOptions_keyed field value.keyed] at h
        cases h
        exact value
    | _ => cases h
  · cases h
    exact .emptyDict _

theorem portable_of_ofJson (h : ofJson t = .ok s) : s.Portable := by
  simp only [ofJson] at h
  split at h
  next v read =>
    have shaped := Json.read?_shaped read
    cases v with
    | dict es =>
        have checks := ofInput_eq_ok.mp h
        have values : ∀ field v, given (es.filterMap keyName) field = some v →
            Shaped Binary64.Canonical (mostNested - 1) v := fun _ _ => shaped_of_given shaped rfl
        exact ⟨legible_of_defaulted (values _) checks.issuedAt,
          legible_of_defaulted (values _) checks.secretExpiresAt,
          shaped_of_defaulted (values _) checks.clientSettings,
          shaped_of_defaulted (values _) checks.tokenSettings⟩
    | _ => cases h
  · cases h

theorem named_of_mapM {kind : TokenKind} {names : List String} {xs : List Value}
    (h : names.mapM (tokenOf kind) = .ok xs) : ∀ v ∈ xs, v.IsNamedToken kind := by
  induction names generalizing xs with
  | nil =>
      cases h
      exact fun _ member => absurd member List.not_mem_nil
  | cons n rest ih =>
      rw [List.mapM_cons, except_bind_eq_ok] at h
      obtain ⟨x, token, h⟩ := h
      obtain ⟨ys, others, same⟩ := except_bind_eq_ok.mp h
      cases same
      refine List.forall_mem_cons.mpr ⟨?_, ih others⟩
      simp only [tokenOf] at token
      split at token
      · cases token
      next present =>
        cases token
        exact ⟨n, rfl, by simpa using present⟩

theorem named_of_tokensOf {kind : TokenKind} {names : List String} {xs : List Value}
    (h : tokensOf kind names = .ok xs) : xs.Nodup ∧ ∀ v ∈ xs, v.IsNamedToken kind := by
  obtain ⟨ys, tokens, rfl⟩ := except_map_eq_ok.mp h
  exact ⟨Value.nodup_toMembers ys,
    fun v member => named_of_mapM tokens v (Value.mem_of_mem_toMembers member)⟩

theorem texts_of_toMembers (xs : List String) :
    (Value.toMembers (xs.map .text)).Nodup ∧ ∀ v ∈ Value.toMembers (xs.map .text), v.IsText := by
  refine ⟨Value.nodup_toMembers _, fun v member => ?_⟩
  obtain ⟨t, -, rfl⟩ := List.mem_map.mp (Value.mem_of_mem_toMembers member)
  exact ⟨t, rfl⟩

theorem portableMoment_optional {o : Option Moment} (h : ∀ m ∈ o, m.Valid ∧ m.WholeMinutes) :
    (optional .moment o).IsPortableMoment := by
  cases o with
  | none => exact .inl rfl
  | some m => exact .inr ⟨m, rfl, h m rfl⟩

theorem isText_optional (o : Option String) :
    optional .text o = .null ∨ (optional .text o).IsText := by
  cases o with
  | none => exact .inl rfl
  | some t => exact .inr ⟨t, rfl⟩

/-- The client that a snapshot is restored to. -/
theorem eq_of_toClient (restored : s.toClient.result = .ok c) :
    ∃ methods grants, tokensOf .authMethod s.authMethods = .ok methods ∧
      tokensOf .grantType s.grantTypes = .ok grants ∧
      c = { id := .text s.id
            clientId := .text s.clientId
            issuedAt := optional .moment s.issuedAt
            secret := optional .text s.secret
            secretExpiresAt := optional .moment s.secretExpiresAt
            name := if (Value.text s.name).truthy then .text s.name else .text s.id
            methods := if methods.isEmpty then [clientSecretBasic] else methods
            grants
            redirectUris := Value.toMembers (s.redirectUris.map .text)
            scopes := Value.toMembers (s.scopes.map .text)
            clientSettings := s.clientSettings
            tokenSettings := s.tokenSettings } := by
  obtain ⟨d, drafted, built⟩ := Outcome.bind_eq_ok.mp restored
  rw [Outcome.ofExcept_result] at drafted
  simp only [toDraft, except_bind_eq_ok] at drafted
  obtain ⟨blank, withId, methods, hm, grants, hg, made⟩ := drafted
  have id : blank.id = .text s.id := by
    simp only [Draft.withId] at withId
    split at withId
    · cases withId
      rfl
    · cases withId
  cases made
  obtain ⟨clientSettings, tokenSettings, copied, copied', completed, -⟩ := Draft.build_eq_ok.mp built
  cases copied
  cases copied'
  refine ⟨methods, grants, hm, hg, ?_⟩
  cases c
  simpa [Client.fields, Draft.complete, id] using completed

theorem isText_of_filledName (name id : String) :
    (if (Value.text name).truthy then Value.text name else .text id).IsText := by
  split
  · exact ⟨name, rfl⟩
  · exact ⟨id, rfl⟩

theorem named_of_filledMethods {methods : List Value}
    (h : methods.Nodup ∧ ∀ v ∈ methods, v.IsNamedToken .authMethod) :
    let filled := if methods.isEmpty then [clientSecretBasic] else methods
    filled.Nodup ∧ ∀ v ∈ filled, v.IsNamedToken .authMethod := by
  intro filled
  simp only [filled]
  split
  · exact ⟨List.nodup_singleton _, List.forall_mem_singleton.mpr ⟨_, rfl, by decide⟩⟩
  · exact h

/-- The name and the methods that a snapshot leaves out are filled in with values that a text can
carry too. -/
theorem portable_of_toClient (h : s.Portable) (restored : s.toClient.result = .ok c) :
    c.Portable Binary64.Canonical := by
  have accepted := accepted_of_toClient restored
  obtain ⟨methods, grants, hm, hg, rfl⟩ := eq_of_toClient restored
  obtain ⟨methodsOnce, methodsNamed⟩ := named_of_filledMethods (named_of_tokensOf hm)
  obtain ⟨grantsOnce, grantsNamed⟩ := named_of_tokensOf hg
  obtain ⟨redirectUrisOnce, -⟩ := texts_of_toMembers s.redirectUris
  obtain ⟨scopesOnce, scopesText⟩ := texts_of_toMembers s.scopes
  exact {
    storable := {
      accepted
      id := ⟨s.id, rfl⟩
      clientId := ⟨s.clientId, rfl⟩
      methods := methodsNamed
      grants := grantsNamed
      scopes := scopesText
      methodsOnce
      grantsOnce
      redirectUrisOnce
      scopesOnce
      clientSettings := h.clientSettings.keyed
      tokenSettings := h.tokenSettings.keyed }
    issuedAt := portableMoment_optional h.issuedAt
    secret := isText_optional s.secret
    secretExpiresAt := portableMoment_optional h.secretExpiresAt
    name := isText_of_filledName s.name s.id
    clientSettings := h.clientSettings
    tokenSettings := h.tokenSettings }

end Snapshot

end ClientRegistry
