import ClientRegistry.Proofs.Client.Building

/-! Clients and the drafts that are loaded with their fields. The checks of a client are made twice,
by its own constructor and by the build of a draft, in different orders and with defaults on one
side only. Both let through the same clients, and a client is what is built of a draft that is
loaded with it. -/

namespace ClientRegistry

/-- The sets repeat no member. -/
structure Client.Distinct (c : Client) : Prop where
  methods : c.methods.Nodup
  grants : c.grants.Nodup
  redirectUris : c.redirectUris.Nodup
  scopes : c.scopes.Nodup

namespace Edit

variable {xs ys : List Value}

/-- Items that can be members are gone through to the end. -/
theorem eachMember_of_hashable {f : List Value → Value → List Value}
    (hashable : ∀ y ∈ ys, y.hashable = true) : eachMember f xs ys = (ys.foldl f xs, none) := by
  induction ys generalizing xs with
  | nil => rfl
  | cons y rest ih =>
      rw [List.forall_mem_cons] at hashable
      simp only [eachMember, hashable.1, if_true, List.foldl_cons]
      exact ih hashable.2

/-- An empty set that is updated by a set without repetitions becomes this set. -/
theorem onSet_update (hashable : ∀ y ∈ ys, y.hashable = true) (plain : Value.Plain ys)
    (distinct : ys.Nodup) : onSet .update [.frozen ys] [] = (ys, none) := by
  have gathered : ys.foldl Value.insertMember [] = ys := Value.toMembers_of_nodup plain distinct
  simp only [onSet, eachIterable, Value.items?, eachMember_of_hashable hashable, gathered]

end Edit

theorem Value.IsToken.hashable {kind : TokenKind} {v : Value} (h : v.IsToken kind) :
    v.hashable = true := by
  obtain ⟨s, rfl⟩ := h
  rfl

/-- What a set field admits can be a member, and is the same as nothing but itself. -/
theorem SetField.admits_plain {field : SetField} {xs : List Value}
    (h : ∀ v ∈ xs, field.Admits v) : (∀ v ∈ xs, v.hashable = true) ∧ Value.Plain xs := by
  cases field with
  | methods =>
      exact ⟨fun v member => Value.IsToken.hashable (h v member), Value.plain_of_tokens h⟩
  | grants => exact ⟨fun v member => Value.IsToken.hashable (h v member), Value.plain_of_tokens h⟩
  | redirectUris =>
      exact ⟨fun v member => Value.IsText.hashable (h v member), Value.plain_of_texts h⟩
  | scopes => exact ⟨fun v member => Value.IsText.hashable (h v member), Value.plain_of_texts h⟩

namespace Draft

/-- Updating an empty set field gives the field the members of the update. -/
theorem apply_update {d : Draft} {field : SetField} {xs : List Value} (none : d.members field = [])
    (admitted : ∀ v ∈ xs, field.Admits v) (distinct : xs.Nodup) :
    (d.apply (.edit field [.call .update [.frozen xs]])).1 = d.withMembers field xs := by
  obtain ⟨hashable, plain⟩ := SetField.admits_plain admitted
  simp only [apply, Edit.run, none, Edit.onSet_update hashable plain distinct]

end Draft

namespace Client

variable {c c' : Client} {d : Draft}

/-- The calls that load a draft with the fields of a client but its id. -/
def loading (c : Client) : List Draft.Call :=
  [.assign .clientId c.clientId, .assign .issuedAt c.issuedAt, .assign .secret c.secret,
    .assign .secretExpiresAt c.secretExpiresAt, .assign .name c.name,
    .edit .methods [.call .update [.frozen c.methods]],
    .edit .grants [.call .update [.frozen c.grants]],
    .edit .redirectUris [.call .update [.frozen c.redirectUris]],
    .edit .scopes [.call .update [.frozen c.scopes]],
    .assign .clientSettings (.bag .client c.clientSettings),
    .assign .tokenSettings (.bag .token c.tokenSettings)]

/-- A draft that is loaded with exactly the fields of a client. -/
def load (c : Client) : Except Fault Draft :=
  (Draft.withId c.id).map fun d => d.applyAll c.loading

/-- Loading is the same as deriving a draft, if there is an id. -/
theorem load_eq (typed : c.Typed) (distinct : c.Distinct) (present : c.id.truthy = true) :
    c.load = .ok (.ofClient c) := by
  simp only [load, Draft.withId, present, if_true, Except.map, loading, Draft.applyAll,
    List.foldl_cons, List.foldl_nil]
  rw [Draft.apply_update rfl typed.methods distinct.methods,
    Draft.apply_update rfl typed.grants distinct.grants,
    Draft.apply_update rfl typed.redirectUris distinct.redirectUris,
    Draft.apply_update rfl typed.scopes distinct.scopes]
  rfl

/-- The client has an id, a name and a method, and a draft that is loaded with it is built. -/
structure Loads (c : Client) : Prop where
  id : c.id.IsNonemptyText
  name : c.name.IsNonemptyText
  methods : c.methods ≠ []
  builds : ∃ d c', c.load = .ok d ∧ d.build.result = .ok c'

theorem fields_inj : c.fields = c'.fields ↔ c = c' := by
  refine ⟨fun same => ?_, fun same => same ▸ rfl⟩
  have shaped : shape c.fields = .ok c' := shape_eq_ok.mpr same.symm
  rw [shape_eq_ok.mpr rfl] at shaped
  exact Except.ok.inj shaped

/-- A constructor that accepts the fields of a client makes this client. -/
theorem make_fields : (make c.fields).result = .ok c' ↔ c' = c ∧ c.Accepted := by
  rw [make_eq_ok, fields_inj]
  constructor
  · rintro ⟨rfl, accepted⟩
    exact ⟨rfl, accepted⟩
  · rintro ⟨rfl, accepted⟩
    exact ⟨rfl, accepted⟩

theorem exists_make_iff : (∃ f, (make f).result = .ok c) ↔ c.Accepted := by
  constructor
  · rintro ⟨f, made⟩
    exact (make_eq_ok.mp made).2
  · intro accepted
    exact ⟨c.fields, make_eq_ok.mpr ⟨rfl, accepted⟩⟩

/-- Where nothing is left to default, a loaded draft is built to the client that it was loaded
with. -/
theorem eq_of_build (name : c.name.truthy = true) (methods : c.methods ≠ [])
    (built : (Draft.ofClient c).build.result = .ok c') : c' = c := by
  obtain ⟨_, _, copied, copied', completed, -⟩ := Draft.build_eq_ok.mp built
  cases copied
  cases copied'
  refine fields_inj.mp (completed.trans ?_)
  simp only [Draft.complete, Draft.ofClient, fields, name, if_true, List.isEmpty_iff, methods,
    if_false]

/-- The two sets of checks let through the same clients. -/
theorem accepted_iff_loads (typed : c.Typed) (distinct : c.Distinct) : c.Accepted ↔ c.Loads := by
  constructor
  · intro accepted
    exact ⟨typed.id.nonempty accepted.id, typed.name.nonempty accepted.name, accepted.methods,
      _, _, load_eq typed distinct accepted.id, Draft.build_ofClient accepted⟩
  · rintro ⟨id, name, methods, d, c', loaded, built⟩
    rw [load_eq typed distinct id.truthy] at loaded
    cases loaded
    obtain rfl := eq_of_build name.truthy methods built
    exact Draft.accepted_of_build built

/-- A client is one that is built of the draft loaded with it. -/
theorem accepted_iff_fixed (typed : c.Typed) (distinct : c.Distinct) :
    c.Accepted ↔ ∃ d, c.load = .ok d ∧ d.build.result = .ok c := by
  constructor
  · intro accepted
    exact ⟨_, load_eq typed distinct accepted.id, Draft.build_ofClient accepted⟩
  · rintro ⟨d, _, built⟩
    exact Draft.accepted_of_build built

theorem same_self (c : Client) : c.same c = true := Value.sameList_refl _

/-- Fields of the right types that are consistent are accepted. -/
theorem Typed.accepted (typed : c.Typed) (h : c.fields.Consistent) : c.Accepted where
  id := h.id.truthy
  clientId := h.clientId.truthy
  name := h.name.truthy
  grants := by
    obtain ⟨xs, same, nonempty⟩ := h.grants
    cases same
    exact nonempty
  methods := by
    obtain ⟨xs, same, nonempty⟩ := h.methods
    cases same
    exact nonempty
  redirects code :=
    h.redirects _ _ rfl rfl ((Value.memberOf_iff_of_tokens ⟨_, rfl⟩ typed.grants).mp code)
  scopes v member := by
    obtain ⟨xs, same, scopes⟩ := h.scopes
    cases same
    exact Validation.scopeOk_of_scope (scopes v member)
  redirectUris v member := by
    obtain ⟨xs, same, uris⟩ := h.redirectUris
    cases same
    exact Validation.redirectUriOk_of_redirectUri (uris v member)

end Client

/-- What the checks of a build let through, its constructor call accepts, and logs nothing. -/
theorem Draft.Typed.make_complete {d : Draft} (typed : d.Typed) (required : d.missingField? = none)
    (scopes : (Validation.scopes d.scopes).result = .ok ())
    (uris : (Validation.redirectUris d.redirectUris).result = .ok ()) :
    ∃ clientSettings tokenSettings, copySettings .client d.clientSettings = .ok clientSettings ∧
      copySettings .token d.tokenSettings = .ok tokenSettings ∧
      Client.make (d.complete clientSettings tokenSettings) = .ok d.client := by
  have complete := typed.missingField?_eq_none.mp required
  have valid : ∀ v ∈ d.scopes, v.IsScope := fun v member =>
    Value.IsText.scope (typed.members .scopes v member) (Validation.scopes_eq_ok.mp scopes v member)
  have valid' : ∀ v ∈ d.redirectUris, v.IsRedirectUri := fun v member =>
    Value.IsText.redirectUri (typed.members .redirectUris v member)
      (Validation.redirectUris_eq_ok.mp uris v member)
  refine ⟨_, _, typed.copySettings_client, typed.copySettings_token, ?_⟩
  rw [typed.complete_eq, Client.make_of_accepted (typed.accepted complete valid valid')]

end ClientRegistry
