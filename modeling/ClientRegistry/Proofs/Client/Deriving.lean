import ClientRegistry.Proofs.Client.Calls

/-! Clients that are derived from others. A call on a draft changes the field that it is about and
no other, and a build replaces no value but an absent one; so a derived client differs from the one
that its draft was made of in fields that calls were about. -/

namespace ClientRegistry

/-- The twelve fields of a client. -/
inductive Field where
  | scalar (field : ScalarField)
  | set (field : SetField)
  deriving DecidableEq

/-- The value of a field; sets are frozen and settings are bags. -/
def Client.value (c : Client) : Field → Value
  | .scalar .id => c.id
  | .scalar .clientId => c.clientId
  | .scalar .issuedAt => c.issuedAt
  | .scalar .secret => c.secret
  | .scalar .secretExpiresAt => c.secretExpiresAt
  | .scalar .name => c.name
  | .scalar .clientSettings => .bag .client c.clientSettings
  | .scalar .tokenSettings => .bag .token c.tokenSettings
  | .set .methods => .frozen c.methods
  | .set .grants => .frozen c.grants
  | .set .redirectUris => .frozen c.redirectUris
  | .set .scopes => .frozen c.scopes

/-- A client is known by its fields. -/
theorem Client.eq_of_value {c c' : Client} (same : ∀ field, c.value field = c'.value field) :
    c = c' := by
  have methods := Value.frozen.inj (same (.set .methods))
  have grants := Value.frozen.inj (same (.set .grants))
  have uris := Value.frozen.inj (same (.set .redirectUris))
  have scopes := Value.frozen.inj (same (.set .scopes))
  have client := (Value.bag.inj (same (.scalar .clientSettings))).2
  have token := (Value.bag.inj (same (.scalar .tokenSettings))).2
  cases c
  cases c'
  simp only [Client.mk.injEq]
  exact ⟨same (.scalar .id), same (.scalar .clientId), same (.scalar .issuedAt),
    same (.scalar .secret), same (.scalar .secretExpiresAt), same (.scalar .name), methods, grants,
    uris, scopes, client, token⟩

/-- A value that no default of a build takes the place of. -/
def Field.Given : Field → Value → Prop
  | .scalar .name, v => v.truthy = true
  | .scalar .clientSettings, v => v ≠ .null
  | .scalar .tokenSettings, v => v ≠ .null
  | .set .methods, v => v ≠ .frozen []
  | _, _ => True

/-- Nothing is left to default in the fields of a client. -/
theorem Client.Accepted.given {c : Client} (h : c.Accepted) (field : Field) :
    field.Given (c.value field) := by
  cases field with
  | scalar field =>
      cases field with
      | name => exact h.name
      | clientSettings => exact fun same => by cases same
      | tokenSettings => exact fun same => by cases same
      | _ => trivial
  | set field =>
      cases field with
      | methods => exact fun same => h.methods (Value.frozen.inj same)
      | _ => trivial

namespace Draft

/-- The value of a field, as it goes into a client. -/
def value (d : Draft) : Field → Value
  | .scalar field => d.scalar field
  | .set field => .frozen (d.members field)

/-- The field that a call is about. -/
def Call.field : Call → Field
  | .assign field _ => .scalar field
  | .add field _ => .set field
  | .edit field _ => .set field

variable {c : Client} {d d' : Draft} {field : Field}

theorem value_ofClient (c : Client) (field : Field) : (ofClient c).value field = c.value field := by
  cases field with
  | scalar field => cases field <;> rfl
  | set field => cases field <;> rfl

theorem eq_of_value (same : ∀ field, d.value field = d'.value field) : d = d' := by
  have methods := Value.frozen.inj (same (.set .methods))
  have grants := Value.frozen.inj (same (.set .grants))
  have uris := Value.frozen.inj (same (.set .redirectUris))
  have scopes := Value.frozen.inj (same (.set .scopes))
  cases d
  cases d'
  simp only [mk.injEq]
  exact ⟨same (.scalar .id), same (.scalar .clientId), same (.scalar .issuedAt),
    same (.scalar .secret), same (.scalar .secretExpiresAt), same (.scalar .name), methods, grants,
    uris, scopes, same (.scalar .clientSettings), same (.scalar .tokenSettings)⟩

theorem value_withMembers_of_ne {g : SetField} (other : .set g ≠ field) (xs : List Value) :
    (d.withMembers g xs).value field = d.value field := by
  cases field with
  | scalar field => exact scalar_withMembers d g xs field
  | set field =>
      have ne : ¬field = g := fun same => other (congrArg Field.set same.symm)
      simp only [value, members_withMembers, ne, if_false]

theorem value_assign_of_ne {g : ScalarField} {v : Value} (assigned : d.assign g v = .ok d')
    (other : .scalar g ≠ field) : d'.value field = d.value field := by
  obtain ⟨scalars, members, -⟩ := assign_eq_ok assigned
  cases field with
  | scalar field =>
      have ne : ¬field = g := fun same => other (congrArg Field.scalar same.symm)
      simp only [value, scalars, ne, if_false]
  | set field => exact congrArg Value.frozen (members field)

/-- A call leaves the fields alone that it is not about, whether it succeeds or fails. -/
theorem value_apply_of_ne {call : Call} (other : call.field ≠ field) :
    (d.apply call).1.value field = d.value field := by
  cases call with
  | assign g v =>
      simp only [apply]
      split
      next assigned => exact value_assign_of_ne assigned other
      · rfl
  | add g v =>
      simp only [apply, add]
      split
      next added =>
        split at added <;> cases added
        exact value_withMembers_of_ne other _
      · rfl
  | edit g edits => exact value_withMembers_of_ne other _

theorem value_applyAll_of_ne {calls : List Call} (others : ∀ call ∈ calls, call.field ≠ field) :
    (d.applyAll calls).value field = d.value field := by
  induction calls generalizing d with
  | nil => rfl
  | cons call rest ih =>
      rw [List.forall_mem_cons] at others
      exact (ih others.2).trans (value_apply_of_ne others.1)

theorem copySettings_of_given {kind : BagKind} {v copy : Value} (given : v ≠ .null)
    (copied : copySettings kind v = .ok copy) : copy = v := by
  cases v with
  | null => exact absurd rfl given
  | bag k options => exact (Except.ok.inj copied).symm
  | _ => cases copied

/-- What is given in a draft is what its client has. -/
theorem value_of_build (built : d.build.result = .ok c) (given : field.Given (d.value field)) :
    c.value field = d.value field := by
  obtain ⟨clientSettings, tokenSettings, copied, copied', completed, -⟩ := build_eq_ok.mp built
  simp only [Client.fields, complete, Fields.mk.injEq] at completed
  obtain ⟨id, clientId, issuedAt, secret, expiry, name, methods, grants, uris, scopes, client,
    token⟩ := completed
  cases field with
  | scalar field =>
      cases field with
      | id => exact id
      | clientId => exact clientId
      | issuedAt => exact issuedAt
      | secret => exact secret
      | secretExpiresAt => exact expiry
      | name =>
          have present : d.name.truthy = true := given
          exact name.trans (if_pos present)
      | clientSettings => exact client.trans (copySettings_of_given given copied)
      | tokenSettings => exact token.trans (copySettings_of_given given copied')
  | set field =>
      cases field with
      | methods =>
          have nonempty : ¬d.methods.isEmpty := fun empty =>
            given (congrArg Value.frozen (List.isEmpty_iff.mp empty))
          exact methods.trans (congrArg Value.frozen (if_neg nonempty))
      | grants => exact grants
      | redirectUris => exact uris
      | scopes => exact scopes

/-- A client that is derived by calls agrees with the first in all fields that no call is about. -/
theorem value_of_derived {c' : Client} (accepted : c.Accepted) {calls : List Call}
    (built : ((ofClient c).applyAll calls).build.result = .ok c')
    (others : ∀ call ∈ calls, call.field ≠ field) : c'.value field = c.value field := by
  have kept : ((ofClient c).applyAll calls).value field = c.value field :=
    (value_applyAll_of_ne others).trans (value_ofClient c field)
  rw [value_of_build built (kept ▸ accepted.given field), kept]

end Draft

end ClientRegistry
