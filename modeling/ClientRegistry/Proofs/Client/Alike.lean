import ClientRegistry.Proofs.Client.Deriving
import ClientRegistry.Proofs.Snapshot.Decoding
import ClientRegistry.Proofs.Value.Sets

/-! Drafts that are alike: their sets list the same members and their other fields are equal. Such
drafts are built to clients that are the same, or both are refused, and for one cause unless a
value of another type stands among their scopes or redirect URIs. -/

namespace ClientRegistry

open Value (SameMembers)

namespace Validation

variable {v w : Value} {xs ys : List Value} {ok : Char → Bool}

theorem isText_of_character? {c : Char} (h : character? v = some c) : v.IsText := by
  cases v with
  | text s => exact ⟨s, rfl⟩
  | _ => cases h

theorem scanItems_eq_ok : scanItems ok xs = .ok true ↔
    ∀ v ∈ xs, ∃ c, character? v = some c ∧ ok c = true := by
  induction xs with
  | nil => simp [scanItems]
  | cons x rest ih =>
      simp only [scanItems, List.forall_mem_cons, ← ih]
      cases character? x with
      | none => simp
      | some c => by_cases good : ok c = true <;> simp [good]

theorem exact_of_scanItems (scanned : scanItems ok xs = .ok true) : ∀ v ∈ xs, v.Exact := by
  intro v member
  obtain ⟨c, single, -⟩ := scanItems_eq_ok.mp scanned v member
  exact Value.IsTextual.exact (.inl (isText_of_character? single))

/-- The check of a scope does not depend on its spelling. -/
theorem scopeOk_of_same (proper : v.Proper) (hashable : v.hashable = true)
    (hashable' : w.hashable = true) (same : v.same w = true) (h : scopeOk v = .ok true) :
    scopeOk w = .ok true := by
  cases proper with
  | null => rw [Value.exact_null w same, h]
  | text s => rw [Value.text_same.mp same, h]
  | bytes bs => rw [Value.IsTextual.exact (.inr ⟨bs, rfl⟩) w same, h]
  | tuple items =>
      obtain ⟨ys, rfl, all⟩ := Value.same_tuple_iff.mp same
      rw [Value.eq_of_forall₂_exact (exact_of_scanItems h) all]
      exact h
  | frozen apart members =>
      cases w with
      | frozen ys =>
          have perm := Value.perm_of_same (exact_of_scanItems h) apart.nodup same
          refine scanItems_eq_ok.mpr fun v member => ?_
          exact scanItems_eq_ok.mp h v (perm.mem_iff.mpr member)
      | set ys => cases hashable'
      | _ => simp [Value.same, Value.sameLeaf, Value.integer?] at same
  | list => cases hashable
  | set => cases hashable
  | dict => cases hashable
  | _ => cases h

/-- The scopes of two listings of a set are all good or all but some. -/
theorem scopes_ok_of_same (same : SameMembers xs ys) (ok : (scopes xs).result = .ok ()) :
    (scopes ys).result = .ok () := by
  rw [scopes_eq_ok] at ok ⊢
  intro w member
  obtain ⟨v, listed, alike⟩ := same.symm.exists_same member
  obtain ⟨apart, proper⟩ := Value.proper_frozen_iff.mp same.left
  obtain ⟨apart', proper'⟩ := Value.proper_frozen_iff.mp same.right
  exact scopeOk_of_same (proper v listed) (apart.hashable v listed) (apart'.hashable w member)
    ((proper' w member).lawful.symm v (proper v listed) alike) (ok v listed)

theorem redirectUris_ok_of_same (same : SameMembers xs ys)
    (ok : (redirectUris xs).result = .ok ()) : (redirectUris ys).result = .ok () := by
  rw [redirectUris_eq_ok] at ok ⊢
  intro w member
  obtain ⟨v, listed, alike⟩ := same.symm.exists_same member
  rw [(isText_of_redirectUriOk (ok v listed)).iff_same.mp alike]
  exact ok v listed

/-- Two checks let everything pass, or both refuse something, for one cause where the only cause is
a bad value. -/
theorem alike_of_settled {r r' : Except Fault Unit} {fault : Value → Fault} {P : Prop}
    (ok_iff : r = .ok () ↔ r' = .ok ()) (alike : ∀ v w, (fault v).Alike (fault w))
    (settled : P → r = .ok () ∨ ∃ v, r = .error (fault v))
    (settled' : P → r' = .ok () ∨ ∃ v, r' = .error (fault v)) :
    (r = .ok () ∧ r' = .ok ()) ∨
      ∃ e e', r = .error e ∧ r' = .error e' ∧ (P → e.Alike e') := by
  cases r with
  | ok _ => exact .inl ⟨rfl, ok_iff.mp rfl⟩
  | error e =>
      cases r' with
      | ok _ => cases ok_iff.mpr rfl
      | error e' =>
          refine .inr ⟨e, e', rfl, rfl, fun sole => ?_⟩
          obtain ⟨v, bad⟩ := (settled sole).resolve_left (by simp)
          obtain ⟨w, bad'⟩ := (settled' sole).resolve_left (by simp)
          cases bad
          cases bad'
          exact alike v w

theorem scopes_alike (same : SameMembers xs ys) :
    ((scopes xs).result = .ok () ∧ (scopes ys).result = .ok ()) ∨
      ∃ e e', (scopes xs).result = .error e ∧ (scopes ys).result = .error e' ∧
        ((∀ v ∈ xs, v = .null ∨ v.IsText) → e.Alike e') := by
  refine alike_of_settled ⟨scopes_ok_of_same same, scopes_ok_of_same same.symm⟩ .scope
    scopes_lenient fun lenient => scopes_lenient fun v member => ?_
  have exact : ∀ v ∈ xs, v.Exact := fun v member => by
    rcases lenient v member with rfl | text
    · exact Value.exact_null
    · exact Value.IsTextual.exact (.inl text)
  exact lenient v (same.mem_of_exact exact member)

theorem redirectUris_alike (same : SameMembers xs ys) :
    ((redirectUris xs).result = .ok () ∧ (redirectUris ys).result = .ok ()) ∨
      ∃ e e', (redirectUris xs).result = .error e ∧ (redirectUris ys).result = .error e' ∧
        ((∀ v ∈ xs, v.IsText) → e.Alike e') := by
  refine alike_of_settled ⟨redirectUris_ok_of_same same, redirectUris_ok_of_same same.symm⟩
    .redirectUri redirectUris_texts fun texts => redirectUris_texts fun v member => ?_
  have exact : ∀ v ∈ xs, v.Exact := fun v listed => Value.IsTextual.exact (.inl (texts v listed))
  exact texts v (same.mem_of_exact exact member)

end Validation

namespace Draft

variable {d d' e : Draft} {xs ys : List Value}

/-- The sets of the draft are such as can be listed. -/
def ProperSets (d : Draft) : Prop := ∀ field, (Value.frozen (d.members field)).Proper

/-- Drafts with the same sets and with equal values in their other fields. -/
structure Alike (d d' : Draft) : Prop where
  scalars : ∀ field, d.scalar field = d'.scalar field
  members : ∀ field, SameMembers (d.members field) (d'.members field)

/-- Scopes are texts or null, and redirect URIs are texts. -/
def Textual (d : Draft) : Prop :=
  (∀ v ∈ d.scopes, v = .null ∨ v.IsText) ∧ ∀ v ∈ d.redirectUris, v.IsText

namespace Alike

theorem refl (h : d.ProperSets) : d.Alike d := ⟨fun _ => rfl, fun field => .refl (h field)⟩

theorem left (h : d.Alike d') : d.ProperSets := fun field => (h.members field).left

theorem symm (h : d.Alike d') : d'.Alike d :=
  ⟨fun field => (h.scalars field).symm, fun field => (h.members field).symm⟩

theorem trans (h : d.Alike d') (h' : d'.Alike e) : d.Alike e :=
  ⟨fun field => (h.scalars field).trans (h'.scalars field),
    fun field => (h.members field).trans (h'.members field)⟩

theorem missingField?_eq (h : d.Alike d') : d.missingField? = d'.missingField? := by
  have clientId : d.clientId = d'.clientId := h.scalars .clientId
  have grants : SameMembers d.grants d'.grants := h.members .grants
  have uris : SameMembers d.redirectUris d'.redirectUris := h.members .redirectUris
  have code : authorizationCode.Proper := by decide
  simp only [missingField?, clientId, grants.memberOf_eq code, grants.isEmpty_eq, uris.isEmpty_eq]

theorem copiedOptions_eq (h : d.Alike d') : d.copiedOptions = d'.copiedOptions := by
  have client : d.clientSettings = d'.clientSettings := h.scalars .clientSettings
  have token : d.tokenSettings = d'.tokenSettings := h.scalars .tokenSettings
  rw [copiedOptions, copiedOptions, client, token]

theorem same_completed (h : d.Alike d') (clientSettings tokenSettings : Options) :
    (d.completed clientSettings tokenSettings).same
      (d'.completed clientSettings tokenSettings) = true := by
  have id : d.id = d'.id := h.scalars .id
  have clientId : d.clientId = d'.clientId := h.scalars .clientId
  have issuedAt : d.issuedAt = d'.issuedAt := h.scalars .issuedAt
  have secret : d.secret = d'.secret := h.scalars .secret
  have expiry : d.secretExpiresAt = d'.secretExpiresAt := h.scalars .secretExpiresAt
  have name : d.name = d'.name := h.scalars .name
  have methods : SameMembers d.methods d'.methods := h.members .methods
  have grants : SameMembers d.grants d'.grants := h.members .grants
  have uris : SameMembers d.redirectUris d'.redirectUris := h.members .redirectUris
  have scopes : SameMembers d.scopes d'.scopes := h.members .scopes
  have filled : (Value.frozen (if d.methods.isEmpty then [clientSecretBasic] else d.methods)).same
      (.frozen (if d'.methods.isEmpty then [clientSecretBasic] else d'.methods)) = true := by
    rw [methods.isEmpty_eq]
    split
    · exact Value.same_refl _
    · exact methods.same
  simp only [Client.same, Client.values, completed, id, clientId, issuedAt, secret, expiry, name,
    Value.sameList, Value.same_refl, filled, grants.same, uris.same, scopes.same, Bool.and_self]

/-- One client is as good as the other, or one refusal as the other. -/
theorem build (h : d.Alike d') (id : d.id.truthy = true) :
    (∃ c c', d.build.result = .ok c ∧ d'.build.result = .ok c' ∧ c.same c' = true) ∨
      ∃ e e', d.build.result = .error e ∧ d'.build.result = .error e' ∧
        (d.missingField?.isSome = true ∨ d.Textual → e.Alike e') := by
  have id' : d'.id.truthy = true := by
    have same : d.id = d'.id := h.scalars .id
    rw [← same, id]
  have scopes : SameMembers d.scopes d'.scopes := h.members .scopes
  have uris : SameMembers d.redirectUris d'.redirectUris := h.members .redirectUris
  rw [build_stages id, build_stages id', ← h.missingField?_eq, ← h.copiedOptions_eq]
  cases missing : d.missingField? with
  | some field => exact .inr ⟨_, _, rfl, rfl, fun _ => .refl _⟩
  | none =>
      rcases Validation.scopes_alike scopes with ⟨first, second⟩ | ⟨e, e', first, second, alike⟩
      · rcases Validation.redirectUris_alike uris with ⟨third, fourth⟩ | ⟨e, e', third, fourth, alike⟩
        · simp only [first, second, third, fourth]
          cases d.copiedOptions with
          | error e => exact .inr ⟨e, e, rfl, rfl, fun _ => .refl e⟩
          | ok options => exact .inl ⟨_, _, rfl, rfl, h.same_completed options.1 options.2⟩
        · simp only [first, second, third, fourth]
          refine .inr ⟨e, e', rfl, rfl, fun sole => alike ?_⟩
          exact (sole.resolve_left (by simp)).2
      · simp only [first, second]
        refine .inr ⟨e, e', rfl, rfl, fun sole => alike ?_⟩
        exact (sole.resolve_left (by simp)).1

end Alike

end Draft

end ClientRegistry
