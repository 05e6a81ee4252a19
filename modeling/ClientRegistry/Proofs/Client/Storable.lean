import ClientRegistry.Proofs.Client.Acceptance
import ClientRegistry.Proofs.Value.Keyed
import ClientRegistry.Proofs.Value.Members
import ClientRegistry.Proofs.Value.Kinds

/-! Clients that can be written and read back: their fields are of the types that a written form
keeps apart. A client whose sets are listed in another order is the same client. -/

namespace ClientRegistry

/-- What a token of a registration is: a name that is not empty. -/
def Value.IsNamedToken (kind : TokenKind) (v : Value) : Prop :=
  ∃ s, v = .token kind (.text s) ∧ s ≠ ""

/-- Clients with the declared types where writing and reading depend on them: texts for ids and
scopes, named tokens, sets that list each member once, and bags whose options have texts for
names. The other fields and the options' values may be anything. -/
structure Client.Storable (c : Client) : Prop where
  accepted : c.Accepted
  id : c.id.IsText
  clientId : c.clientId.IsText
  methods : ∀ v ∈ c.methods, v.IsNamedToken .authMethod
  grants : ∀ v ∈ c.grants, v.IsNamedToken .grantType
  scopes : ∀ v ∈ c.scopes, v.IsText
  methodsOnce : c.methods.Nodup
  grantsOnce : c.grants.Nodup
  redirectUrisOnce : c.redirectUris.Nodup
  scopesOnce : c.scopes.Nodup
  clientSettings : Entries.Keyed c.clientSettings
  tokenSettings : Entries.Keyed c.tokenSettings

theorem Value.IsNamedToken.isToken {kind : TokenKind} {v : Value} (h : v.IsNamedToken kind) :
    v.IsToken kind := by
  obtain ⟨s, rfl, _⟩ := h
  exact ⟨s, rfl⟩

theorem Validation.isText_of_redirectUriOk {v : Value} (h : redirectUriOk v = .ok true) :
    v.IsText := by
  cases v with
  | text s => exact ⟨s, rfl⟩
  | _ =>
      simp only [redirectUriOk] at h
      split at h
      · rename_i items _
        cases scanned : scanItems Uri.isUriChar items with
        | error e => simp [scanned] at h
        | ok valid => cases valid <;> simp [scanned] at h
      · cases h

namespace Client

/-- A client whose sets are listed anew. -/
def relisted (c : Client) (methods grants redirectUris scopes : List Value) : Client :=
  { c with methods, grants, redirectUris, scopes }

variable {c : Client} {methods grants redirectUris scopes : List Value}

theorem Accepted.relist (h : c.Accepted) (hm : methods.Perm c.methods) (hg : grants.Perm c.grants)
    (hu : redirectUris.Perm c.redirectUris) (hs : scopes.Perm c.scopes) :
    (c.relisted methods grants redirectUris scopes).Accepted where
  id := h.id
  clientId := h.clientId
  name := h.name
  grants := fun empty => h.grants (List.nil_perm.mp (empty ▸ hg))
  methods := fun empty => h.methods (List.nil_perm.mp (empty ▸ hm))
  redirects member := fun empty =>
    h.redirects (Value.memberOf_perm hg ▸ member) (List.nil_perm.mp (empty ▸ hu))
  scopes v member := h.scopes v (hs.mem_iff.mp member)
  redirectUris v member := h.redirectUris v (hu.mem_iff.mp member)

theorem Storable.relist (h : c.Storable) (hm : methods.Perm c.methods) (hg : grants.Perm c.grants)
    (hu : redirectUris.Perm c.redirectUris) (hs : scopes.Perm c.scopes) :
    (c.relisted methods grants redirectUris scopes).Storable where
  accepted := h.accepted.relist hm hg hu hs
  id := h.id
  clientId := h.clientId
  methods v member := h.methods v (hm.mem_iff.mp member)
  grants v member := h.grants v (hg.mem_iff.mp member)
  scopes v member := h.scopes v (hs.mem_iff.mp member)
  methodsOnce := hm.nodup_iff.mpr h.methodsOnce
  grantsOnce := hg.nodup_iff.mpr h.grantsOnce
  redirectUrisOnce := hu.nodup_iff.mpr h.redirectUrisOnce
  scopesOnce := hs.nodup_iff.mpr h.scopesOnce
  clientSettings := h.clientSettings
  tokenSettings := h.tokenSettings

theorem Storable.unscoped (h : c.Storable) : Storable { c with scopes := [] } :=
  { h with
    accepted := { h.accepted with scopes := fun _ member => by cases member }
    scopes := fun _ member => by cases member
    scopesOnce := List.nodup_nil }

theorem same_relisted (hm : methods.Perm c.methods) (hg : grants.Perm c.grants)
    (hu : redirectUris.Perm c.redirectUris) (hs : scopes.Perm c.scopes) :
    c.same (c.relisted methods grants redirectUris scopes) = true := by
  simp [same, values, relisted, Value.sameList, Value.same_refl,
    Value.frozen_same_of_perm hm.symm, Value.frozen_same_of_perm hg.symm,
    Value.frozen_same_of_perm hu.symm, Value.frozen_same_of_perm hs.symm]

end Client

end ClientRegistry
