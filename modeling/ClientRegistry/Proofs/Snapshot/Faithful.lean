import ClientRegistry.Proofs.Snapshot.Decoding
import ClientRegistry.Proofs.Snapshot.RoundTrip
import ClientRegistry.Proofs.Value.Order

/-! Faithful codecs. A client whose fields are of their types is written to a snapshot and to a row
of the same values, and both are restored to the same client. The snapshot depends on no order of
sets, and clients that differ have snapshots that differ. -/

namespace ClientRegistry

/-- The lists of a snapshot are the sets of a client, each in ascending order. -/
structure Snapshot.Lists (s : Snapshot) (c : Client) : Prop where
  authMethods : s.authMethods.Pairwise (· < ·) ∧
    (s.authMethods.map fun n => Value.token .authMethod (.text n)).Perm c.methods
  grantTypes : s.grantTypes.Pairwise (· < ·) ∧
    (s.grantTypes.map fun n => Value.token .grantType (.text n)).Perm c.grants
  redirectUris : s.redirectUris.Pairwise (· < ·) ∧
    (s.redirectUris.map Value.text).Perm c.redirectUris
  scopes : s.scopes.Pairwise (· < ·) ∧ (s.scopes.map Value.text).Perm c.scopes

/-- A decoding gives back a client, with its digest. -/
def Client.RestoredBy (c : Client) (decoded : Except Fault Client) : Prop :=
  ∃ d, decoded = .ok d ∧ c.same d = true ∧ c.digest.agree d.digest = true

namespace Snapshot

variable {s r : Snapshot}

theorem Listed.lists_sorted (h : s.Listed) : s.sorted.Lists s.client := by
  obtain ⟨methods, grants, uris, scopes⟩ := sorted_client_perm s
  exact ⟨⟨Listing.ascending_sortTexts h.methodsOnce, methods⟩,
    ⟨Listing.ascending_sortTexts h.grantsOnce, grants⟩,
    ⟨Listing.ascending_sortTexts h.redirectUrisOnce, uris⟩,
    ⟨Listing.ascending_sortTexts h.scopesOnce, scopes⟩⟩

theorem rowOf_client (s : Snapshot) : Row.ofClient s.client = .ok s.sorted.row := by
  simp only [Row.ofClient, Snapshot.client, Listing.ofTokens, Listing.mapM_tokenName?,
    Listing.ofMembers_texts]
  rfl

theorem Listed.restored (h : s.Listed) : s.client.RestoredBy s.sorted.toClient.result := by
  obtain ⟨methods, grants, uris, scopes⟩ := sorted_client_perm s
  exact ⟨s.sorted.client, h.sorted.toClient, Client.same_relisted methods grants uris scopes,
    s.agree_sorted⟩

theorem texts_same_iff {xs ys : List String} : (texts xs).same (texts ys) = true ↔ xs = ys := by
  simp only [texts, Value.same]
  induction xs generalizing ys with
  | nil => cases ys <;> simp [Value.sameList]
  | cons x xs ih =>
      cases ys with
      | nil => simp [Value.sameList]
      | cons y ys =>
          simp only [List.map_cons, Value.sameList, Bool.and_eq_true, Value.same_text,
            Value.text.injEq, ih, List.cons.injEq]

/-- Two sets are the same exactly if their ascending lists are. -/
theorem frozen_same_iff {f : String → Value} (exact : ∀ n, (f n).Exact) (inj : f.Injective)
    {xs : List String} (ys : List String) (once : xs.Nodup) :
    (Value.frozen (xs.map f)).same (.frozen (ys.map f)) = true ↔
      (texts (Listing.sortTexts xs)).same (texts (Listing.sortTexts ys)) = true := by
  rw [texts_same_iff]
  constructor
  · intro same
    have perm := Value.perm_of_same (List.forall_mem_map.mpr fun n _ => exact n)
      (once.map inj) same
    exact Listing.sortTexts_eq_of_perm ((List.map_perm_map_iff inj).mp perm)
  · intro same
    have perm : xs.Perm ys :=
      (Listing.sortTexts_perm xs).symm.trans (same ▸ Listing.sortTexts_perm ys)
    exact Value.frozen_same_of_perm (perm.map f)

theorem exact_text (n : String) : (Value.text n).Exact := Value.IsTextual.exact (.inl ⟨n, rfl⟩)

theorem exact_token (kind : TokenKind) (n : String) : (Value.token kind (.text n)).Exact :=
  (exact_text n).token

theorem bag_same_eq (kind : BagKind) (es fs : Options) :
    (Value.bag kind es).same (.bag kind fs) = (Value.dict es).same (.dict fs) := by
  simp [Value.same]

/-- Clients are the same exactly if their snapshots are, field by field. -/
theorem client_same_iff (h : s.Listed) :
    s.client.same r.client = true ↔ s.sorted.same r.sorted = true := by
  have tokens : ∀ kind, (fun n => Value.token kind (.text n)).Injective :=
    fun kind m n same => by simpa using same
  have texts : Value.text.Injective := fun m n same => Value.text.inj same
  have methods := frozen_same_iff (exact_token .authMethod) (tokens _) r.authMethods h.methodsOnce
  have grants := frozen_same_iff (exact_token .grantType) (tokens _) r.grantTypes h.grantsOnce
  have uris := frozen_same_iff exact_text texts r.redirectUris h.redirectUrisOnce
  have scopes := frozen_same_iff exact_text texts r.scopes h.scopesOnce
  simp only [Client.same, Client.values, Snapshot.same, named, Value.sameList, Snapshot.client,
    sorted, List.map_cons, List.map_nil, bag_same_eq, Bool.and_eq_true] at methods grants uris scopes ⊢
  rw [methods, grants, uris, scopes]

end Snapshot

namespace Client

variable {a b : Client}

/-- Both codecs keep a client, write the same values, and tell any two clients apart. -/
theorem Storable.codecs_faithful (ha : a.Storable) (typedA : a.Typed) (hb : b.Storable)
    (typedB : b.Typed) : ∃ s row r, Snapshot.ofClient a = .ok s ∧ Row.ofClient a = .ok row ∧
      Snapshot.ofClient b = .ok r ∧ a.RestoredBy s.toClient.result ∧
      a.RestoredBy row.toClient.result ∧ row.Carries s ∧ s.Lists a ∧
      (a.same b = true ↔ s.same r = true) := by
  obtain ⟨s, rfl, listed⟩ := Snapshot.exists_client ha typedA
  obtain ⟨r, rfl, -⟩ := Snapshot.exists_client hb typedB
  have keyed : s.sorted.Keyed := ⟨ha.clientSettings, ha.tokenSettings⟩
  refine ⟨s.sorted, s.sorted.row, r.sorted,
    Snapshot.ofClient_client ha.clientSettings ha.tokenSettings, s.rowOf_client,
    Snapshot.ofClient_client hb.clientSettings hb.tokenSettings, listed.restored, ?_,
    s.sorted.row_carries, listed.lists_sorted, Snapshot.client_same_iff listed⟩
  rw [s.sorted.row_carries.toClient_eq keyed]
  exact listed.restored

/-- The client with its grants and scopes listed the other way round. -/
def kioskReversed : Client :=
  kiosk.relisted kiosk.methods kiosk.grants.reverse kiosk.redirectUris kiosk.scopes.reverse

theorem kioskReversed_storable : kioskReversed.Storable :=
  kiosk_storable.relist (.refl _) (List.reverse_perm _) (.refl _) (List.reverse_perm _)

theorem kioskReversed_typed : kioskReversed.Typed :=
  { kiosk_portable.typed with
    methods := fun v member => (kioskReversed_storable.methods v member).isToken
    grants := fun v member => (kioskReversed_storable.grants v member).isToken
    scopes := kioskReversed_storable.scopes }

theorem kiosk_codecs_faithful : kiosk.Storable ∧ kiosk.Typed ∧ kioskReversed.Storable ∧
    kioskReversed.Typed ∧ ∃ s row r, Snapshot.ofClient kiosk = .ok s ∧
      Row.ofClient kiosk = .ok row ∧ Snapshot.ofClient kioskReversed = .ok r ∧
      kiosk.RestoredBy s.toClient.result ∧ kiosk.RestoredBy row.toClient.result ∧ row.Carries s ∧
      s.Lists kiosk ∧ (kiosk.same kioskReversed = true ↔ s.same r = true) :=
  ⟨kiosk_storable, kiosk_portable.typed, kioskReversed_storable, kioskReversed_typed,
    kiosk_storable.codecs_faithful kiosk_portable.typed kioskReversed_storable kioskReversed_typed⟩

end Client

end ClientRegistry
