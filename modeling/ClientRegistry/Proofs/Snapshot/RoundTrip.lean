import ClientRegistry.Proofs.Snapshot.Portable
import ClientRegistry.Proofs.Value.Agreement

/-! Clients through JSON and back. A portable client is restored as the same client, and one more
trip changes nothing: what is written of a restored client is the text from which it was read. -/

namespace ClientRegistry

/-- The JSON text of the snapshot of a client. -/
def Client.toJson (c : Client) : Except Fault (List Char) := do
  let s ← Snapshot.ofClient c
  s.toJson

/-- The client of the snapshot that a JSON text holds. -/
def Client.ofJson (t : List Char) : Except Fault Client := do
  let s ← Snapshot.ofJson t
  s.toClient.result

/-- The text that is written of the client that a text holds. -/
def Client.normalize (t : List Char) : Except Fault (List Char) := do
  let c ← Client.ofJson t
  c.toJson

namespace Snapshot

variable {s : Snapshot}

theorem Portable.sorted (h : s.Portable) : s.sorted.Portable :=
  ⟨h.issuedAt, h.secretExpiresAt, h.clientSettings, h.tokenSettings⟩

theorem Listed.reread (h : s.Listed) : s.reread.Listed where
  accepted := ⟨h.accepted.id, h.accepted.clientId, h.accepted.name, h.accepted.grants,
    h.accepted.methods, h.accepted.redirects, h.accepted.scopes, h.accepted.redirectUris⟩
  methods := h.methods
  grants := h.grants
  methodsOnce := h.methodsOnce
  grantsOnce := h.grantsOnce
  redirectUrisOnce := h.redirectUrisOnce
  scopesOnce := h.scopesOnce

theorem sorted_reread_sorted (s : Snapshot) : s.sorted.reread.sorted = s.sorted.reread := by
  simp only [sorted, reread, Listing.sortTexts_sortTexts]

theorem toJson_client (h : s.Portable) : s.client.toJson = s.sorted.toJson := by
  rw [Client.toJson, ofClient_client h.clientSettings.keyed h.tokenSettings.keyed]
  rfl

/-- A client that a portable snapshot describes is written, and read as the client of the sorted
snapshot; that client has the same text. -/
theorem client_trip (listed : s.Listed) (portable : s.Portable) : ∃ t,
    s.client.toJson = .ok t ∧ Client.ofJson t = .ok s.sorted.reread.client ∧
      s.sorted.reread.client.toJson = .ok t ∧
      Json.read? t = some (.dict (Json.settledEntries (document s.sorted.spelled))) := by
  obtain ⟨t, written, read, value⟩ := portable.sorted.read_back
  refine ⟨t, (toJson_client portable).trans written, ?_, ?_, value⟩
  · rw [Client.ofJson, read]
    exact listed.sorted.reread.toClient
  · rw [toJson_client portable.sorted.reread, sorted_reread_sorted,
      portable.sorted.toJson_reread, written]

/-- A field of the object that was read is the field of the document. -/
theorem find?_document (fields : List (String × Value)) (name : String) :
    Entries.find? (Json.settledEntries (document fields)) (.text name) =
      (given fields name).map Json.settled := by
  induction fields with
  | nil => rfl
  | cons f rest ih =>
      obtain ⟨n, v⟩ := f
      by_cases here : n = name
      · simp [Entries.find?, document, Json.settledEntries, given, here]
      · have other : (Value.text name).same (.text n) = false := by
          rw [← Bool.not_eq_true, Value.text_same]
          exact fun same => here (Value.text.inj same)
        simpa [Entries.find?, document, Json.settledEntries, given, here, List.find?_cons, other]
          using ih

theorem find?_texts {fields : List (String × Value)} {name : String} {xs : List String}
    (h : given fields name = some (texts xs)) :
    Entries.find? (Json.settledEntries (document fields)) (.text name) =
      some (.list (xs.map .text)) := by
  rw [find?_document, h, Option.map_some, settled_texts, texts]

theorem same_optional_reread (o : Option Moment) :
    (optional .moment o).same (optional .moment (o.map Moment.reread)) = true := by
  cases o with
  | none => exact Value.same_refl .null
  | some m => simpa [optional, Value.same, Value.sameLeaf] using Moment.same_reread m

theorem digest_optional_reread (o : Option Moment) :
    (optional .moment (o.map Moment.reread)).digest = (optional .moment o).digest := by
  cases o with
  | none => rfl
  | some m =>
      cases m with
      | mk year month day hour minute second micro zone => cases zone <;> rfl

/-- Settings that settle to themselves leave nothing in which the clients differ. -/
theorem same_trip (client : Json.settledEntries s.clientSettings = s.clientSettings)
    (token : Json.settledEntries s.tokenSettings = s.tokenSettings) :
    s.client.same s.sorted.reread.client = true := by
  obtain ⟨methods, grants, uris, scopes⟩ := sorted_client_perm s
  have sets := fun {xs ys : List Value} (h : xs.Perm ys) => Value.frozen_same_of_perm h.symm
  simp only [Client.same, Client.values, Value.sameList, Snapshot.client, sorted, reread, client,
    token, Value.same_refl, same_optional_reread, Bool.and_true, Bool.true_and]
  simp only [Snapshot.client, sorted] at methods grants uris scopes
  simp only [sets methods, sets grants, sets uris, sets scopes, Bool.and_true]

/-- Sorting the sets of a client keeps its digest up to the order of members. -/
theorem agree_sorted (s : Snapshot) : s.client.digest.agree s.sorted.client.digest = true := by
  obtain ⟨methods, grants, uris, scopes⟩ := sorted_client_perm s
  have tokens : ∀ {kind : TokenKind} {names : List String},
      ∀ v ∈ names.map (fun n => Value.token kind (.text n)), v.digest.Sharp := fun {kind _} =>
    List.forall_mem_map.mpr fun n _ => (show Value.IsToken kind _ from ⟨n, rfl⟩).sharp_digest
  have texts : ∀ {xs : List String}, ∀ v ∈ xs.map Value.text, v.digest.Sharp :=
    List.forall_mem_map.mpr fun t _ => Value.IsText.sharp_digest ⟨t, rfl⟩
  have methods := Value.agree_frozen_of_perm tokens methods.symm
  have grants := Value.agree_frozen_of_perm tokens grants.symm
  have uris := Value.agree_frozen_of_perm texts uris.symm
  have scopes := Value.agree_frozen_of_perm texts scopes.symm
  simp only [Snapshot.client, sorted] at methods grants uris scopes
  simp only [Client.digest, Client.values, Value.digestList, Digest.agree, Digest.agreeList,
    Snapshot.client, sorted, Digest.agree_refl, methods, grants, uris, scopes, Bool.and_true]

theorem digest_reread (client : Json.settledEntries s.clientSettings = s.clientSettings)
    (token : Json.settledEntries s.tokenSettings = s.tokenSettings) :
    s.reread.client.digest = s.client.digest := by
  simp only [Client.digest, Client.values, Value.digestList, Snapshot.client, reread, client, token,
    digest_optional_reread]

theorem agree_trip (client : Json.settledEntries s.clientSettings = s.clientSettings)
    (token : Json.settledEntries s.tokenSettings = s.tokenSettings) :
    s.client.digest.agree s.sorted.reread.client.digest = true := by
  rw [digest_reread (s := s.sorted) client token]
  exact s.agree_sorted

end Snapshot

namespace Client

variable {c : Client} {t : List Char}

/-- A portable client is restored from its own text: the result is the same client with the same
digest, and has the same text. -/
theorem Portable.round_trip (h : c.Portable Json.IsFinite) : ∃ t d, c.toJson = .ok t ∧
    Client.ofJson t = .ok d ∧ c.same d = true ∧ c.digest.agree d.digest = true ∧
    d.toJson = .ok t := by
  obtain ⟨s, rfl, listed, portable⟩ := Snapshot.exists_client_eq h fun _ finite => finite.1
  obtain ⟨t, written, read, rewritten, -⟩ := Snapshot.client_trip listed portable
  have settled : ∀ {es : Options},
      Json.Shaped Json.IsFinite (Json.mostNested - 1) (.dict es) → Json.settledEntries es = es :=
    fun shaped => Value.dict.inj shaped.settled_eq_self
  exact ⟨t, _, written, read,
    Snapshot.same_trip (settled h.clientSettings) (settled h.tokenSettings),
    Snapshot.agree_trip (settled h.clientSettings) (settled h.tokenSettings), rewritten⟩

/-- A client with an offset, unsorted scopes and nested options of every JSON type. -/
def kiosk : Client :=
  ⟨.text "r", .text "kiosk", .moment ⟨2024, 2, 29, 12, 30, 0, 250000, some ⟨19800, false⟩⟩, .null,
    .null, .text "Kiosk", [.token .authMethod (.text "private_key_jwt")],
    [authorizationCode, .token .grantType (.text "custom")], [.text "https://k.example/cb"],
    [.text "write", .text "read"],
    [(.text "claims", .dict [(.text "deep",
      .list [.null, .bool true, .int (-7), .real (.finite true 7205759403792794 (-56)), .text "é"])])],
    [(.text "empty", .list []), (.text "none", .dict [])]⟩

theorem kiosk_storable : kiosk.Storable where
  accepted := {
    id := rfl
    clientId := rfl
    name := rfl
    grants := by simp [kiosk]
    methods := by simp [kiosk]
    redirects := by simp [kiosk]
    scopes := by
      simp [kiosk, Validation.scopeOk]
      decide +kernel
    redirectUris := by
      simp [kiosk, Validation.redirectUriOk]
      decide +kernel }
  id := ⟨_, rfl⟩
  clientId := ⟨_, rfl⟩
  methods := by simp [kiosk, Value.IsNamedToken]
  grants := by simp [kiosk, Value.IsNamedToken, authorizationCode]
  scopes := by simp [kiosk, Value.IsText]
  methodsOnce := by simp [kiosk]
  grantsOnce := by simp [kiosk, authorizationCode]
  redirectUrisOnce := by simp [kiosk]
  scopesOnce := by simp [kiosk]
  clientSettings := ⟨by simp [kiosk, Value.IsText], by simp [kiosk]⟩
  tokenSettings := ⟨by simp [kiosk, Value.IsText], by simp [kiosk]⟩

theorem kiosk_portable : kiosk.Portable Json.IsFinite where
  storable := kiosk_storable
  issuedAt := by
    have valid : Moment.Valid ⟨2024, 2, 29, 12, 30, 0, 250000, some ⟨19800, false⟩⟩ :=
      ⟨by decide, by decide, by decide, by decide, by decide, by decide, by decide⟩
    refine .inr ⟨_, rfl, valid, fun z member => ?_⟩
    cases member
    decide
  secret := .inl rfl
  secretExpiresAt := .inl rfl
  name := ⟨_, rfl⟩
  clientSettings := by
    have tenth : Json.IsFinite (.finite true 7205759403792794 (-56)) :=
      ⟨⟨by decide +kernel, by decide, by decide, .inl (by decide +kernel)⟩, _, _, _, rfl⟩
    have seven : Json.IntReadable (-7) := by decide +kernel
    refine .dict 198 _ kiosk_storable.clientSettings (List.forall_mem_singleton.mpr ?_)
    refine .dict 197 _ ⟨by simp [Value.IsText], by simp⟩ (List.forall_mem_singleton.mpr ?_)
    refine .list 196 _ ?_
    simp only [List.forall_mem_cons, List.not_mem_nil, false_imp_iff, implies_true, and_true]
    exact ⟨.null _, .bool _ _, .int _ _ seven, .real _ _ tenth, .text _ _⟩
  tokenSettings := by
    refine .dict 198 _ kiosk_storable.tokenSettings (List.forall_mem_cons.mpr ⟨.emptyList _, ?_⟩)
    exact List.forall_mem_singleton.mpr (.emptyDict _)

theorem kiosk_round_trip : kiosk.Portable Json.IsFinite ∧ ∃ t d, kiosk.toJson = .ok t ∧
    Client.ofJson t = .ok d ∧ kiosk.same d = true ∧ kiosk.digest.agree d.digest = true ∧
    d.toJson = .ok t :=
  ⟨kiosk_portable, kiosk_portable.round_trip⟩

/-- The list fields of a text, in the order of the text. -/
def listFields : List String :=
  ["token_endpoint_auth_methods", "grant_types", "redirect_uris", "scopes"]

/-- Writing what was read normalizes a text in one step, and puts its lists in strict order. -/
theorem normalize_normalize (h : Client.ofJson t = .ok c) : ∃ j es,
    normalize t = .ok j ∧ normalize j = .ok j ∧ Json.read? j = some (.dict es) ∧
    ∀ field ∈ listFields, ∃ xs : List String,
      Entries.find? es (.text field) = some (.list (xs.map .text)) ∧ xs.Pairwise (· < ·) := by
  obtain ⟨s, parsed, restored⟩ := except_bind_eq_ok.mp h
  have portable := Snapshot.portable_of_toClient (Snapshot.portable_of_ofJson parsed) restored
  obtain ⟨s, rfl, listed, portable⟩ := Snapshot.exists_client_eq portable fun _ canonical => canonical
  obtain ⟨j, written, read, rewritten, value⟩ := Snapshot.client_trip listed portable
  refine ⟨j, _, except_bind_eq_ok.mpr ⟨_, h, written⟩, except_bind_eq_ok.mpr ⟨_, read, rewritten⟩,
    value, ?_⟩
  simp only [listFields, List.forall_mem_cons, List.not_mem_nil, false_imp_iff, implies_true,
    and_true]
  refine ⟨⟨_, Snapshot.find?_texts ?_, Listing.ascending_sortTexts listed.methodsOnce⟩,
    ⟨_, Snapshot.find?_texts ?_, Listing.ascending_sortTexts listed.grantsOnce⟩,
    ⟨_, Snapshot.find?_texts ?_, Listing.ascending_sortTexts listed.redirectUrisOnce⟩,
    ⟨_, Snapshot.find?_texts ?_, Listing.ascending_sortTexts listed.scopesOnce⟩⟩
  · simp [Snapshot.given, Snapshot.spelled, Snapshot.sorted]
  · simp [Snapshot.given, Snapshot.spelled, Snapshot.sorted]
  · simp [Snapshot.given, Snapshot.spelled, Snapshot.sorted]
  · simp [Snapshot.given, Snapshot.spelled, Snapshot.sorted]

/-- A text with repeated and unsorted entries, an unknown field, a repeated key, a number that is
not finite, and neither a name nor methods. -/
def untidy : List Char :=
  ["\x7b\"scopes\": ", "[\"b\", \"a\", \"b\"], ", "\"id\": \"r\", ", "\"client_id\": \"w\",",
    "\"client_name\": \"\", ", "\"grant_types\": ", "[\"implicit\"], ", "\"extra\": NaN, ",
    "\"client_id", "_issued_at\": ", "1700000000.5, ", "\"client_settings\": ",
    "\x7b\"a\": 1e400, ", "\"b\": [1, true], ", "\"b\": -0.1\x7d\x7d"].flatMap String.toList

theorem untidy_normalize_normalize : ∃ c, Client.ofJson untidy = .ok c ∧ ∃ j es,
    normalize untidy = .ok j ∧ normalize j = .ok j ∧ Json.read? j = some (.dict es) ∧
    ∀ field ∈ listFields, ∃ xs : List String,
      Entries.find? es (.text field) = some (.list (xs.map .text)) ∧ xs.Pairwise (· < ·) := by
  have restored : (Client.ofJson untidy).toBool = true := by decide +kernel
  cases read : Client.ofJson untidy with
  | error e =>
      rw [read] at restored
      cases restored
  | ok c => exact ⟨c, rfl, normalize_normalize read⟩

end Client

end ClientRegistry
