import ClientRegistry.Proofs.Json.Read
import ClientRegistry.Proofs.Json.RoundTrip
import ClientRegistry.Proofs.Snapshot.Validation

/-! Snapshots and their JSON texts. The text of a snapshot is read as the snapshot, but for the
marks of its zones and for doubles without a JSON number; what is read has the same text again. -/

namespace ClientRegistry.Snapshot

open Json (Shaped settled settledEntries mostNested)

/-- The fields by name, with a text for each moment. -/
def spelled (s : Snapshot) : List (String × Value) :=
  [("id", .text s.id), ("client_id", .text s.clientId),
    ("client_id_issued_at", momentText s.issuedAt),
    ("client_secret", optional .text s.secret),
    ("client_secret_expires_at", momentText s.secretExpiresAt),
    ("client_name", .text s.name), ("token_endpoint_auth_methods", texts s.authMethods),
    ("grant_types", texts s.grantTypes), ("redirect_uris", texts s.redirectUris),
    ("scopes", texts s.scopes), ("client_settings", .dict s.clientSettings),
    ("token_settings", .dict s.tokenSettings)]

/-- Snapshots of which a JSON text can be read back: moments of the calendar with whole minutes,
and settings of the JSON types that are not nested too deep. -/
structure Portable (s : Snapshot) : Prop where
  issuedAt : ∀ m ∈ s.issuedAt, m.Valid ∧ m.WholeMinutes
  secretExpiresAt : ∀ m ∈ s.secretExpiresAt, m.Valid ∧ m.WholeMinutes
  clientSettings : Shaped Binary64.Canonical (mostNested - 1) (.dict s.clientSettings)
  tokenSettings : Shaped Binary64.Canonical (mostNested - 1) (.dict s.tokenSettings)

/-- The snapshot as it is read from its own text. -/
def reread (s : Snapshot) : Snapshot :=
  { s with
    issuedAt := s.issuedAt.map Moment.reread
    secretExpiresAt := s.secretExpiresAt.map Moment.reread
    clientSettings := settledEntries s.clientSettings
    tokenSettings := settledEntries s.tokenSettings }

variable {s : Snapshot}

theorem shaped_momentText (room : Nat) (o : Option Moment) :
    Shaped Binary64.Canonical room (momentText o) := by
  cases o with
  | none => exact .null room
  | some m => exact .text room _

theorem shaped_optional (room : Nat) (o : Option String) :
    Shaped Binary64.Canonical room (optional .text o) := by
  cases o with
  | none => exact .null room
  | some t => exact .text room t

theorem shaped_texts (room : Nat) (xs : List String) :
    Shaped Binary64.Canonical (room + 1) (texts xs) :=
  .list room _ (List.forall_mem_map.mpr fun t _ => .text room t)

theorem Portable.shaped_spelled (h : s.Portable) :
    ∀ f ∈ s.spelled, Shaped Binary64.Canonical (mostNested - 1) f.2 := by
  simp only [spelled, List.forall_mem_cons, List.not_mem_nil, false_imp_iff, implies_true, and_true]
  exact ⟨.text _ _, .text _ _, shaped_momentText _ _, shaped_optional _ _, shaped_momentText _ _,
    .text _ _, shaped_texts _ _, shaped_texts _ _, shaped_texts _ _, shaped_texts _ _,
    h.clientSettings, h.tokenSettings⟩

/-- The object of named values. -/
def document (fields : List (String × Value)) : Options :=
  fields.map fun f => (.text f.1, f.2)

theorem keyed_document {fields : List (String × Value)} (once : (fields.map Prod.fst).Nodup) :
    Entries.Keyed (document fields) where
  texts := List.forall_mem_map.mpr fun f _ => ⟨f.1, rfl⟩
  distinct := by
    have keys : (document fields).map Prod.fst = (fields.map Prod.fst).map Value.text := by
      simp [document]
    rw [keys]
    exact once.map fun a b same => Value.text.inj same

theorem Portable.shaped_document (h : s.Portable) :
    Shaped Binary64.Canonical mostNested (.dict (document s.spelled)) := by
  have names : (s.spelled.map Prod.fst).Nodup := by
    simp only [spelled, List.map_cons, List.map_nil]
    decide
  exact .dict (mostNested - 1) _ (keyed_document names) (List.forall_mem_map.mpr h.shaped_spelled)

theorem write_momentText (o : Option Moment) :
    Json.write (optional .moment o) = Json.write (momentText o) := by
  cases o with
  | none => rfl
  | some m => simp only [momentText, optional, Json.write, String.toList_ofList]

theorem depth_momentText (o : Option Moment) :
    Json.depth (optional .moment o) = Json.depth (momentText o) := by
  cases o <;> rfl

theorem Portable.depth_named (h : s.Portable) :
    ∀ f ∈ s.named, Json.depth f.2 ≤ Json.deepest + 1 := by
  have depths : s.named.map (fun f => Json.depth f.2) = s.spelled.map fun f => Json.depth f.2 := by
    simp only [named, spelled, List.map_cons, List.map_nil, depth_momentText]
  intro f member
  have among : Json.depth f.2 ∈ s.spelled.map fun f => Json.depth f.2 :=
    depths ▸ List.mem_map_of_mem member
  obtain ⟨g, spelled, same⟩ := List.mem_map.mp among
  rw [← same]
  exact (h.shaped_spelled g spelled).depth_le.trans (by decide)

theorem Portable.toJson_eq (h : s.Portable) :
    s.toJson = Json.write (.dict (document s.spelled)) := by
  have deep : s.named.all (fun f => Json.depth f.2 ≤ Json.deepest + 1) = true :=
    List.all_eq_true.mpr fun f member => decide_eq_true (h.depth_named f member)
  rw [toJson, jsonOfNamed, if_pos deep]
  simp only [named, spelled, document, List.map_cons, List.map_nil, Json.write, Json.writeEntries,
    write_momentText]

theorem filterMap_keyName (fields : List (String × Value)) :
    (settledEntries (document fields)).filterMap keyName =
      fields.map fun f => (f.1, settled f.2) := by
  induction fields with
  | nil => rfl
  | cons f rest ih =>
      simp only [document, List.map_cons, settledEntries] at ih ⊢
      rw [List.filterMap_cons, keyName, ih]

theorem settled_momentText (o : Option Moment) : settled (momentText o) = momentText o := by
  cases o <;> rfl

theorem settled_optional (o : Option String) : settled (optional .text o) = optional .text o := by
  cases o <;> rfl

theorem settled_texts (xs : List String) : settled (texts xs) = texts xs := by
  rw [texts, settled, Json.settledList_eq_map, List.map_map]
  rfl

theorem Portable.checks_spelled (h : s.Portable) :
    Checks .json (s.spelled.map fun f => (f.1, settled f.2)) s.reread where
  id := by simp [required, given, spelled, settled, checkText, reread]
  clientId := by simp [required, given, spelled, settled, checkText, reread]
  issuedAt := by
    simp [defaulted, given, spelled, settled_momentText, checkMoment_momentText h.issuedAt, reread]
  secret := by
    simp [defaulted, given, spelled, settled_optional, checkOptionalText_optional, reread]
  secretExpiresAt := by
    simp [defaulted, given, spelled, settled_momentText, checkMoment_momentText h.secretExpiresAt,
      reread]
  name := by simp [required, given, spelled, settled, checkText, reread]
  authMethods := by simp [defaulted, given, spelled, settled_texts, checkTexts_texts, reread]
  grantTypes := by simp [defaulted, given, spelled, settled_texts, checkTexts_texts, reread]
  redirectUris := by simp [defaulted, given, spelled, settled_texts, checkTexts_texts, reread]
  scopes := by simp [defaulted, given, spelled, settled_texts, checkTexts_texts, reread]
  clientSettings := by
    have keyed := Json.Keyed.settled h.clientSettings.keyed
    simp [defaulted, given, spelled, settled, checkOptions_keyed _ keyed, reread]
  tokenSettings := by
    have keyed := Json.Keyed.settled h.tokenSettings.keyed
    simp [defaulted, given, spelled, settled, checkOptions_keyed _ keyed, reread]

/-- A portable snapshot has a text, and the text is read as the snapshot itself but for the marks
of its zones and for doubles that are not finite. -/
theorem Portable.read_back (h : s.Portable) : ∃ t, s.toJson = .ok t ∧ ofJson t = .ok s.reread ∧
    Json.read? t = some (.dict (settledEntries (document s.spelled))) := by
  obtain ⟨t, written, read⟩ := h.shaped_document.read?_write
  refine ⟨t, h.toJson_eq.trans written, ?_, read⟩
  simp only [ofJson, read, settled, ofJsonValue, filterMap_keyName]
  exact ofInput_eq_ok.mpr h.checks_spelled

theorem momentText_reread (o : Option Moment) : momentText (o.map Moment.reread) = momentText o := by
  cases o with
  | none => rfl
  | some m => simp only [momentText, optional, Option.map_some, Moment.snapshotText_reread]

theorem portable_reread {o : Option Moment} (h : ∀ m ∈ o, m.Valid ∧ m.WholeMinutes) :
    ∀ m ∈ o.map Moment.reread, m.Valid ∧ m.WholeMinutes := by
  intro m member
  obtain ⟨n, given, rfl⟩ := Option.map_eq_some_iff.mp member
  exact ⟨(h n given).1.reread, (h n given).2.reread⟩

theorem shaped_settledEntries {room : Nat} {es : Options}
    (h : Shaped Binary64.Canonical room (.dict es)) :
    Shaped Json.IsFinite room (.dict (settledEntries es)) :=
  h.settled_isFinite

theorem Portable.reread (h : s.Portable) : s.reread.Portable where
  issuedAt := portable_reread h.issuedAt
  secretExpiresAt := portable_reread h.secretExpiresAt
  clientSettings := (shaped_settledEntries h.clientSettings).mono fun _ finite => finite.1
  tokenSettings := (shaped_settledEntries h.tokenSettings).mono fun _ finite => finite.1

theorem write_settledEntries (es : Options) :
    Json.write (.dict (settledEntries es)) = Json.write (.dict es) :=
  Json.write_settled (.dict es)

/-- Reading a snapshot once does not change its text. -/
theorem Portable.toJson_reread (h : s.Portable) : s.reread.toJson = s.toJson := by
  rw [h.reread.toJson_eq, h.toJson_eq, Json.write, Json.write]
  simp only [spelled, Snapshot.reread, document, List.map_cons, List.map_nil, Json.writeEntries,
    momentText_reread, write_settledEntries]

/-- Snapshots have the same text exactly if they are read as the same snapshot. -/
theorem Portable.toJson_eq_iff {r : Snapshot} (hs : s.Portable) (hr : r.Portable) :
    s.toJson = r.toJson ↔ s.reread = r.reread := by
  constructor
  · intro same
    obtain ⟨t, written, read, -⟩ := hs.read_back
    obtain ⟨u, written', read', -⟩ := hr.read_back
    rw [written, written'] at same
    cases same
    rw [read] at read'
    exact Except.ok.inj read'
  · intro same
    rw [← hs.toJson_reread, same, hr.toJson_reread]

end ClientRegistry.Snapshot
