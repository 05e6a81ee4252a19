import ClientRegistry.Proofs.Settings.Bag
import ClientRegistry.Proofs.Time.Reading
import ClientRegistry.Proofs.Value.Edited
import ClientRegistry.Snapshot.Validation

/-! When the data of a snapshot pass: each field passes its own check. Values of the types that a
snapshot holds pass as they are; moments may be spelled as texts. -/

namespace ClientRegistry.Snapshot

variable {origin : Origin} {data : List (String × Value)} {s : Snapshot}

/-- Every field of the data passes its check, with the snapshot's field as the result. -/
structure Checks (origin : Origin) (data : List (String × Value)) (s : Snapshot) : Prop where
  id : required data "id" (checkText [.name "id"]) = .ok s.id
  clientId : required data "client_id" (checkText [.name "client_id"]) = .ok s.clientId
  issuedAt : defaulted data "client_id_issued_at" none
    (checkMoment origin [.name "client_id_issued_at"]) = .ok s.issuedAt
  secret : defaulted data "client_secret" none
    (checkOptionalText [.name "client_secret"]) = .ok s.secret
  secretExpiresAt : defaulted data "client_secret_expires_at" none
    (checkMoment origin [.name "client_secret_expires_at"]) = .ok s.secretExpiresAt
  name : required data "client_name" (checkText [.name "client_name"]) = .ok s.name
  authMethods : defaulted data "token_endpoint_auth_methods" []
    (checkTexts origin "token_endpoint_auth_methods") = .ok s.authMethods
  grantTypes : defaulted data "grant_types" [] (checkTexts origin "grant_types") = .ok s.grantTypes
  redirectUris : defaulted data "redirect_uris" []
    (checkTexts origin "redirect_uris") = .ok s.redirectUris
  scopes : defaulted data "scopes" [] (checkTexts origin "scopes") = .ok s.scopes
  clientSettings : defaulted data "client_settings" []
    (checkOptions "client_settings") = .ok s.clientSettings
  tokenSettings : defaulted data "token_settings" []
    (checkOptions "token_settings") = .ok s.tokenSettings

theorem ofInput_eq_ok : ofInput origin data = .ok s ↔ Checks origin data s := by
  constructor
  · intro h
    simp only [ofInput] at h
    split at h
    next id clientId issuedAt secret expiry name methods grants uris scopes client token =>
      cases h
      exact ⟨id, clientId, issuedAt, secret, expiry, name, methods, grants, uris, scopes, client,
        token⟩
    · cases h
  · intro h
    simp only [ofInput, h.id, h.clientId, h.issuedAt, h.secret, h.secretExpiresAt, h.name,
      h.authMethods, h.grantTypes, h.redirectUris, h.scopes, h.clientSettings, h.tokenSettings]

variable {path : List PathStep} {field : String}

theorem collect_map_ok {α : Type} (as : List α) : collect (as.map .ok) = .ok as := by
  induction as with
  | nil => rfl
  | cons a rest ih => simp only [List.map_cons, collect, ih]

theorem mem_of_collect {α : Type} {cs : List (Checked α)} {as : List α} (h : collect cs = .ok as) :
    ∀ a ∈ as, .ok a ∈ cs := by
  induction cs generalizing as with
  | nil =>
      cases h
      exact fun _ member => by cases member
  | cons c rest ih =>
      simp only [collect] at h
      split at h
      next a as' others =>
        cases h
        refine List.forall_mem_cons.mpr ⟨List.mem_cons_self, fun b member => ?_⟩
        exact List.mem_cons_of_mem _ (ih others b member)
      all_goals cases h

/-- Checking the entries changes their keys only. -/
theorem checkEntries_values {α : Type} {R : α → Prop} {field : String} {es fs : List (Value × α)}
    (h : checkEntries field es = .ok fs) (old : ∀ e ∈ es, R e.2) : ∀ e ∈ fs, R e.2 := by
  simp only [checkEntries] at h
  cases collected : collect (es.map fun e => (checkKey field e.1).map fun k => (k, e.2)) with
  | error found =>
      rw [collected] at h
      cases h
  | ok checked =>
      rw [collected] at h
      cases h
      refine Entries.ofList_values fun e member => ?_
      obtain ⟨source, listed, same⟩ := List.mem_map.mp (mem_of_collect collected e member)
      cases key : checkKey field source.1 with
      | error found =>
          rw [key] at same
          cases same
      | ok k =>
          rw [key] at same
          cases same
          exact old source listed

theorem checkOptionalText_optional (path : List PathStep) (o : Option String) :
    checkOptionalText path (optional .text o) = .ok o := by
  cases o <;> rfl

theorem checkMoment_optional (origin : Origin) (path : List PathStep) (o : Option Moment) :
    checkMoment origin path (optional .moment o) = .ok o := by
  cases o <;> rfl

theorem checkTexts_texts (origin : Origin) (field : String) (xs : List String) :
    checkTexts origin field (texts xs) = .ok xs := by
  have each : ∀ k, ((xs.map Value.text).zipIdx k).map
      (fun x => checkText [.name field, .index x.2] x.1) = xs.map .ok := by
    induction xs with
    | nil => exact fun _ => rfl
    | cons s rest ih =>
        intro k
        rw [List.map_cons, List.zipIdx_cons, List.map_cons, List.map_cons, ih, checkText]
  simp only [checkTexts, texts, listItems?, each, collect_map_ok]

theorem checkOptions_keyed (field : String) {es : Options} (keyed : Entries.Keyed es) :
    checkOptions field (.dict es) = .ok es := by
  have each : es.map (fun e => (checkKey field e.1).map fun k => (k, e.2)) = es.map .ok := by
    refine List.map_congr_left fun e member => ?_
    obtain ⟨k, v⟩ := e
    obtain ⟨s, rfl⟩ : k.IsText := keyed.texts _ member
    rfl
  rw [checkOptions, checkEntries, each, collect_map_ok, Except.map, Entries.ofList_of_keyed keyed]

/-- The text that stands for a moment where there is one. -/
def momentText (o : Option Moment) : Value :=
  optional (fun m => .text (String.ofList m.snapshotText)) o

theorem checkMoment_momentText {o : Option Moment}
    (h : ∀ m ∈ o, m.Valid ∧ m.WholeMinutes) (path : List PathStep) :
    checkMoment .json path (momentText o) = .ok (o.map Moment.reread) := by
  cases o with
  | none => rfl
  | some m =>
      obtain ⟨valid, whole⟩ := h m rfl
      simp only [momentText, optional, checkMoment, checkReading, String.toList_ofList,
        Moment.readText_snapshotText valid whole, Option.map_some]

theorem legible_of_checkReading {cs : List Char} {m : Moment}
    (h : checkReading path cs = .ok (some m)) : m.Legible := by
  simp only [checkReading] at h
  split at h
  next reading =>
    cases h
    exact Moment.legible_of_readText reading
  · cases h
  · cases h

theorem eq_of_checkFound {o : Option Moment} {m : Moment} (h : checkFound path o = .ok (some m)) :
    o = some m := by
  cases o with
  | none => cases h
  | some n => exact Except.ok.inj h

/-- A moment that is not given as one is legible once it is found. -/
theorem legible_of_checkMoment {v : Value} {m : Moment} (plain : ¬v.IsMoment)
    (h : checkMoment .json path v = .ok (some m)) : m.Legible := by
  cases v with
  | moment n => exact absurd ⟨n, rfl⟩ plain
  | text s => exact legible_of_checkReading h
  | bytes bs =>
      simp only [checkMoment] at h
      split at h
      · exact legible_of_checkReading h
      · cases h
  | int n =>
      simp only [checkMoment] at h
      split at h
      · exact Moment.legible_of_ofUnixInt? (eq_of_checkFound h)
      · cases h
  | real x => exact Moment.legible_of_ofUnixReal? (eq_of_checkFound h)
  | _ => cases h

end ClientRegistry.Snapshot
