import ClientRegistry.Proofs.Logging.Container

/-! The records that the checks, drafts and registries log. The checks quote the scope or the
redirect URI that they refuse and give no context; drafts and registries show the ids of a
registration in the message and in the context. -/

namespace ClientRegistry

open Text (OneLine oneLine_cons oneLine_append)

variable {r : LogRecord}

namespace Validation

theorem mem_log_scopes {vs : List Value} (logged : r ∈ (scopes vs).log) :
    ∃ v ∈ vs, r = scopeRejected v := by
  induction vs with
  | nil => cases logged
  | cons v rest ih =>
      rw [scopes] at logged
      split at logged
      · obtain ⟨w, member, same⟩ := ih logged
        exact ⟨w, List.mem_cons_of_mem v member, same⟩
      · exact ⟨v, List.mem_cons_self, List.mem_singleton.mp logged⟩
      · cases logged

theorem mem_log_redirectUris {vs : List Value} (logged : r ∈ (redirectUris vs).log) :
    ∃ v ∈ vs, r = redirectUriRejected v := by
  induction vs with
  | nil => cases logged
  | cons v rest ih =>
      rw [redirectUris] at logged
      split at logged
      · obtain ⟨w, member, same⟩ := ih logged
        exact ⟨w, List.mem_cons_of_mem v member, same⟩
      · exact ⟨v, List.mem_cons_self, List.mem_singleton.mp logged⟩
      · cases logged

/-- A scope or a redirect URI that a check refuses. -/
def Refuses (scopes redirectUris : List Value) (r : LogRecord) : Prop :=
  (∃ v ∈ scopes, r = scopeRejected v) ∨ ∃ v ∈ redirectUris, r = redirectUriRejected v

end Validation

namespace Client

/-- Making a client logs nothing but what its checks refuse. -/
theorem mem_log_make {f : Fields} (logged : r ∈ (make f).log) :
    ∃ c : Client, c.fields = f ∧ Validation.Refuses c.scopes c.redirectUris r := by
  simp only [make, Outcome.mem_log_bind, Outcome.ofExcept_result, shape_eq_ok] at logged
  rcases logged with none | ⟨c, shaped, checked | ⟨_, -, none⟩⟩
  · cases none
  · refine ⟨c, shaped, ?_⟩
    rw [check] at checked
    split at checked
    · cases checked
    split at checked
    · cases checked
    · rcases Outcome.mem_log_bind.mp checked with scope | ⟨_, -, uri⟩
      · exact .inl (Validation.mem_log_scopes scope)
      · exact .inr (Validation.mem_log_redirectUris uri)
  · cases none

end Client

namespace Draft

variable {d : Draft}

/-- What a build logs: a missing field, what its checks refuse, or the client with its ids. -/
inductive Logs (d : Draft) : LogRecord → Prop
  | rejected {field : String} (missing : d.missingField? = some field) : Logs d (d.rejected field)
  | refused {r : LogRecord} (refused : Validation.Refuses d.scopes d.redirectUris r) : Logs d r
  | built {c : Client} (id : c.id = d.id) (clientId : c.clientId = d.clientId) :
      Logs d (Draft.built c)

theorem logs_of_mem (logged : r ∈ d.build.log) : d.Logs r := by
  rw [build] at logged
  split at logged
  next field missing =>
    rw [List.mem_singleton.mp logged]
    exact .rejected missing
  next =>
    simp only [Outcome.mem_log_bind, Outcome.ofExcept_result] at logged
    -- The settings are copied without a record, and making the client repeats the checks.
    rcases logged with
      scope | ⟨_, -, uri | ⟨_, -, none | ⟨_, -, none | ⟨_, -, made | ⟨c, made, shown⟩⟩⟩⟩⟩
    · exact .refused (.inl (Validation.mem_log_scopes scope))
    · exact .refused (.inr (Validation.mem_log_redirectUris uri))
    · cases none
    · cases none
    · obtain ⟨c, shaped, refused⟩ := Client.mem_log_make made
      simp only [Client.fields, complete, Fields.mk.injEq, Value.frozen.injEq] at shaped
      obtain ⟨-, -, -, -, -, -, -, -, uris, scopes, -, -⟩ := shaped
      exact .refused (uris ▸ scopes ▸ refused)
    · have shaped := (Client.make_eq_ok.mp made).1
      simp only [Client.fields, complete, Fields.mk.injEq] at shaped
      rcases shown with shown | ⟨_, -, none⟩
      · rw [List.mem_singleton.mp shown]
        exact .built shaped.1 shaped.2.1
      · cases none

end Draft

theorem Registry.mem_log_save {registry : Registry Client} {c : Client}
    (logged : r ∈ (registry.save c).log) : r = saved c ∨ r = duplicate c := by
  rw [save] at logged
  split at logged
  · cases logged
  split at logged
  · exact .inr (List.mem_singleton.mp logged)
  split at logged
  · cases logged
  · rcases Outcome.mem_log_bind.mp logged with shown | ⟨_, -, none⟩
    · exact .inl (List.mem_singleton.mp shown)
    · cases none

/-- What the opening of a registry logs is logged by the saves that it consists of. -/
theorem Registry.mem_log_ofList {cs : List Client} (logged : r ∈ (ofList cs).log) :
    ∃ c ∈ cs, ∃ registry : Registry Client, r ∈ (registry.save c).log := by
  rw [ofList] at logged
  generalize empty = registry at logged
  induction cs generalizing registry with
  | nil => cases logged
  | cons c rest ih =>
      rcases Outcome.mem_log_bind.mp logged with first | ⟨registry', -, later⟩
      · exact ⟨c, List.mem_cons_self, registry, first⟩
      · obtain ⟨d, member, saving⟩ := ih registry' later
        exact ⟨d, List.mem_cons_of_mem c member, saving⟩

namespace Validation

theorem oneLine_scopeRejected {v : Value} (text : v.IsText) :
    OneLine (scopeRejected v).message := by
  obtain ⟨s, rfl⟩ := text
  exact oneLine_append.mpr ⟨by decide, Text.oneLine_quoted s.toList⟩

theorem oneLine_redirectUriRejected {v : Value} (text : v.IsText) :
    OneLine (redirectUriRejected v).message := by
  obtain ⟨s, rfl⟩ := text
  exact oneLine_append.mpr ⟨by decide, Text.oneLine_quoted s.toList⟩

end Validation

namespace Logging

/-- The records of the checks, of the making of clients, of the builds of drafts and of the saves
of registries, where scopes, redirect URIs and ids are texts; a draft may lack its client id. Each
comes with the ids of the registration. -/
inductive Emitted : List Value → LogRecord → Prop
  | scopes {vs : List Value} {r : LogRecord} (texts : ∀ v ∈ vs, v.IsText)
      (logged : r ∈ (Validation.scopes vs).log) : Emitted [] r
  | redirectUris {vs : List Value} {r : LogRecord} (texts : ∀ v ∈ vs, v.IsText)
      (logged : r ∈ (Validation.redirectUris vs).log) : Emitted [] r
  | make {c : Client} {r : LogRecord} (scopes : ∀ v ∈ c.scopes, v.IsText)
      (redirectUris : ∀ v ∈ c.redirectUris, v.IsText) (logged : r ∈ (Client.make c.fields).log) :
      Emitted [c.id, c.clientId] r
  | build {d : Draft} {r : LogRecord} (id : d.id.IsText)
      (clientId : d.clientId = .null ∨ d.clientId.IsText) (scopes : ∀ v ∈ d.scopes, v.IsText)
      (redirectUris : ∀ v ∈ d.redirectUris, v.IsText) (logged : r ∈ d.build.log) :
      Emitted [d.id, d.clientId] r
  | save {registry : Registry Client} {c : Client} {r : LogRecord} (named : Registry.Named c)
      (logged : r ∈ (registry.save c).log) : Emitted [c.id, c.clientId] r

/-- A record of the checks: it quotes what it refuses and has no context. -/
structure Quotes (r : LogRecord) : Prop where
  channel : r.channel = .validation
  context : r.context = []
  message : OneLine r.message

/-- A record that shows the ids of a registration as they are, in its message or its context. -/
structure Shows (ids : List Value) (r : LogRecord) : Prop where
  channel : r.channel ≠ .validation
  distinct : (r.context.map Prod.fst).Nodup
  oneLine : (OneLine r.message ∧ ∀ c ∈ r.context, OneLine c.2.displayed) ↔
    ∀ v ∈ ids, OneLine v.displayed

theorem quotes_of_refused {scopes redirectUris : List Value} (scopeTexts : ∀ v ∈ scopes, v.IsText)
    (uriTexts : ∀ v ∈ redirectUris, v.IsText)
    (refused : Validation.Refuses scopes redirectUris r) : Quotes r := by
  rcases refused with ⟨v, member, rfl⟩ | ⟨v, member, rfl⟩
  · exact ⟨rfl, rfl, Validation.oneLine_scopeRejected (scopeTexts v member)⟩
  · exact ⟨rfl, rfl, Validation.oneLine_redirectUriRejected (uriTexts v member)⟩

theorem oneLine_missingField {d : Draft} {field : String}
    (missing : d.missingField? = some field) : OneLine field.toList := by
  rw [Draft.missingField?] at missing
  split at missing
  · cases missing
    decide
  split at missing
  · cases missing
    decide
  split at missing
  · cases missing
    decide
  · cases missing

theorem shows_rejected {d : Draft} {field : String} (missing : d.missingField? = some field) :
    Shows [d.id, d.clientId] (d.rejected field) where
  channel := Channel.noConfusion
  distinct := show [ContextField.registrationId, .clientId, .field].Nodup by decide
  oneLine := by
    have name : OneLine (Value.text field).displayed := oneLine_missingField missing
    have name' : OneLine field.toList := name
    simp only [Draft.rejected, oneLine_append, List.forall_mem_cons]
    simp [name, name']

theorem shows_built (c : Client) : Shows [c.id, c.clientId] (Draft.built c) where
  channel := Channel.noConfusion
  distinct := show [ContextField.registrationId, .clientId].Nodup by decide
  oneLine := by simp [Draft.built]

theorem shows_saved (c : Client) : Shows [c.id, c.clientId] (Registry.saved c) where
  channel := Channel.noConfusion
  distinct := show [ContextField.registrationId, .clientId].Nodup by decide
  oneLine := by simp [Registry.saved, Registered.id, Registered.clientId]

theorem shows_duplicate (c : Client) : Shows [c.id, c.clientId] (Registry.duplicate c) where
  channel := Channel.noConfusion
  distinct := show [ContextField.registrationId, .clientId].Nodup by decide
  oneLine := by simp [Registry.duplicate, Registered.id, Registered.clientId]

/-- The records of the opening of a registry are among them. -/
theorem Emitted.of_ofList {cs : List Client} (named : ∀ c ∈ cs, Registry.Named c)
    (logged : r ∈ (Registry.ofList cs).log) : ∃ c ∈ cs, Emitted [c.id, c.clientId] r := by
  obtain ⟨c, member, registry, saving⟩ := Registry.mem_log_ofList logged
  exact ⟨c, member, .save (named c member) saving⟩

theorem Emitted.quotes_or_shows {ids : List Value} (emitted : Emitted ids r) :
    Quotes r ∨ Shows ids r := by
  cases emitted with
  | scopes texts logged =>
      exact .inl (quotes_of_refused texts texts (.inl (Validation.mem_log_scopes logged)))
  | redirectUris texts logged =>
      exact .inl (quotes_of_refused texts texts (.inr (Validation.mem_log_redirectUris logged)))
  | make scopes redirectUris logged =>
      obtain ⟨c', same, refused⟩ := Client.mem_log_make logged
      simp only [Client.fields, Fields.mk.injEq, Value.frozen.injEq] at same
      obtain ⟨-, -, -, -, -, -, -, -, uris', scopes', -, -⟩ := same
      exact .inl (quotes_of_refused (scopes'.symm ▸ scopes) (uris'.symm ▸ redirectUris) refused)
  | build id clientId scopes redirectUris logged =>
      cases Draft.logs_of_mem logged with
      | rejected missing => exact .inr (shows_rejected missing)
      | refused refused => exact .inl (quotes_of_refused scopes redirectUris refused)
      | built id' clientId' => exact .inr (id' ▸ clientId' ▸ shows_built _)
  | save named logged =>
      rcases Registry.mem_log_save logged with rfl | rfl
      · exact .inr (shows_saved _)
      · exact .inr (shows_duplicate _)

/-- The line of a record is broken by nothing but line breaks in the ids of a registration. What
the checks refuse is quoted and breaks no line. -/
theorem Emitted.oneLine_iff {ids : List Value} (emitted : Emitted ids r) {logger path : List Char}
    (named : OneLine logger) (placed : OneLine path) (line : Int) (stamp : Stamp) :
    ∃ text, (Entry.ofRecord r logger path line stamp none).containerText? = some text ∧
      (OneLine text ↔ r.channel = .validation ∨ ∀ v ∈ ids, OneLine v.displayed) := by
  rcases emitted.quotes_or_shows with quotes | shows
  · have distinct : (r.context.map Prod.fst).Nodup := by
      rw [quotes.context]
      exact List.nodup_nil
    obtain ⟨text, laid, oneLine⟩ := Entry.oneLine_ofRecord distinct named placed line stamp
    refine ⟨text, laid, ?_⟩
    rw [oneLine, quotes.context]
    simp [quotes.message, quotes.channel]
  · obtain ⟨text, laid, oneLine⟩ := Entry.oneLine_ofRecord shows.distinct named placed line stamp
    refine ⟨text, laid, ?_⟩
    rw [oneLine, shows.oneLine]
    exact (or_iff_right shows.channel).symm

/-- A draft with a line break in its id that lacks a client id, and one with a scope that is
refused. -/
def unnamed : Draft := Draft.empty (.text "web\nforged")

def illScoped : Draft :=
  { unnamed with
    clientId := .text "web"
    grants := [.token .grantType (.text "client_credentials")]
    scopes := [.text "two\nlines"] }

def recordedAt (r : LogRecord) : Entry :=
  .ofRecord r "registry".toList "/srv/registry".toList 7 ⟨1700000000, 0⟩ none

theorem illScoped_line :
    ∃ r ∈ illScoped.build.log, ∃ text, (recordedAt r).containerText? = some text ∧
      OneLine text := by
  have logged : Validation.scopeRejected (.text "two\nlines") ∈ illScoped.build.log := by
    have log : illScoped.build.log = [Validation.scopeRejected (.text "two\nlines")] := by
      with_unfolding_all rfl
    rw [log]
    exact List.mem_singleton_self _
  have emitted : Emitted [illScoped.id, illScoped.clientId]
      (Validation.scopeRejected (.text "two\nlines")) :=
    .build ⟨_, rfl⟩ (.inr ⟨_, rfl⟩) (List.forall_mem_singleton.mpr ⟨_, rfl⟩)
      (fun _ member => absurd member List.not_mem_nil) logged
  obtain ⟨text, laid, oneLine⟩ :=
    emitted.oneLine_iff (by decide : OneLine "registry".toList)
      (by decide : OneLine "/srv/registry".toList) 7 ⟨1700000000, 0⟩
  exact ⟨_, logged, text, laid, oneLine.mpr (.inl rfl)⟩

/-- The id ends the line early. -/
theorem unnamed_line_broken :
    unnamed.id.IsText ∧ ∃ r ∈ unnamed.build.log, (recordedAt r).containerText? = some
      ("2023-11-14T22:13:20.000+0000 WARNING  registry  Rejected registration id=web\nforged: "
        ++ "client_id cannot be empty  [registry:7]  registration_id=web\nforged "
        ++ "field=client_id").toList :=
  ⟨⟨_, rfl⟩, unnamed.rejected "client_id", List.mem_singleton_self _, by decide +kernel⟩

end Logging

end ClientRegistry
