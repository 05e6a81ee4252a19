import ClientRegistry.Proofs.Json.Scan
import ClientRegistry.Proofs.Snapshot.RoundTrip
import ClientRegistry.Proofs.Value.Order

/-! How far equal clients have equal texts. Sets are listed in order, so that the order of their
members is not seen; moments and settings are written as they are spelled, so that their spelling
is. Two clients that are the same have one text exactly if these are spelled alike. -/

namespace ClientRegistry

namespace Snapshot

variable {s r : Snapshot} {t u : List Char}

theorem writeEntries_document_inj {fs gs : List (String × Value)} {ps qs : List (List Char)}
    (names : fs.map Prod.fst = gs.map Prod.fst) (hp : Json.writeEntries (document fs) = .ok ps)
    (hq : Json.writeEntries (document gs) = .ok qs) :
    ps = qs ↔ fs.map (fun f => Json.write f.2) = gs.map fun g => Json.write g.2 := by
  induction fs generalizing gs ps qs with
  | nil =>
      rw [List.map_eq_nil_iff.mp names.symm] at hq ⊢
      rw [hp] at hq
      cases hq
      simp
  | cons f fs ih =>
      cases gs with
      | nil => cases names
      | cons g gs =>
          obtain ⟨name, names⟩ := List.cons.inj names
          obtain ⟨t, u, us, key, value, rest, rfl⟩ := Json.writeEntries_cons_eq_ok hp
          obtain ⟨t', u', us', key', value', rest', rfl⟩ := Json.writeEntries_cons_eq_ok hq
          rw [name, key'] at key
          cases key
          have fields := ih names rest rest'
          simp only [List.map_cons, List.cons.injEq, List.append_cancel_left_eq, true_and, value,
            value', Except.ok.injEq, fields]

theorem toJson_eq_ok (h : s.toJson = .ok t) : ∃ parts,
    Json.writeEntries (document s.named) = .ok parts ∧ t = '{' :: Json.separated parts ++ ['}'] := by
  rw [toJson, jsonOfNamed] at h
  split at h
  · exact Json.write_dict_eq_ok h
  · cases h

/-- Snapshots have the same text exactly if each field has. -/
theorem toJson_inj (hs : s.toJson = .ok t) (hr : r.toJson = .ok u) :
    t = u ↔ s.named.map (fun f => Json.write f.2) = r.named.map fun f => Json.write f.2 := by
  obtain ⟨ps, written, rfl⟩ := toJson_eq_ok hs
  obtain ⟨qs, written', rfl⟩ := toJson_eq_ok hr
  have names : s.named.map Prod.fst = r.named.map Prod.fst := rfl
  have count : ps.length = qs.length :=
    (Json.length_writeEntries written).trans (Json.length_writeEntries written').symm
  rw [← writeEntries_document_inj names written written']
  constructor
  · intro same
    exact Json.separated_inj (Json.closed_writeEntries _ written)
      (Json.closed_writeEntries _ written') count rfl (List.cons.inj same).2
  · rintro rfl
    rfl

theorem isTextual_of_checkText {path : List PathStep} {v : Value} {x : String}
    (h : checkText path v = .ok x) : v.IsTextual := by
  cases v with
  | text s => exact .inl ⟨s, rfl⟩
  | bytes bs => exact .inr ⟨bs, rfl⟩
  | _ => cases h

theorem exact_of_checkOptionalText {path : List PathStep} {v : Value} {o : Option String}
    (h : checkOptionalText path v = .ok o) : v.Exact := by
  cases v with
  | null =>
      intro w same
      cases w <;> simp [Value.same, Value.sameLeaf, Value.integer?] at same ⊢
  | text s => exact Value.IsTextual.exact (.inl ⟨s, rfl⟩)
  | bytes bs => exact Value.IsTextual.exact (.inr ⟨bs, rfl⟩)
  | _ => cases h

theorem forall_ok_of_collect {α : Type} {cs : List (Checked α)} {as : List α}
    (h : collect cs = .ok as) : ∀ c ∈ cs, ∃ a, c = .ok a := by
  induction cs generalizing as with
  | nil => exact fun c member => absurd member List.not_mem_nil
  | cons c cs ih =>
      simp only [collect] at h
      split at h
      next a as' rest => exact List.forall_mem_cons.mpr ⟨⟨a, rfl⟩, ih rest⟩
      · cases h
      · cases h
      · cases h

theorem isTextual_of_checkTexts {origin : Origin} {field : String} {xs : List Value}
    {ts : List String} (h : checkTexts origin field (.list xs) = .ok ts) :
    ∀ v ∈ xs, v.IsTextual := by
  intro v member
  obtain ⟨i, bound, rfl⟩ := List.getElem_of_mem member
  have listed : (xs[i], i) ∈ xs.zipIdx :=
    List.mem_zipIdx_iff_getElem?.mpr (List.getElem?_eq_getElem bound)
  obtain ⟨x, passed⟩ := forall_ok_of_collect h _ (List.mem_map_of_mem listed)
  exact isTextual_of_checkText passed

/-- What a snapshot takes from a client as it is, up to the order of sets. -/
structure Taken (c : Client) (s : Snapshot) : Prop where
  id : checkText [.name "id"] c.id = .ok s.id
  clientId : checkText [.name "client_id"] c.clientId = .ok s.clientId
  secret : checkOptionalText [.name "client_secret"] c.secret = .ok s.secret
  name : checkText [.name "client_name"] c.name = .ok s.name
  methods : ∃ xs, Listing.ofTokens c.methods = .ok xs ∧
    checkTexts .program "token_endpoint_auth_methods" (.list xs) = .ok s.authMethods
  grants : ∃ xs, Listing.ofTokens c.grants = .ok xs ∧
    checkTexts .program "grant_types" (.list xs) = .ok s.grantTypes
  redirectUris : ∃ xs, Listing.ofMembers c.redirectUris = .ok xs ∧
    checkTexts .program "redirect_uris" (.list xs) = .ok s.redirectUris
  scopes : ∃ xs, Listing.ofMembers c.scopes = .ok xs ∧
    checkTexts .program "scopes" (.list xs) = .ok s.scopes

theorem taken_of_ofClient {c : Client} (h : ofClient c = .ok s) : Taken c s := by
  simp only [ofClient, except_bind_eq_ok] at h
  obtain ⟨methods, hm, grants, hg, uris, hu, scopes, hs, h⟩ := h
  have checks := ofInput_eq_ok.mp h
  exact {
    id := by simpa [required, given] using checks.id
    clientId := by simpa [required, given] using checks.clientId
    secret := by simpa [defaulted, given] using checks.secret
    name := by simpa [required, given] using checks.name
    methods := ⟨methods, hm, by simpa [defaulted, given] using checks.authMethods⟩
    grants := ⟨grants, hg, by simpa [defaulted, given] using checks.grantTypes⟩
    redirectUris := ⟨uris, hu, by simpa [defaulted, given] using checks.redirectUris⟩
    scopes := ⟨scopes, hs, by simpa [defaulted, given] using checks.scopes⟩ }

theorem eq_of_check {α : Type} {check : Value → Checked α} {v w : Value} {x y : α}
    (exact : v.Exact) (hx : check v = .ok x) (hy : check w = .ok y) (same : v.same w = true) :
    x = y := by
  rw [exact w same, hx] at hy
  exact Except.ok.inj hy

theorem eq_of_listing {listing : List Value → Except Fault (List Value)} {field : String}
    {xs ys : List Value} {ss ts : List String}
    (stable : ∀ ls, listing xs = .ok ls → (∀ v ∈ ls, v.IsTextual) → listing ys = .ok ls)
    (hx : ∃ ls, listing xs = .ok ls ∧ checkTexts .program field (.list ls) = .ok ss)
    (hy : ∃ ls, listing ys = .ok ls ∧ checkTexts .program field (.list ls) = .ok ts) : ss = ts := by
  obtain ⟨ls, listed, passed⟩ := hx
  obtain ⟨ms, listed', passed'⟩ := hy
  rw [stable ls listed (isTextual_of_checkTexts passed)] at listed'
  cases listed'
  rw [passed] at passed'
  exact Except.ok.inj passed'

end Snapshot

/-- Sets list no member twice. -/
structure Client.Listed (c : Client) : Prop where
  methods : c.methods.Nodup
  grants : c.grants.Nodup
  redirectUris : c.redirectUris.Nodup
  scopes : c.scopes.Nodup

namespace Snapshot

variable {s r : Snapshot} {t u : List Char} {a b : Client}

/-- The moments and the settings of two snapshots are written alike. -/
structure SpelledAlike (s r : Snapshot) : Prop where
  issuedAt : s.issuedAt.map Moment.snapshotText = r.issuedAt.map Moment.snapshotText
  secretExpiresAt :
    s.secretExpiresAt.map Moment.snapshotText = r.secretExpiresAt.map Moment.snapshotText
  clientSettings : Json.write (.dict s.clientSettings) = Json.write (.dict r.clientSettings)
  tokenSettings : Json.write (.dict s.tokenSettings) = Json.write (.dict r.tokenSettings)

/-- Clients that are the same have the same ids, secret, name and lists in their snapshots. -/
theorem Taken.eq_of_same (listed : a.Listed) (same : a.same b = true) (ha : Taken a s)
    (hb : Taken b r) : r = { s with
      issuedAt := r.issuedAt, secretExpiresAt := r.secretExpiresAt,
      clientSettings := r.clientSettings, tokenSettings := r.tokenSettings } := by
  simp only [Client.same, Client.values, Value.sameList, Bool.and_eq_true, Bool.and_true] at same
  obtain ⟨id, clientId, -, secret, -, name, methods, grants, uris, scopes, -, -⟩ := same
  have methods := eq_of_listing (fun _ => Listing.ofTokens_of_same listed.methods methods)
    ha.methods hb.methods
  have grants := eq_of_listing (fun _ => Listing.ofTokens_of_same listed.grants grants)
    ha.grants hb.grants
  have uris := eq_of_listing (fun _ => Listing.ofMembers_of_same listed.redirectUris uris)
    ha.redirectUris hb.redirectUris
  have scopes := eq_of_listing (fun _ => Listing.ofMembers_of_same listed.scopes scopes)
    ha.scopes hb.scopes
  have id := eq_of_check (isTextual_of_checkText ha.id).exact ha.id hb.id id
  have clientId :=
    eq_of_check (isTextual_of_checkText ha.clientId).exact ha.clientId hb.clientId clientId
  have secret := eq_of_check (exact_of_checkOptionalText ha.secret) ha.secret hb.secret secret
  have name := eq_of_check (isTextual_of_checkText ha.name).exact ha.name hb.name name
  rw [id, clientId, secret, name, methods, grants, uris, scopes]

theorem write_moment_inj {o p : Option Moment} :
    Json.write (optional .moment o) = Json.write (optional .moment p) ↔
      o.map Moment.snapshotText = p.map Moment.snapshotText := by
  cases o with
  | none =>
      cases p with
      | none => simp
      | some n => simp [optional, Json.write, Json.writeText]
  | some m =>
      cases p with
      | none => simp [optional, Json.write, Json.writeText]
      | some n =>
          simp only [optional, Json.write, Except.ok.injEq, Option.map_some, Option.some.injEq]
          exact ⟨Json.writeText_injective, congrArg Json.writeText⟩

end Snapshot

namespace Client

variable {a b : Client} {s r : Snapshot} {t u : List Char}

/-- Clients that are the same have one text exactly if their moments and their settings are
spelled alike. -/
theorem toJson_eq_iff_of_same (listed : a.Listed) (same : a.same b = true)
    (fromA : Snapshot.ofClient a = .ok s) (fromB : Snapshot.ofClient b = .ok r)
    (writtenA : s.toJson = .ok t) (writtenB : r.toJson = .ok u) : t = u ↔ s.SpelledAlike r := by
  have fields := Snapshot.Taken.eq_of_same listed same (Snapshot.taken_of_ofClient fromA)
    (Snapshot.taken_of_ofClient fromB)
  rw [Snapshot.toJson_inj writtenA writtenB, fields]
  simp only [Snapshot.named, List.map_cons, List.map_nil, List.cons.injEq, true_and, and_true,
    Snapshot.write_moment_inj]
  constructor
  · rintro ⟨issuedAt, expiry, client, token⟩
    exact ⟨issuedAt, expiry, client, token⟩
  · rintro ⟨issuedAt, expiry, client, token⟩
    exact ⟨issuedAt, expiry, client, token⟩

/-- A client with one grant and one method. -/
def till (scopes : List String) (issuedAt : Moment) (options : Options) : Snapshot :=
  ⟨"r", "till", some issuedAt, none, none, "Till", ["none"], ["custom"], [], scopes, options, []⟩

/-- Half past twelve in a zone that is five and a half hours ahead. -/
def halfPastTwelve : Moment := ⟨2024, 2, 29, 12, 30, 0, 0, some ⟨19800, false⟩⟩

/-- The same instant in universal time. -/
def sevenUtc : Moment := ⟨2024, 2, 29, 7, 0, 0, 0, some ⟨0, false⟩⟩

def twoOptions : Options := [(.text "pkce", .bool true), (.text "consent", .int 0)]

def reordered : Options := [(.text "consent", .int 0), (.text "pkce", .bool true)]

/-- A number in the place of the truth value that it equals. -/
def retyped : Options := [(.text "pkce", .int 1), (.text "consent", .int 0)]

theorem halfPastTwelve_whole : halfPastTwelve.Valid ∧ halfPastTwelve.WholeMinutes :=
  ⟨⟨by decide, by decide, by decide, by decide, by decide, by decide, by decide⟩,
    fun z member => by cases member; decide⟩

theorem sevenUtc_whole : sevenUtc.Valid ∧ sevenUtc.WholeMinutes :=
  ⟨⟨by decide, by decide, by decide, by decide, by decide, by decide, by decide⟩,
    fun z member => by cases member; decide⟩

theorem shaped_pair {double : Binary64 → Prop} {room : Nat} {k l : String} {v w : Value}
    (other : k ≠ l) (hv : Json.Shaped double room v) (hw : Json.Shaped double room w) :
    Json.Shaped double (room + 1) (.dict [(.text k, v), (.text l, w)]) := by
  refine .dict room _ ⟨by simp [Value.IsText], by simp [other]⟩ ?_
  exact List.forall_mem_cons.mpr ⟨hv, List.forall_mem_singleton.mpr hw⟩

theorem shaped_options {es : Options} (h : es ∈ [twoOptions, reordered, retyped]) :
    Json.Shaped Binary64.Canonical (Json.mostNested - 1) (.dict es) := by
  have zero : Json.IntReadable 0 := by decide +kernel
  have one : Json.IntReadable 1 := by decide +kernel
  simp only [List.mem_cons, List.not_mem_nil, or_false] at h
  rcases h with rfl | rfl | rfl
  · exact shaped_pair (by decide) (.bool _ _) (.int _ _ zero)
  · exact shaped_pair (by decide) (.int _ _ zero) (.bool _ _)
  · exact shaped_pair (by decide) (.int _ _ one) (.int _ _ zero)

theorem till_portable {scopes : List String} {issuedAt : Moment} {es : Options}
    (whole : issuedAt.Valid ∧ issuedAt.WholeMinutes) (known : es ∈ [twoOptions, reordered, retyped]) :
    (till scopes issuedAt es).Portable where
  issuedAt m member := by
    cases member
    exact whole
  secretExpiresAt m member := by cases member
  clientSettings := shaped_options known
  tokenSettings := .emptyDict _

theorem till_accepted (issuedAt : Moment) (es : Options) :
    (till [] issuedAt es).client.Accepted where
  id := rfl
  clientId := rfl
  name := rfl
  grants := by simp [till, Snapshot.client]
  methods := by simp [till, Snapshot.client]
  redirects := by
    change authorizationCode.memberOf [.token .grantType (.text "custom")] = true → _
    exact fun member => absurd member (by decide +kernel)
  scopes := by simp [till, Snapshot.client]
  redirectUris := by simp [till, Snapshot.client]

/-- Accepted clients that are the same, but have different texts. -/
def SameButSpelled (a b : Client) : Prop :=
  a.Accepted ∧ b.Accepted ∧ a.same b = true ∧
    ∃ t u, a.toJson = .ok t ∧ b.toJson = .ok u ∧ t ≠ u

/-- Such clients without scopes have different texts if they are read as different snapshots. -/
theorem till_sameButSpelled {issuedAt : Moment} {es : Options}
    (hs : (till [] halfPastTwelve twoOptions).Portable) (hr : (till [] issuedAt es).Portable)
    (same : (till [] halfPastTwelve twoOptions).client.same (till [] issuedAt es).client = true)
    (ne : (till [] halfPastTwelve twoOptions).reread ≠ (till [] issuedAt es).reread) :
    SameButSpelled (till [] halfPastTwelve twoOptions).client (till [] issuedAt es).client := by
  have ordered : ∀ issuedAt es, (till [] issuedAt es).sorted = till [] issuedAt es := by
    intro issuedAt es
    simp [Snapshot.sorted, till, Listing.sortTexts]
  obtain ⟨t, written, -⟩ := hs.read_back
  obtain ⟨u, written', -⟩ := hr.read_back
  refine ⟨till_accepted _ _, till_accepted _ _, same, t, u, ?_, ?_, fun texts => ne ?_⟩
  · rw [Snapshot.toJson_client hs, ordered, written]
  · rw [Snapshot.toJson_client hr, ordered, written']
  · rw [← hs.toJson_eq_iff hr, written, written', texts]

/-- Options in another order, a value of another type and an instant at another offset each make
another text of a client that is the same. -/
theorem till_texts_differ :
    SameButSpelled (till [] halfPastTwelve twoOptions).client (till [] halfPastTwelve reordered).client ∧
    SameButSpelled (till [] halfPastTwelve twoOptions).client (till [] halfPastTwelve retyped).client ∧
    SameButSpelled (till [] halfPastTwelve twoOptions).client (till [] sevenUtc twoOptions).client := by
  have whole := halfPastTwelve_whole
  have given : (till [] halfPastTwelve twoOptions).Portable := till_portable whole (by simp)
  refine ⟨?_, ?_, ?_⟩
  · refine till_sameButSpelled given (till_portable whole (by simp)) (by decide +kernel) fun same => ?_
    have settings := congrArg Snapshot.clientSettings same
    simp [Snapshot.reread, till, twoOptions, reordered, Json.settledEntries, Json.settled] at settings
  · refine till_sameButSpelled given (till_portable whole (by simp)) (by decide +kernel) fun same => ?_
    have settings := congrArg Snapshot.clientSettings same
    simp [Snapshot.reread, till, twoOptions, retyped, Json.settledEntries, Json.settled] at settings
  · have portable : (till [] sevenUtc twoOptions).Portable := till_portable sevenUtc_whole (by simp)
    refine till_sameButSpelled given portable (by decide +kernel) fun same => ?_
    have issued := congrArg Snapshot.issuedAt same
    simp [Snapshot.reread, till, halfPastTwelve, sevenUtc, Moment.reread] at issued

/-- Scopes and options in another order: the texts would be equal if the options were. -/
theorem till_toJson_eq_iff_of_same : ∃ s r t u,
    (till ["write", "read"] halfPastTwelve twoOptions).client.Listed ∧
    (till ["write", "read"] halfPastTwelve twoOptions).client.same
      (till ["read", "write"] halfPastTwelve reordered).client = true ∧
    Snapshot.ofClient (till ["write", "read"] halfPastTwelve twoOptions).client = .ok s ∧
    Snapshot.ofClient (till ["read", "write"] halfPastTwelve reordered).client = .ok r ∧
    s.toJson = .ok t ∧ r.toJson = .ok u ∧ (t = u ↔ s.SpelledAlike r) := by
  have hs : (till ["write", "read"] halfPastTwelve twoOptions).Portable :=
    till_portable halfPastTwelve_whole (by simp)
  have hr : (till ["read", "write"] halfPastTwelve reordered).Portable :=
    till_portable halfPastTwelve_whole (by simp)
  have listed : (till ["write", "read"] halfPastTwelve twoOptions).client.Listed :=
    ⟨by simp [till, Snapshot.client], by simp [till, Snapshot.client],
      by simp [till, Snapshot.client], by simp [till, Snapshot.client]⟩
  have same : (till ["write", "read"] halfPastTwelve twoOptions).client.same
      (till ["read", "write"] halfPastTwelve reordered).client = true := by decide +kernel
  have fromA := Snapshot.ofClient_client hs.clientSettings.keyed hs.tokenSettings.keyed
  have fromB := Snapshot.ofClient_client hr.clientSettings.keyed hr.tokenSettings.keyed
  obtain ⟨t, written, -⟩ := hs.sorted.read_back
  obtain ⟨u, written', -⟩ := hr.sorted.read_back
  exact ⟨_, _, t, u, listed, same, fromA, fromB, written, written',
    toJson_eq_iff_of_same listed same fromA fromB written written'⟩

end Client

end ClientRegistry
