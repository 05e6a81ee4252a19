import ClientRegistry.Proofs.Client.Calls
import ClientRegistry.Proofs.Snapshot.Faithful

/-! Which scopes the written forms carry. The check of scopes lets null pass, but a snapshot holds
texts only, and null has no place in an order, so that a row lists it only where it is alone. -/

namespace ClientRegistry

/-- Drafts whose fields are of their types, whose sets list each member once and whose options have
texts for names; among the scopes there may be null. -/
structure Draft.Lenient (d : Draft) : Prop where
  scalars : ∀ field : ScalarField, field.Admits (d.scalar field)
  methods : ∀ v ∈ d.methods, v.IsNamedToken .authMethod
  grants : ∀ v ∈ d.grants, v.IsNamedToken .grantType
  redirectUris : ∀ v ∈ d.redirectUris, v.IsText
  scopes : ∀ v ∈ d.scopes, v = .null ∨ v.IsText
  once : ∀ field, (d.members field).Nodup
  clientSettings : ∀ options, d.clientSettings = .bag .client options → Entries.Keyed options
  tokenSettings : ∀ options, d.tokenSettings = .bag .token options → Entries.Keyed options

namespace Value

variable {v : Value} {xs ys : List Value}

theorem less_null (v : Value) : v.less .null = .error .badType := by
  cases v <;> simp [less, lessLeaf, isNumber, integer?]

theorem null_less (v : Value) : less .null v = .error .badType := by
  cases v <;> simp [less, lessLeaf, isNumber, integer?]

/-- Null can be sorted where there is nothing to compare it with. -/
theorem eq_null_of_sort (member : .null ∈ xs) (h : sort xs = .ok ys) : xs = [.null] := by
  induction xs generalizing ys with
  | nil => cases member
  | cons x rest ih =>
      rw [sort] at h
      split at h
      next zs sorted =>
        have perm := sort_perm sorted
        cases zs with
        | nil =>
            have alone : rest = [] := List.nil_perm.mp perm
            subst alone
            rw [List.mem_singleton.mp member]
        | cons z zs =>
            obtain ⟨b, less⟩ := less_of_insertInOrder h
            rcases List.mem_cons.mp member with rfl | later
            · simp [null_less] at less
            · have alone : rest = [.null] := ih later sorted
              rw [alone] at perm
              have null : z = .null := List.mem_singleton.mp (perm.mem_iff.mp List.mem_cons_self)
              simp [null, less_null] at less
      · cases h

end Value

theorem Listing.ofMembers_of_null {xs ys : List Value} (member : .null ∈ xs)
    (listed : ofMembers xs = .ok ys) : xs = [.null] ∧ ys = [.null] := by
  rw [ofMembers] at listed
  split at listed
  next texts known =>
    rw [eq_of_mapM_text? known] at member
    obtain ⟨t, -, absurd⟩ := List.mem_map.mp member
    cases absurd
  · have alone := Value.eq_null_of_sort member listed
    subst alone
    cases listed
    exact ⟨rfl, rfl⟩

variable {c : Client} {d : Draft}

theorem Snapshot.null_notin_of_ofClient {s : Snapshot} (written : ofClient c = .ok s) :
    .null ∉ c.scopes := by
  intro member
  simp only [ofClient, except_bind_eq_ok] at written
  obtain ⟨_, _, _, _, _, _, scopes, listed, input⟩ := written
  obtain ⟨-, rfl⟩ := Listing.ofMembers_of_null member listed
  have checked := (ofInput_eq_ok.mp input).scopes
  simp [defaulted, given, checkTexts, listItems?, checkText, collect, finding] at checked

theorem Draft.keyed_of_copySettings {kind : BagKind} {v : Value} {options : Options}
    (admitted : v = .null ∨ ∃ options, v = .bag kind options)
    (keyed : ∀ options, v = .bag kind options → Entries.Keyed options)
    (copied : copySettings kind v = .ok (.bag kind options)) : Entries.Keyed options := by
  rcases admitted with rfl | ⟨given, rfl⟩
  · cases copied
    exact .nil
  · cases copied
    exact keyed _ rfl

theorem Draft.isText_name (h : d.Lenient) :
    d.id.IsText ∧ (if d.name.truthy then d.name else d.id).IsText := by
  have id : d.id.IsText := h.scalars .id
  refine ⟨id, ?_⟩
  split
  next named =>
    rcases h.scalars .name with (null : d.name = .null) | text
    · simp [null, Value.truthy] at named
    · exact text
  · exact id

/-- What a lenient draft is built to has fields of their types, but for its scopes. -/
theorem Draft.Lenient.storable (h : d.Lenient) (built : d.build.result = .ok c) :
    c.scopes = d.scopes ∧ Client.Storable { c with scopes := [] } ∧
      Client.Typed { c with scopes := [] } := by
  obtain ⟨clientSettings, tokenSettings, copied, copied', completed, accepted⟩ :=
    build_eq_ok.mp built
  obtain ⟨methodsOnce, methods⟩ := Snapshot.named_of_filledMethods ⟨h.once .methods, h.methods⟩
  obtain ⟨id, name⟩ := isText_name h
  have fields := completed
  simp only [Client.fields, complete, Fields.mk.injEq, Value.frozen.injEq] at fields
  obtain ⟨hid, hclient, hissued, hsecret, hexpiry, hname, hmethods, hgrants, huris, hscopes, rfl,
    rfl⟩ := fields
  have clientId : c.clientId.IsText := by
    rcases h.scalars .clientId with (null : d.clientId = .null) | text
    · have present := accepted.clientId
      simp [hclient, null, Value.truthy] at present
    · exact hclient ▸ text
  refine ⟨hscopes, ?_, ?_⟩
  · exact {
      accepted := { accepted with scopes := fun _ member => by cases member }
      id := hid ▸ id
      clientId
      methods := hmethods ▸ methods
      grants := hgrants ▸ h.grants
      scopes := fun _ member => by cases member
      methodsOnce := hmethods ▸ methodsOnce
      grantsOnce := hgrants ▸ h.once .grants
      redirectUrisOnce := huris ▸ h.once .redirectUris
      scopesOnce := List.nodup_nil
      clientSettings := keyed_of_copySettings (h.scalars .clientSettings) h.clientSettings copied
      tokenSettings := keyed_of_copySettings (h.scalars .tokenSettings) h.tokenSettings copied' }
  · exact {
      id := hid ▸ id
      clientId
      issuedAt := hissued ▸ h.scalars .issuedAt
      secret := hsecret ▸ h.scalars .secret
      secretExpiresAt := hexpiry ▸ h.scalars .secretExpiresAt
      name := hname ▸ name
      methods := fun v member => (methods v (hmethods ▸ member)).isToken
      grants := fun v member => (h.grants v (hgrants ▸ member)).isToken
      redirectUris := huris ▸ h.redirectUris
      scopes := fun _ member => by cases member }

/-- A row is written if the scopes can be listed, whatever they are. -/
theorem Row.exists_ofClient_of_scopes {scopes : List Value}
    (h : Client.Storable { c with scopes := [] })
    (listed : Listing.ofMembers c.scopes = .ok scopes) : ∃ row, ofClient c = .ok row := by
  obtain ⟨row, written⟩ := exists_ofClient h
  obtain ⟨methods, grants, uris, _, hm, hg, hu, _, _⟩ := ofClient_eq_ok.mp written
  exact ⟨_, ofClient_eq_ok.mpr ⟨methods, grants, uris, scopes, hm, hg, hu, listed, rfl⟩⟩

theorem Row.scopes_listed {ys : List Value} (texts : ∀ v ∈ c.scopes, v = .null ∨ v.IsText)
    (once : c.scopes.Nodup) (listed : Listing.ofMembers c.scopes = .ok ys) :
    memberSet (.list ys) = .ok ys ∧ ys.Perm c.scopes := by
  by_cases null : .null ∈ c.scopes
  · obtain ⟨alone, rfl⟩ := Listing.ofMembers_of_null null listed
    rw [alone]
    exact ⟨rfl, .refl _⟩
  · exact members_listed
      (fun v member => (texts v member).resolve_left fun same => null (same ▸ member)) once listed

/-- A snapshot is taken exactly if null is not among the scopes, and a row is written exactly if it
is not or is the only one. Whatever is written is read back as the same client. -/
theorem Draft.Lenient.written_iff (h : d.Lenient) (built : d.build.result = .ok c) :
    ((∃ s, Snapshot.ofClient c = .ok s) ↔ .null ∉ d.scopes) ∧
    ((∃ row, Row.ofClient c = .ok row) ↔ .null ∉ d.scopes ∨ d.scopes = [.null]) ∧
    (∀ s, Snapshot.ofClient c = .ok s →
      ∃ c', s.toClient.result = .ok c' ∧ c.same c' = true) ∧
    ∀ row, Row.ofClient c = .ok row →
      ∃ c', row.toClient.result = .ok c' ∧ c.same c' = true := by
  obtain ⟨scopes, unscoped, typed⟩ := h.storable built
  have accepted := accepted_of_build built
  have once : c.scopes.Nodup := scopes ▸ h.once .scopes
  have lenient : ∀ v ∈ c.scopes, v = .null ∨ v.IsText := scopes ▸ h.scopes
  have readBack := fun row (written : Row.ofClient c = .ok row) =>
    Row.toClient_same_of_scopes unscoped accepted (fun _ => Row.scopes_listed lenient once) written
  rw [← scopes]
  by_cases null : .null ∈ c.scopes
  · have none : ∀ s, Snapshot.ofClient c ≠ .ok s :=
      fun s taken => Snapshot.null_notin_of_ofClient taken null
    refine ⟨?_, ⟨?_, ?_⟩, fun s taken => absurd taken (none s), readBack⟩
    · exact iff_of_false (fun ⟨s, taken⟩ => none s taken) (fun absent => absent null)
    · rintro ⟨row, written⟩
      obtain ⟨_, _, _, _, _, _, _, listed, _⟩ := Row.ofClient_eq_ok.mp written
      exact .inr (Listing.ofMembers_of_null null listed).1
    · intro alone
      have alone := alone.resolve_left fun absent => absent null
      have listed : Listing.ofMembers c.scopes = .ok [.null] := by
        rw [alone]
        rfl
      exact Row.exists_ofClient_of_scopes unscoped listed
  · have texts : ∀ v ∈ c.scopes, v.IsText := fun v member =>
      (lenient v member).resolve_left fun same => null (same ▸ member)
    have storable : c.Storable := { unscoped with accepted, scopes := texts, scopesOnce := once }
    obtain ⟨s, rfl, listed⟩ := Snapshot.exists_client storable { typed with scopes := texts }
    have taken := Snapshot.ofClient_client storable.clientSettings storable.tokenSettings
    refine ⟨iff_of_true ⟨_, taken⟩ null, iff_of_true ?_ (.inl null), fun s' taken' => ?_, readBack⟩
    · exact Row.exists_ofClient storable
    · cases taken.symm.trans taken'
      obtain ⟨c', restored, same, -⟩ := listed.restored
      exact ⟨c', restored, same⟩

/-- A draft with nothing but the required fields. -/
def bareDraft (scopes : List Value) : Draft :=
  { Draft.empty (.text "r") with
    clientId := .text "kiosk"
    grants := [.token .grantType (.text "client_credentials")]
    scopes }

theorem bareDraft_lenient {scopes : List Value} (lenient : ∀ v ∈ scopes, v = .null ∨ v.IsText)
    (once : scopes.Nodup) : (bareDraft scopes).Lenient where
  scalars field := by
    cases field with
    | id => exact ⟨_, rfl⟩
    | clientId => exact .inr ⟨_, rfl⟩
    | _ => exact .inl rfl
  methods := fun _ member => by cases member
  grants := List.forall_mem_singleton.mpr ⟨_, rfl, by decide⟩
  redirectUris := fun _ member => by cases member
  scopes := lenient
  once field := by
    cases field with
    | grants => exact List.nodup_singleton _
    | scopes => exact once
    | _ => exact List.nodup_nil
  clientSettings := fun _ given => by cases given
  tokenSettings := fun _ given => by cases given

/-- The client of such a draft. -/
def bareClient (scopes : List Value) : Client :=
  (bareDraft scopes).completed [] []

theorem bareDraft_build {scopes : List Value}
    (valid : ∀ v ∈ scopes, Validation.scopeOk v = .ok true) :
    (bareDraft scopes).build.result = .ok (bareClient scopes) := by
  refine Draft.build_eq_ok.mpr ⟨.bag .client [], .bag .token [], rfl, rfl, rfl, ?_⟩
  exact {
    id := rfl
    clientId := rfl
    name := rfl
    grants := List.cons_ne_nil _ _
    methods := List.cons_ne_nil _ _
    redirects := fun member => by
      simp [bareClient, bareDraft, Draft.completed, authorizationCode, Value.memberOf, Value.same,
        Value.sameLeaf] at member
    scopes := valid
    redirectUris := fun _ member => by cases member }

theorem null_scope_written : (bareDraft [.null]).Lenient ∧
    (bareDraft [.null]).build.result = .ok (bareClient [.null]) ∧
    ∃ row c, Row.ofClient (bareClient [.null]) = .ok row ∧ row.toClient.result = .ok c ∧
      (bareClient [.null]).same c = true := by
  have lenient : (bareDraft [.null]).Lenient :=
    bareDraft_lenient (List.forall_mem_singleton.mpr (.inl rfl)) (List.nodup_singleton _)
  have built : (bareDraft [.null]).build.result = .ok (bareClient [.null]) :=
    bareDraft_build (List.forall_mem_singleton.mpr rfl)
  obtain ⟨-, row_iff, -, readBack⟩ := lenient.written_iff built
  obtain ⟨row, written⟩ := row_iff.mpr (.inr rfl)
  obtain ⟨c, restored, same⟩ := readBack row written
  exact ⟨lenient, built, row, c, written, restored, same⟩

/-- Null next to a text passes the check of scopes, and yet neither form can be written. -/
theorem null_beside_text_not_written :
    (bareDraft [.null, .text "openid"]).Lenient ∧
    (bareDraft [.null, .text "openid"]).build.result = .ok (bareClient [.null, .text "openid"]) ∧
    Snapshot.ofClient (bareClient [.null, .text "openid"]) = .error .badType ∧
    Row.ofClient (bareClient [.null, .text "openid"]) = .error .badType := by
  have valid : Scope.isAdmissible "openid".toList = true := by decide +kernel
  refine ⟨bareDraft_lenient ?_ ?_, bareDraft_build ?_, rfl, rfl⟩
  · exact List.forall_mem_cons.mpr ⟨.inl rfl, List.forall_mem_singleton.mpr (.inr ⟨_, rfl⟩)⟩
  · exact List.nodup_cons.mpr ⟨fun member => by simp at member, List.nodup_singleton _⟩
  · exact List.forall_mem_cons.mpr ⟨rfl, List.forall_mem_singleton.mpr (congrArg _ valid)⟩

end ClientRegistry
