import ClientRegistry.Proofs.Client.Loading
import ClientRegistry.Proofs.Workspace.Building
import ClientRegistry.Proofs.Workspace.Reachable
import ClientRegistry.Proofs.Workspace.Revising

/-! Deriving a client from another one, step by step: a draft is made of the client, the draft is
edited, and a client is built of it. The draft holds copies of the client's settings, so nothing of
this reaches the client, and what was not edited is built as the client has it. -/

namespace ClientRegistry

/-- A held value that a build takes over as it is: settings are a bag of the field's own kind, and
what could be defaulted is given. -/
def Field.Held : Field → Shared → Prop
  | .scalar .clientSettings, x => ∃ a, x = .bag .client a
  | .scalar .tokenSettings, x => ∃ a, x = .bag .token a
  | field, x => ∃ v, x = .leaf v ∧ field.Given v

theorem Field.Held.given {s : Store} {field : Field} {x : Shared} (ranked : s.Ranked)
    (inside : ∀ a, x.address? = some a → a < s.length) (h : field.Held x) :
    field.Given (s.read x) := by
  have settings : ∀ kind a, x = .bag kind a → s.read x ≠ .null := by
    rintro kind a rfl null
    rw [ranked.read_bag (inside a rfl)] at null
    cases null
  have own : (∃ v, x = .leaf v ∧ field.Given v) → field.Given (s.read x) := by
    rintro ⟨v, rfl, given⟩
    rwa [Store.read, Store.readWithin_leaf]
  cases field with
  | scalar field =>
      cases field with
      | clientSettings => exact h.elim fun a => settings _ a
      | tokenSettings => exact h.elim fun a => settings _ a
      | _ => exact own h
  | set field => exact own h

namespace Workspace

variable {w w' : Workspace} {on name : String} {d : HeldDraft} {c : HeldClient} {field : Field}
  {h : Handle}

theorem part_lt (grounded : w.holding.Grounded) (named : w.named? on = .ok (.draft d))
    (field : Field) : ∀ a, (d.part field).address? = some a → a < w.store.length := by
  obtain ⟨inside, inside'⟩ := parts_of_draft grounded named
  intro a at'
  cases field with
  | scalar field =>
      cases field with
      | clientSettings => exact inside a at'
      | tokenSettings => exact inside' a at'
      | _ => cases at'
  | set field => cases field <;> cases at'

/-- The client that is built has what the draft holds in a field. -/
theorem value_of_built (grounded : w.holding.Grounded) (named : w.named? on = .ok (.draft d))
    {made : Client} (built : (d.current w.store).build.result = .ok made)
    (held : field.Held (d.part field)) :
    (withBags w.store d.clientSettings d.tokenSettings made).value field =
      w.store.read (d.part field) := by
  have ranked : w.store.Ranked := grounded.ranked
  have inside := part_lt grounded named field
  have own : made.value field = w.store.read (d.part field) := by
    rw [HeldDraft.read_part]
    exact Draft.value_of_build built (HeldDraft.read_part _ d field ▸ held.given ranked inside)
  cases field with
  | scalar field =>
      cases field with
      | clientSettings =>
          obtain ⟨a, bag⟩ := held
          have bag' : d.clientSettings = .bag .client a := bag
          rw [bag, ranked.read_bag (inside a (bag ▸ rfl))]
          simp only [Client.value, withBags, bag', Store.bagOptions]
      | tokenSettings =>
          obtain ⟨a, bag⟩ := held
          have bag' : d.tokenSettings = .bag .token a := bag
          rw [bag, ranked.read_bag (inside a (bag ▸ rfl))]
          simp only [Client.value, withBags, bag', Store.bagOptions]
      | _ => exact own
  | set field => cases field <;> exact own

/-- A build of a draft shows a client, or fails. -/
theorem build_display (grounded : w.holding.Grounded) (named : w.named? on = .ok (.draft d))
    {shown : Display} (built : (w.build on).display = .ok shown) :
    ∃ made, shown = .shown (.client made) ∧
      ∀ field : Field, field.Held (d.part field) →
        made.value field = w.store.read (d.part field) := by
  cases result : (d.current w.store).build.result with
  | error e =>
      rw [build_of_error named result] at built
      cases built
  | ok made =>
      rw [build_of_ok grounded named result] at built
      cases built
      exact ⟨_, rfl, fun field held => value_of_built grounded named result held⟩

/-- A draft of a client, with copies of its bags. -/
def draftOf (s : Store) (c : HeldClient) : Store × HeldDraft :=
  let (store, a, b) := s.copyBags (.bag .client c.clientSettings) (.bag .token c.tokenSettings)
  (store, ⟨Draft.ofClient (c.current s), .bag .client a, .bag .token b⟩)

/-- The draft holds each field as the client has it. -/
theorem draftOf_holds {s : Store} (ranked : s.Ranked) (inside : c.clientSettings < s.length)
    (inside' : c.tokenSettings < s.length) (accepted : (c.current s).Accepted) (field : Field) :
    field.Held ((draftOf s c).2.part field) ∧
      (draftOf s c).1.read ((draftOf s c).2.part field) = (c.current s).value field := by
  obtain ⟨ranked', ⟨there, client⟩, there', token⟩ :=
    Store.copyBags_optionsAt ranked (x := .bag .client c.clientSettings)
      (y := .bag .token c.tokenSettings) (fun a at' => Option.some.inj at' ▸ inside)
      fun a at' => Option.some.inj at' ▸ inside'
  have own : ∀ v, (draftOf s c).1.read (.leaf v) = v := Store.readWithin_leaf _ _
  have given := accepted.given field
  cases field with
  | scalar field =>
      cases field with
      | clientSettings => exact ⟨⟨_, rfl⟩, (ranked'.read_bag there _).trans (congrArg _ client)⟩
      | tokenSettings => exact ⟨⟨_, rfl⟩, (ranked'.read_bag there' _).trans (congrArg _ token)⟩
      | _ => exact ⟨⟨_, rfl, given⟩, own _⟩
  | set field => cases field <;> exact ⟨⟨_, rfl, given⟩, own _⟩

/-- The step that makes a draft of a client and gives it a name. -/
def Step.derive (name on : String) : Step := ⟨.fromClient (some name), some on⟩

/-- The draft that is derived is a new object, and has its name. -/
theorem reached_derive (named : w.named? name = .ok (.client c)) (on : String) :
    w.reached [.derive name on] =
      ({ w with store := (draftOf w.store c).1 }.insert (.draft (draftOf w.store c).2)).1.bind on
        w.objects.length := by
  obtain ⟨h, found, present⟩ := handle_of_named named
  have turn : w.perform (.fromClient (some name)) =
      .ofNew ({ w with store := (draftOf w.store c).1 }.insert (.draft (draftOf w.store c).2)) := by
    simp only [perform, fromClient, onClient, onObject_of_handle found present]
    rfl
  rw [Workspace.reached, Workspace.reached, Step.derive, turn]
  exact Turn.ofNew_insert_named _ _ on

theorem derive_extends (named : w.named? name = .ok (.client c)) (on : String) :
    w.Extends (w.reached [.derive name on]) := by
  let copied : Workspace := { w with store := (draftOf w.store c).1 }
  have first : w.Extends copied :=
    .of_store (Store.copyBags_extends w.store (.bag .client c.clientSettings)
      (.bag .token c.tokenSettings)) rfl
  have grown : w.Extends (copied.insert (.draft (draftOf w.store c).2)).1 := first.insert _
  rw [reached_derive named]
  exact ⟨grown.store, grown.objects⟩

/-- The name stands for a draft that holds the fields that are kept as the client has them. -/
def Derived (w : Workspace) (on : String) (kept : Field → Prop) (c : Client) : Prop :=
  ∃ d, w.named? on = .ok (.draft d) ∧ ∀ field, kept field →
    field.Held (d.part field) ∧ w.store.read (d.part field) = c.value field

theorem Derived.build {kept : Field → Prop} {made : Client} (h : w.Derived on kept made)
    (grounded : w.holding.Grounded) {shown : Display} (built : (w.build on).display = .ok shown) :
    ∃ c, shown = .shown (.client c) ∧ ∀ field, kept field → c.value field = made.value field := by
  obtain ⟨d, named, holds⟩ := h
  obtain ⟨c, shows, taken⟩ := build_display grounded named built
  refine ⟨c, shows, fun field keep => ?_⟩
  obtain ⟨held, same⟩ := holds field keep
  exact (taken field held).trans same

/-- The draft that is derived has all fields of the client. -/
theorem derived_of_client (grounded : w.holding.Grounded) (named : w.named? name = .ok (.client c))
    (accepted : (c.current w.store).Accepted) (on : String) (kept : Field → Prop) :
    (w.reached [.derive name on]).Derived on kept (c.current w.store) := by
  obtain ⟨h, -, present⟩ := handle_of_named named
  have parts := parts_lt grounded (List.mem_of_getElem? present)
  have inside := parts (.cell c.clientSettings) List.mem_cons_self _ rfl
  have inside' := parts (.cell c.tokenSettings) (List.mem_cons_of_mem _ List.mem_cons_self) _ rfl
  rw [reached_derive named]
  refine ⟨(draftOf w.store c).2, named_of_handle (h := w.objects.length) ?_ ?_,
    fun field _ => draftOf_holds grounded.ranked inside inside' accepted field⟩
  · simp [handle?, bind]
  · exact List.getElem?_concat_length

/-- An edited draft still has the fields that were not edited. -/
theorem Derived.edited {kept : Field → Prop} {made : Client} (h : w.Derived on kept made)
    (grounded : w.holding.Grounded) {edits : List Step}
    (edited : ∀ s ∈ edits, ∃ field, s.action.Edits on field ∧ ¬kept field) :
    (w.reached edits).Derived on kept made := by
  obtain ⟨d, named, holds⟩ := h
  obtain ⟨i, found, present⟩ := handle_of_named named
  obtain ⟨revised, found'⟩ := reached_revises found present edited
  obtain ⟨d', present', same⟩ := revised.draft d present
  refine ⟨d', named_of_handle found' present', fun field keep => ?_⟩
  obtain ⟨held, read⟩ := holds field keep
  have read' := revised.store.read grounded.ranked (part_lt grounded named field)
  rw [same field keep]
  exact ⟨held, read'.trans read⟩

/-- No client is reached by the edits of a draft. -/
theorem Derived.unaltered {kept : Field → Prop} {made : Client} (derived : w.Derived on kept made)
    (grounded : w.holding.Grounded) {edits : List Step}
    (edited : ∀ s ∈ edits, ∃ field, s.action.Edits on field ∧ ¬kept field)
    (present : w.objects[h]? = some (.client c)) : w.Unaltered (w.reached edits) h := by
  obtain ⟨d, named, -⟩ := derived
  obtain ⟨i, found, draft⟩ := handle_of_named named
  have other : h ≠ i := by
    rintro rfl
    cases draft.symm.trans present
  exact (reached_revises found draft edited).1.unaltered grounded other
    (List.getElem?_eq_some_iff.mp present).1

theorem Unaltered.trans {w'' : Workspace} (first : w.Unaltered w' h) (second : w'.Unaltered w'' h) :
    w.Unaltered w'' h := by
  obtain ⟨o, present, present', content⟩ := first
  obtain ⟨p, there, there', content'⟩ := second
  cases there.symm.trans present'
  exact ⟨o, present, there', content'.trans content⟩

theorem Unaltered.client (h' : w.Unaltered w' h) (present : w.objects[h]? = some (.client c)) :
    w'.objects[h]? = some (.client c) ∧ c.current w'.store = c.current w.store := by
  obtain ⟨o, there, there', content⟩ := h'
  cases there.symm.trans present
  exact ⟨there', Shown.client.inj content⟩

/-- Clients with the same content are equal and have the same hash. -/
theorem alike_of_current {i : Handle} {c' : HeldClient} (present : w.objects[h]? = some (.client c))
    (present' : w.objects[i]? = some (.client c')) (same : c'.current w.store = c.current w.store) :
    w.isEqual h i = true ∧ w.footprint i = w.footprint h := by
  simp only [isEqual, footprint, present, present', same]
  exact ⟨Client.same_self _, trivial⟩

/-- A draft that has all fields of a client is built to this client. -/
theorem Derived.build_whole {made : Client} (derived : w.Derived on (fun _ => True) made)
    (grounded : w.holding.Grounded) (accepted : made.Accepted) :
    (w.build on).display = .ok (.shown (.client made)) ∧
      (w.build on).object = some w.objects.length ∧ ∃ c : HeldClient,
        (w.build on).workspace.objects[w.objects.length]? = some (.client c) ∧
          c.current (w.build on).workspace.store = made := by
  obtain ⟨d, named, holds⟩ := derived
  obtain ⟨inside, inside'⟩ := parts_of_draft grounded named
  have current : d.current w.store = Draft.ofClient made := by
    refine Draft.eq_of_value fun field => ?_
    rw [← HeldDraft.read_part, (holds field trivial).2, Draft.value_ofClient]
  have built : (d.current w.store).build.result = .ok made :=
    current ▸ Draft.build_ofClient accepted
  have same : withBags w.store d.clientSettings d.tokenSettings made = made := by
    refine Client.eq_of_value fun field => ?_
    obtain ⟨held, read⟩ := holds field trivial
    exact (value_of_built grounded named built held).trans read
  obtain ⟨c, present, shows⟩ := insertBuilt_object grounded.ranked inside inside' made
  rw [build_of_ok grounded named built]
  exact ⟨congrArg (fun c => Except.ok (Display.shown (.client c))) same, rfl, c, present,
    shows.trans same⟩

theorem Derived.extends_build {kept : Field → Prop} {made : Client}
    (derived : w.Derived on kept made) : w.Extends (w.build on).workspace := by
  obtain ⟨d, named, -⟩ := derived
  exact (build_extends named).1

/-- Where a client is derived from another one, and edited between, the first is as it was, and what
is built agrees with it in all fields that were not edited. -/
theorem derive_edits (grounded : w.holding.Grounded) (found : w.handle? name = .ok h)
    (present : w.objects[h]? = some (.client c)) (accepted : (c.current w.store).Accepted)
    {edits : List Step} (edited : ∀ s ∈ edits, ∃ field, s.action.Edits on field) :
    w.Unaltered (w.reached (.derive name on :: edits)) h ∧
      w.Unaltered ((w.reached (.derive name on :: edits)).build on).workspace h ∧
      ∀ shown, ((w.reached (.derive name on :: edits)).build on).display = .ok shown →
        ∃ derived, shown = .shown (.client derived) ∧
          ∀ field, (∀ s ∈ edits, ¬s.action.Edits on field) →
            derived.value field = (c.current w.store).value field := by
  let kept := fun field => ∀ s ∈ edits, ¬s.action.Edits on field
  have named := named_of_handle found present
  have edited' : ∀ s ∈ edits, ∃ field, s.action.Edits on field ∧ ¬kept field := by
    intro s member
    obtain ⟨field, edit⟩ := edited s member
    exact ⟨field, edit, fun keep => keep s member edit⟩
  have start := derived_of_client grounded named accepted on kept
  have grounded₁ := reached_grounded grounded [.derive name on]
  have derived : (w.reached (.derive name on :: edits)).Derived on kept (c.current w.store) :=
    start.edited grounded₁ edited'
  have grounded₂ := reached_grounded grounded (.derive name on :: edits)
  have inside := (List.getElem?_eq_some_iff.mp present).1
  have first := (derive_extends named on).unaltered grounded inside
  have second : w.Unaltered (w.reached (.derive name on :: edits)) h :=
    first.trans (start.unaltered grounded₁ edited' (first.client present).1)
  have inside₂ := (List.getElem?_eq_some_iff.mp (second.client present).1).1
  exact ⟨second, second.trans (derived.extends_build.unaltered grounded₂ inside₂),
    fun shown built => derived.build grounded₂ built⟩

/-- Where nothing is edited, a new client is built that is equal to the first and has its hash. -/
theorem derive_alone (grounded : w.holding.Grounded) (found : w.handle? name = .ok h)
    (present : w.objects[h]? = some (.client c)) (accepted : (c.current w.store).Accepted)
    (on : String) :
    ((w.reached [.derive name on]).build on).display = .ok (.shown (.client (c.current w.store))) ∧
      ∃ i, ((w.reached [.derive name on]).build on).object = some i ∧ i ≠ h ∧
        ((w.reached [.derive name on]).build on).workspace.isEqual h i = true ∧
        ((w.reached [.derive name on]).build on).workspace.footprint i =
          ((w.reached [.derive name on]).build on).workspace.footprint h := by
  have named := named_of_handle found present
  have derived := derived_of_client grounded named accepted on fun _ => True
  have grounded' := reached_grounded grounded [.derive name on]
  obtain ⟨display, object, c', present', current'⟩ := derived.build_whole grounded' accepted
  have unaltered : w.Unaltered ((w.reached [.derive name on]).build on).workspace h :=
    (derive_edits grounded found present accepted fun _ member => by cases member).2.1
  obtain ⟨there, current⟩ := unaltered.client present
  obtain ⟨equal, hash⟩ := alike_of_current there present' (current'.trans current.symm)
  have inside := (List.getElem?_eq_some_iff.mp present).1
  have grown := (derive_extends named on).unaltered grounded inside
  have inside' := (List.getElem?_eq_some_iff.mp (grown.client present).1).1
  exact ⟨display, _, object, Nat.ne_of_gt inside', equal, hash⟩

end Workspace

open Workspace

/-- Deriving a client from another one changes what is edited and nothing else. Whatever steps have
been taken, the clients with fields of the right types are clients that the constructor makes, and
of any such client the draft is built, after any calls, to one that agrees with it in the fields
that no call was about. So it is in a workspace: after any settings of its fields, additions to its
sets and bulk edits, failed ones among them, the first client is as it was, and stays so when the
draft is built; a build that succeeds shows a client that agrees with the first in every field that
no step edited, settings included. Without edits the build succeeds, with a client of its own that
has the content of the first, is equal to it and has the same hash. -/
theorem derived_keeps_unedited :
    (∀ steps, (empty.reached steps).holding.Grounded ∧
      ∀ c ∈ (empty.reached steps).clients, c.Typed → ∃ f, (Client.make f).result = .ok c) ∧
      (∀ (c c' : Client) (calls : List Draft.Call), (∃ f, (Client.make f).result = .ok c) →
        ((Draft.ofClient c).applyAll calls).build.result = .ok c' →
        ∀ field, (∀ call ∈ calls, call.field ≠ field) → c'.value field = c.value field) ∧
      ∀ (w : Workspace) (name on : String) (h : Handle) (c : HeldClient), w.holding.Grounded →
        w.handle? name = .ok h → w.objects[h]? = some (.client c) →
        (∃ f, (Client.make f).result = .ok (c.current w.store)) →
        (∀ edits : List Step, (∀ s ∈ edits, ∃ field, s.action.Edits on field) →
          let w' := w.reached (.derive name on :: edits)
          w.Unaltered w' h ∧ w.Unaltered (w'.perform (.build on)).workspace h ∧
            ∀ shown, (w'.perform (.build on)).display = .ok shown →
              ∃ derived, shown = .shown (.client derived) ∧
                ∀ field, (∀ s ∈ edits, ¬s.action.Edits on field) →
                  derived.value field = (c.current w.store).value field) ∧
          let t := (w.reached [.derive name on]).perform (.build on)
          t.display = .ok (.shown (.client (c.current w.store))) ∧
            ∃ i, t.object = some i ∧ i ≠ h ∧ t.workspace.isEqual h i = true ∧
              t.workspace.footprint i = t.workspace.footprint h := by
  refine ⟨fun steps => ⟨reached_grounded empty_grounded steps, fun c member typed => ?_⟩, ?_, ?_⟩
  · exact Client.exists_make_iff.mpr
      (typed.accepted ((reached_sound empty_sound steps).clients member typed))
  · intro c c' calls made built field others
    exact Draft.value_of_derived (Client.exists_make_iff.mp made) built others
  · intro w name on h c grounded found present made
    have accepted := Client.exists_make_iff.mp made
    exact ⟨fun edits edited => derive_edits grounded found present accepted edited,
      derive_alone grounded found present accepted on⟩

/-- Edits of a draft; the last one fails half way. -/
def retitling : List Step :=
  [⟨.assign "draft" .name (.given (.text "Kiosk")), none⟩,
    ⟨.add "draft" .scopes (.given (.text "email")), none⟩,
    ⟨.edit "draft" .scopes [.call .discard [.text "openid"], .stop "enough"], none⟩]

theorem object_of_clientAt? {w : Workspace} {h : Handle} (found : (w.clientAt? h).isSome = true) :
    ∃ c, w.objects[h]? = some (.client c) := by
  obtain ⟨c, at'⟩ := Option.isSome_iff_exists.mp found
  simp only [clientAt?] at at'
  split at at' <;> cases at'
  exact ⟨c, ‹_›⟩

theorem journey_derived :
    ∃ c derived : Client, c ∈ (empty.reached journey).clients ∧
      (((empty.reached journey).reached (.derive "changed" "draft" :: retitling)).perform
        (.build "draft")).display = .ok (.shown (.client derived)) ∧
      (∀ field : Field, field ≠ .scalar .name → field ≠ .set .scopes →
        derived.value field = c.value field) ∧
      (empty.reached journey).Unaltered
        ((empty.reached journey).reached (.derive "changed" "draft" :: retitling)) 2 ∧
      (((empty.reached journey).reached [.derive "changed" "draft"]).perform
        (.build "draft")).display = .ok (.shown (.client c)) := by
  obtain ⟨routes, -, derives⟩ := derived_keeps_unedited
  obtain ⟨grounded, made⟩ := routes journey
  have typed : ∀ c ∈ (empty.reached journey).clients, c.Typed := by decide +kernel
  have third : ((empty.reached journey).clientAt? 2).isSome = true := by decide +kernel
  obtain ⟨c, present⟩ := object_of_clientAt? third
  have listed : c.current (empty.reached journey).store ∈ (empty.reached journey).clients :=
    List.mem_filterMap.mpr ⟨_, List.mem_of_getElem? present, rfl⟩
  obtain ⟨edits, alone⟩ := derives (empty.reached journey) "changed" "draft" 2 c grounded
    (except_eq_ok_of_toOption (by decide +kernel)) present (made _ listed (typed _ listed))
  have edited : ∀ s ∈ retitling, ∃ field, s.action.Edits "draft" field := by
    simp only [retitling, List.forall_mem_cons]
    exact ⟨⟨_, .assign _ _⟩, ⟨_, .add _ _⟩, ⟨_, .edit _ _⟩, fun _ member => by cases member⟩
  obtain ⟨unaltered, -, shows⟩ := edits retitling edited
  have succeeds : (((empty.reached journey).reached
      (.derive "changed" "draft" :: retitling)).perform
        (.build "draft")).display.toOption.isSome = true := by decide +kernel
  obtain ⟨shown, built⟩ := Option.isSome_iff_exists.mp succeeds
  obtain ⟨derived, rfl, kept⟩ := shows shown (except_eq_ok_of_toOption built)
  refine ⟨_, derived, listed, except_eq_ok_of_toOption built,
    fun field name scopes => kept field ?_, unaltered, alone.1⟩
  simp only [retitling, List.forall_mem_cons]
  refine ⟨fun edit => ?_, fun edit => ?_, fun edit => ?_, fun _ member => by cases member⟩
  · cases edit
    exact name rfl
  · cases edit
    exact scopes rfl
  · cases edit
    exact scopes rfl

end ClientRegistry
