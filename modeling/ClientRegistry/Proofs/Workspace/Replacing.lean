import ClientRegistry.Proofs.Client.Loading
import ClientRegistry.Proofs.Store.Reading
import ClientRegistry.Proofs.Workspace.Answers
import ClientRegistry.Proofs.Workspace.Moves

/-! Clients with some fields replaced. The fields that come of it go through the checks of a new
client, so a replacement succeeds exactly if a draft that is loaded with them is built. -/

namespace ClientRegistry

namespace Fields

variable {name : String}

/-- A field is what it is changed to, or what it was. -/
theorem get_withAll? (get : Fields → Value)
    (own : ∀ f v f', with? f name v = some f' → get f' = v)
    (others : ∀ f n v f', n ≠ name → with? f n v = some f' → get f' = get f)
    {changes : List (String × Value)} (distinct : (changes.map (·.1)).Nodup) {f f' : Fields}
    (changed : f.withAll? changes = some f') :
    get f' = ((changes.find? fun c => c.1 == name).map (·.2)).getD (get f) := by
  induction changes generalizing f with
  | nil =>
      cases changed
      rfl
  | cons c rest ih =>
      obtain ⟨n, v⟩ := c
      rw [List.map_cons, List.nodup_cons] at distinct
      simp only [withAll?, List.foldlM_cons, Option.bind_eq_bind, Option.bind_eq_some_iff] at changed
      obtain ⟨f₁, first, changed⟩ := changed
      have later := ih distinct.2 changed
      by_cases same : n = name
      · subst same
        have absent : rest.find? (fun c => c.1 == n) = none := by
          refine List.find?_eq_none.mpr fun c member equal => distinct.1 ?_
          exact List.mem_map.mpr ⟨c, member, eq_of_beq equal⟩
        rw [absent] at later
        simp only [List.find?_cons, beq_self_eq_true]
        exact later.trans (own f v f₁ first)
      · have other : (n == name) = false := by simpa using same
        simp only [List.find?_cons, other]
        rw [later, others f n v f₁ same first]

theorem clientSettings_withAll? {changes : List (String × Value)}
    (distinct : (changes.map (·.1)).Nodup) {f f' : Fields}
    (changed : f.withAll? changes = some f') : f'.clientSettings =
      ((changes.find? fun c => c.1 == "client_settings").map (·.2)).getD f.clientSettings := by
  refine get_withAll? Fields.clientSettings ?_ ?_ distinct changed
  · intro f v f' assigned
    cases assigned
    rfl
  · intro f n v f' other assigned
    unfold with? at assigned
    split at assigned <;> cases assigned <;> first | rfl | exact absurd rfl other

theorem tokenSettings_withAll? {changes : List (String × Value)}
    (distinct : (changes.map (·.1)).Nodup) {f f' : Fields}
    (changed : f.withAll? changes = some f') : f'.tokenSettings =
      ((changes.find? fun c => c.1 == "token_settings").map (·.2)).getD f.tokenSettings := by
  refine get_withAll? Fields.tokenSettings ?_ ?_ distinct changed
  · intro f v f' assigned
    cases assigned
    rfl
  · intro f n v f' other assigned
    unfold with? at assigned
    split at assigned <;> cases assigned <;> first | rfl | exact absurd rfl other

end Fields

namespace Workspace

variable {w w' : Workspace} {on : String} {base : HeldClient} {given : HeldFields}
  {changes : List (String × Operand)} {f : Fields} {a b : Address}

/-- A value of a name among held fields is what is held under the name. -/
theorem current_find? (s : Store) (fields : HeldFields) (name : String) :
    ((fields.current s).find? fun f => f.1 == name).map (·.2) =
      (fields.field? name).map s.read := by
  induction fields with
  | nil => rfl
  | cons f rest ih =>
      simp only [HeldFields.current, HeldFields.field?, List.map_cons, List.find?_cons] at ih ⊢
      cases f.1 == name with
      | true => rfl
      | false => exact ih

/-- A client is made, and shown, if its constructor accepts the fields, and not otherwise. -/
theorem makeClient_display (w : Workspace) (f : Fields) (a b : Address) :
    (w.makeClient f (some a) (some b)).display = (Client.make f).result.map fun c =>
      .shown (.client (HeldClient.current w.store ⟨c, a, b⟩)) := by
  simp only [makeClient]
  cases made : (Client.make f).result with
  | error e => rfl
  | ok c =>
      have found : (w.insert (.client ⟨c, a, b⟩)).1.object? (w.insert (.client ⟨c, a, b⟩)).2 =
          .ok (.client ⟨c, a, b⟩) := by
        simp only [insert, object?, List.getElem?_concat_length]
      simp only [Turn.ofObject, found]
      rfl

/-- The bags of a replacement, where bags are given: what is replaced is given as a bag, and what is
not is kept. -/
theorem replaceFields_eq (named : w.named? on = .ok (.client base))
    (held : w.heldNamed changes = .ok (w', given))
    (changed : (base.current w'.store).fields.withAll? (given.current w'.store) = some f) :
    w.replaceFields on changes =
      w'.makeClient f (some ((bagCell? given "client_settings").getD base.clientSettings))
        (some ((bagCell? given "token_settings").getD base.tokenSettings)) := by
  obtain ⟨h, found, present⟩ := handle_of_named named
  rw [replaceFields, onClient, onObject_of_handle found present]
  simp only [held, after, changed]

/-- Nothing is given under the name, or a bag is. -/
def HeldFields.BagAt (fields : HeldFields) (name : String) : Prop :=
  fields.field? name = none ∨ ∃ kind a, fields.field? name = some (.bag kind a)

/-- The bag that is given under a name, or that is kept, has the options of the field. -/
theorem optionsAt_bagCell? {s : Store} (ranked : s.Ranked) {name : String} {kind kind' : BagKind}
    {options : Options} (inside : ∀ f ∈ given, ∀ c, f.2.address? = some c → c < s.length)
    (bag : given.BagAt name)
    (field : (((given.current s).find? fun f => f.1 == name).map (·.2)).getD
      (.bag kind (s.optionsAt a)) = .bag kind' options) :
    s.optionsAt ((bagCell? given name).getD a) = options := by
  rw [current_find?] at field
  rcases bag with none | ⟨k, b, some⟩
  · rw [none] at field
    rw [bagCell?, none]
    exact (Value.bag.inj field).2
  · have there : b < s.length := by
      obtain ⟨f, listed, held⟩ := Option.map_eq_some_iff.mp some
      exact inside f (List.mem_of_find?_eq_some listed) b (held ▸ rfl)
    rw [some, Option.map_some, Option.getD_some, ranked.read_bag there] at field
    rw [bagCell?, some]
    exact (Value.bag.inj field).2

theorem heldNamed_names (held : w.heldNamed changes = .ok (w', given)) :
    given.map (·.1) = changes.map (·.1) := by
  induction changes generalizing w given with
  | nil =>
      cases held
      rfl
  | cons x rest ih =>
      obtain ⟨⟨w₁, y⟩, first, held⟩ := except_bind_eq_ok.mp held
      obtain ⟨⟨w₂, ys⟩, others, held⟩ := except_bind_eq_ok.mp held
      cases held
      exact congrArg (x.1 :: ·) (ih others)

/-- A replacement with accepted fields shows the client of these fields. -/
theorem replaceFields_display {c : Client} (grounded : w.holding.Grounded)
    (named : w.named? on = .ok (.client base)) (held : w.heldNamed changes = .ok (w', given))
    (changed : (base.current w'.store).fields.withAll? (given.current w'.store) = some c.fields)
    (distinct : (changes.map (·.1)).Nodup) (clientBag : given.BagAt "client_settings")
    (tokenBag : given.BagAt "token_settings") (accepted : c.Accepted) :
    (w.replaceFields on changes).display = .ok (.shown (.client c)) := by
  obtain ⟨τ, -, backed, holds⟩ : ∃ τ, Holding.Leads .all w.holding τ ∧ w.Backed w' τ ∧ _ :=
    (Backed.start grounded).ofHeldNamed held
  have ranked : w'.store.Ranked := backed.store ▸ backed.grounded.ranked
  have inside : ∀ f ∈ given, ∀ b, f.2.address? = some b → b < w'.store.length := by
    intro f member b at'
    exact backed.store ▸ (backed.grounded.holds (holds f member) at').1
  have names : ((given.current w'.store).map (·.1)).Nodup := by
    have same : (given.current w'.store).map (·.1) = changes.map (·.1) := by
      rw [← heldNamed_names held]
      simp [HeldFields.current, Function.comp_def]
    rwa [same]
  have client := optionsAt_bagCell? ranked inside clientBag
    (Fields.clientSettings_withAll? names changed).symm
  have token := optionsAt_bagCell? ranked inside tokenBag
    (Fields.tokenSettings_withAll? names changed).symm
  rw [replaceFields_eq named held changed, makeClient_display,
    (Client.make_fields (c := c)).mpr ⟨rfl, accepted⟩]
  simp only [HeldClient.current, Except.map]
  rw [client, token]

end Workspace

open Workspace

/-- The constructor of a client accepts fields of the right types exactly if there is an id, a name
and a method and a draft that is loaded with these fields is built; then both make the same client.
The clients that there are are those that are built of the drafts loaded with them. A replacement
that yields such fields succeeds under the same condition, and what the checks of a build let
through is never refused by the constructor. -/
theorem Client.make_agrees_with_build :
    (∀ c : Client, c.Typed → c.Distinct →
      ((∃ c', (make c.fields).result = .ok c') ↔ c.Loads) ∧
        (∀ c' c'' d, (make c.fields).result = .ok c' → c.load = .ok d →
          d.build.result = .ok c'' → c' = c'' ∧ c'.same c'' = true) ∧
        ((∃ f, (make f).result = .ok c) ↔ ∃ d, c.load = .ok d ∧ d.build.result = .ok c) ∧
        (∀ steps, c ∈ (Workspace.empty.reached steps).clients →
          ∃ d, c.load = .ok d ∧ d.build.result = .ok c) ∧
        ∀ (w w' : Workspace) (on : String) (base : HeldClient) (given : HeldFields)
          (changes : List (String × Operand)), w.holding.Grounded →
          w.named? on = .ok (.client base) → w.heldNamed changes = .ok (w', given) →
          (base.current w'.store).fields.withAll? (given.current w'.store) = some c.fields →
          ((∃ shown, (w.perform (.replace on changes)).display = .ok shown) ↔ c.Loads) ∧
            ((changes.map (·.1)).Nodup → given.BagAt "client_settings" →
              given.BagAt "token_settings" → c.Loads →
              (w.perform (.replace on changes)).display = .ok (.shown (.client c)))) ∧
      ∀ d : Draft, d.Typed → d.missingField? = none →
        (Validation.scopes d.scopes).result = .ok () →
        (Validation.redirectUris d.redirectUris).result = .ok () →
        ∃ clientSettings tokenSettings,
          Draft.copySettings .client d.clientSettings = .ok clientSettings ∧
          Draft.copySettings .token d.tokenSettings = .ok tokenSettings ∧
          make (d.complete clientSettings tokenSettings) = .ok d.client := by
  refine ⟨fun c typed distinct => ?_, fun d typed => typed.make_complete⟩
  have loads := accepted_iff_loads typed distinct
  have accepts : (∃ c', (make c.fields).result = .ok c') ↔ c.Accepted := by
    simp only [make_fields, exists_eq_left]
  refine ⟨accepts.trans loads, ?_, ?_, ?_, ?_⟩
  · intro c' c'' d made loaded built
    obtain ⟨rfl, accepted⟩ := make_fields.mp made
    rw [load_eq typed distinct accepted.id] at loaded
    cases loaded
    obtain rfl := eq_of_build accepted.name accepted.methods built
    exact ⟨rfl, same_self _⟩
  · exact exists_make_iff.trans (accepted_iff_fixed typed distinct)
  · intro steps member
    have consistent := (reached_sound empty_sound steps).clients member typed
    exact (accepted_iff_fixed typed distinct).mp (typed.accepted consistent)
  · intro w w' on base given changes grounded named held changed
    refine ⟨?_, fun names clientBag tokenBag loaded => ?_⟩
    · rw [perform, replaceFields_eq named held changed, makeClient_display, ← loads, ← accepts]
      cases made : (make c.fields).result with
      | error e => simp [Except.map]
      | ok c' => simp [Except.map]
    · exact replaceFields_display grounded named held changed names clientBag tokenBag
        (loads.mpr loaded)

/-- The client of a journey with another name. -/
def renamed : Client :=
  ⟨.text "r", .text "web", .null, .null, .null, .text "Web", [clientSecretBasic],
    [authorizationCode], [.text "https://c.example/cb"], [.text "openid"], [], []⟩

theorem renamed_distinct : renamed.Distinct := by
  constructor <;> exact List.nodup_singleton _

theorem renamed_make_agrees : renamed.Typed ∧ renamed.Distinct ∧
    ((∃ c', (Client.make renamed.fields).result = .ok c') ↔ renamed.Loads) ∧
    ((Workspace.empty.reached (journey.take 6)).perform
      (.replace "built" [("client_name", .given (.text "Web"))])).display =
        .ok (.shown (.client renamed)) := by
  have typed : renamed.Typed := by decide +kernel
  obtain ⟨accepts, -, -, -, replaces⟩ := Client.make_agrees_with_build.1 renamed typed renamed_distinct
  refine ⟨typed, renamed_distinct, accepts, ?_⟩
  have loads : renamed.Loads := accepts.mp ⟨renamed, by with_unfolding_all rfl⟩
  refine (replaces (Workspace.empty.reached (journey.take 6)) _ "built" _ _ _
    (reached_grounded empty_grounded _) (by with_unfolding_all rfl) (by with_unfolding_all rfl)
    (by with_unfolding_all rfl)).2 ?_ ?_ ?_ loads
  · exact List.nodup_singleton _
  · exact .inl rfl
  · exact .inl rfl

end ClientRegistry
