import ClientRegistry.Proofs.Workspace.Moves
import ClientRegistry.Proofs.Workspace.Reachable
import ClientRegistry.Proofs.Workspace.Veiling

/-! The secret of a client has no part in what is logged, refused or printed. Two programs that
differ only in the secrets that they give have the same logs and the same faults, and what they make
prints the same. -/

namespace ClientRegistry

/-- The records print the same, and so do their bags and their snapshots, which are made of both or
refused for the same reason. -/
structure Client.PrintsAs (c c' : Client) : Prop where
  record : c'.printed = c.printed
  clientSettings : (Value.bag .client c'.clientSettings).printed =
    (Value.bag .client c.clientSettings).printed
  tokenSettings : (Value.bag .token c'.tokenSettings).printed =
    (Value.bag .token c.tokenSettings).printed
  snapshot : (Snapshot.ofClient c').map Snapshot.printed = (Snapshot.ofClient c).map Snapshot.printed

theorem Client.Masks.printsAs {c c' : Client} (h : c.Masks c') : c.PrintsAs c' := by
  have snapshots := Snapshot.ofClient_masks h
  obtain ⟨v, -, rfl⟩ := h
  refine ⟨Client.printed_withSecret c v, rfl, rfl, ?_⟩
  generalize Snapshot.ofClient c = x at snapshots ⊢
  generalize Snapshot.ofClient (c.withSecret v) = y at snapshots ⊢
  cases snapshots with
  | ok masks => exact congrArg Except.ok masks.printed
  | error e => rfl

namespace Workspace

variable {hidden : Address → Prop} {w w' : Workspace} {t t' : Turn}

/-- The printed form of an object, with the members of its sets in the order that they are in. -/
def printedInOrder (w : Workspace) : Object → Option (List Char)
  | .value x => some (w.store.read x).printed
  | .client c => some (c.current w.store).printed
  | .snapshot fields => some (Snapshot.printedNamed (fields.current w.store))
  | _ => none

/-- The steps on drafts, bags, clients, snapshots and registries, and those that supply them with
values. No step compares clients or writes down their fields, and none edits the secret of a
snapshot. -/
def Action.discreet : Action → Bool
  | .withId _ => true
  | .fromClient _ => true
  | .assign _ _ _ => true
  | .add _ _ _ => true
  | .edit _ _ _ => true
  | .build _ => true
  | .look _ => true
  | .construct _ => true
  | .replace _ _ => true
  | .print _ => true
  | .bag _ _ => true
  | .bagDraft _ => true
  | .withSettings _ _ => true
  | .setting _ _ _ => true
  | .settings _ _ => true
  | .getSetting _ _ _ => true
  | .toDict _ => true
  | .view _ => true
  | .takeView _ => true
  | .viewEdit _ _ => true
  | .clientBag _ _ => true
  | .value _ => true
  | .mutate _ _ _ => true
  | .snapshot _ => true
  | .toClient _ => true
  | .mutateField _ field _ _ => field != "client_secret"
  | .registry _ => true
  | .save _ _ => true
  | .findById _ _ => true
  | .findByClientId _ _ => true
  | .token _ _ => true
  | _ => false

/-- The second action is the first, or it gives another secret for a client. -/
inductive Action.Varies : Action → Action → Prop where
  | same {action : Action} (discreet : action.discreet = true) : Varies action action
  | assign (on : String) {value value' : Operand} (secrets : value.Secrets value') :
      Varies (.assign on .secret value) (.assign on .secret value')
  | construct {fields fields' : List (String × Operand)}
      (varies : List.Forall₂ VariesField fields fields') :
      Varies (.construct fields) (.construct fields')
  | replace (on : String) {changes changes' : List (String × Operand)}
      (varies : List.Forall₂ VariesField changes changes') :
      Varies (.replace on changes) (.replace on changes')

def Step.Varies (step step' : Step) : Prop :=
  step.action.Varies step'.action ∧ step'.name = step.name

namespace Alike

theorem perform_same (h : w.Alike hidden w') (ranked : w.store.Ranked) {action : Action}
    (discreet : action.discreet = true) : (w.perform action).Alike (w'.perform action) := by
  have same : ∀ given : List (String × Operand), List.Forall₂ VariesField given given :=
    fun given => List.forall₂_same.mpr fun f _ => ⟨rfl, .inl rfl⟩
  cases action with
  | withId id => exact h.withId ranked id
  | fromClient client => exact h.fromClient ranked client
  | assign on field value => exact h.assign ranked on (.inl rfl)
  | add on field value => exact h.add ranked on field value
  | edit on field edits => exact h.editMembers ranked on field edits
  | build on => exact h.build ranked on
  | look on => exact h.onObject fun i _ _ _ => h.ofObject i []
  | construct fields => exact h.construct ranked (same fields)
  | replace on changes => exact h.replaceFields ranked on (same changes)
  | print on => exact h.print on
  | bag kind mapping => exact h.bag ranked kind mapping
  | bagDraft kind => exact h.bagDraft kind
  | withSettings kind mapping => exact h.withSettings ranked kind mapping
  | setting on name value => exact h.setting ranked on name value
  | settings on edits => exact h.settings ranked on edits
  | getSetting on name default => exact h.getSetting ranked on name default
  | toDict on => exact h.toDict ranked on
  | view on => exact h.viewEdit on []
  | takeView on => exact h.takeView on
  | viewEdit on edits => exact h.viewEdit on edits
  | clientBag on kind => exact h.clientBag on kind
  | value v => exact h.plain ranked v
  | mutate on path edits => exact h.mutate ranked on path edits
  | snapshot on => exact h.snapshot ranked on
  | toClient on => exact h.toClient ranked on
  | mutateField on field path edits =>
      exact h.mutateField ranked on (bne_iff_ne.mp discreet) path edits
  | registry clients => exact h.registry clients
  | save on client => exact h.save on client
  | findById on key => exact h.findById ranked on key
  | findByClientId on key => exact h.findByClientId ranked on key
  | token kind name => exact h.token ranked kind name
  | _ => cases discreet

theorem perform (h : w.Alike hidden w') (ranked : w.store.Ranked) {action action' : Action}
    (varies : action.Varies action') : (w.perform action).Alike (w'.perform action') := by
  cases varies with
  | same discreet => exact h.perform_same ranked discreet
  | assign on secrets => exact h.assign ranked on (.inr ⟨rfl, secrets⟩)
  | construct varies => exact h.construct ranked varies
  | replace on varies => exact h.replaceFields ranked on varies

end Alike

theorem Turn.Alike.named (h : t.Alike t') (name : Option String) :
    ∃ hidden, (t.named name).Alike hidden (t'.named name) := by
  obtain ⟨⟨hidden, alike⟩, display, object, -⟩ := h
  refine ⟨hidden, ?_⟩
  simp only [Turn.named, object]
  generalize t.display = x at display ⊢
  generalize t'.display = y at display ⊢
  cases display with
  | error e => exact alike
  | ok _ =>
      cases t.object with
      | none => exact alike
      | some i =>
          cases name with
          | none => exact alike
          | some n => exact alike.bind n i

/-- Two runs from workspaces that differ in secrets only. -/
theorem Alike.run (h : w.Alike hidden w') (grounded : w.holding.Grounded)
    {steps steps' : List Step} (varies : List.Forall₂ Step.Varies steps steps') :
    (∃ hidden₁, (w.reached steps).Alike hidden₁ (w'.reached steps')) ∧
      List.Forall₂ (fun r r' => Except.Rel Display.Masks r.1 r'.1 ∧ r'.2 = r.2) (w.run steps)
        (w'.run steps') := by
  induction varies generalizing hidden w w' with
  | nil => exact ⟨⟨hidden, h⟩, .nil⟩
  | @cons step step' _ _ first _ ih =>
      have turn := h.perform grounded.ranked first.1
      obtain ⟨hidden₁, alike⟩ := turn.named step.name
      obtain ⟨reached, runs⟩ := ih alike (reached_grounded grounded [step])
      simp only [Workspace.reached, Workspace.run, first.2]
      exact ⟨reached, .cons ⟨turn.display, turn.log⟩ runs⟩

/-- All that is printed of the objects of the two workspaces is the same. -/
theorem Alike.printedInOrder_eq (h : w.Alike hidden w') :
    w'.objects.map w'.printedInOrder = w.objects.map w.printedInOrder := by
  have printed : ∀ o o', Object.Alike hidden w.store o o' →
      w'.printedInOrder o' = w.printedInOrder o := by
    intro o o' alike
    cases alike with
    | value clear => rw [printedInOrder, printedInOrder, h.store.read clear]
    | client masks client token =>
        exact congrArg some (HeldClient.current_masks h.store masks client token).printed
    | snapshot names veiled =>
        exact congrArg some
          (Snapshot.printedNamed_masks (HeldFields.current_masks h.store veiled))
    | _ => rfl
  have objects := h.objects
  generalize w.objects = os at objects ⊢
  generalize w'.objects = os' at objects ⊢
  induction objects with
  | nil => rfl
  | cons alike _ ih => rw [List.map_cons, List.map_cons, printed _ _ alike, ih]

theorem Alike.clients (h : w.Alike hidden w') : List.Forall₂ Client.Masks w.clients w'.clients := by
  refine List.rel_filterMap (R := Object.Alike hidden w.store) ?_ h.objects
  intro o o' alike
  cases alike with
  | client masks client token =>
      exact .some (HeldClient.current_masks h.store masks client token)
  | _ => exact .none

/-- Two programs that differ only in the secrets that they give for clients, each a text or nothing,
emit the same log records step by step. Each step fails for the same reason in both, or it shows the
same but for the secret. The records that there are at the end print the same, and so do their bags
and their snapshots, and so does every value, record and snapshot that was made on the way. -/
theorem secrets_withheld {steps steps' : List Step} (varies : List.Forall₂ Step.Varies steps steps') :
    (empty.run steps').map (·.2) = (empty.run steps).map (·.2) ∧
      List.Forall₂ (Except.Rel Display.Masks) ((empty.run steps).map (·.1))
        ((empty.run steps').map (·.1)) ∧
      List.Forall₂ Client.PrintsAs (empty.reached steps).clients (empty.reached steps').clients ∧
      (empty.reached steps').objects.map (empty.reached steps').printedInOrder =
        (empty.reached steps).objects.map (empty.reached steps).printedInOrder := by
  obtain ⟨⟨hidden, alike⟩, runs⟩ := Alike.empty.run empty_grounded varies
  refine ⟨?_, ?_, ?_, alike.printedInOrder_eq⟩
  · generalize empty.run steps = rs at runs ⊢
    generalize empty.run steps' = rs' at runs ⊢
    induction runs with
    | nil => rfl
    | cons first _ ih => rw [List.map_cons, List.map_cons, first.2, ih]
  · rw [List.forall₂_map_left_iff, List.forall₂_map_right_iff]
    exact runs.imp fun _ _ same => same.1
  · exact alike.clients.imp fun _ _ masks => masks.printsAs

/-- A draft and two clients are given a secret each, and everything is made of them that takes it
along. The first build is refused. -/
def confiding (a b c : Value) : List Step :=
  [⟨.withId (.given (.text "r")), some "draft"⟩,
    ⟨.assign "draft" .secret (.given a), none⟩,
    ⟨.build "draft", none⟩,
    ⟨.assign "draft" .clientId (.given (.text "web")), none⟩,
    ⟨.add "draft" .grants (.given authorizationCode), none⟩,
    ⟨.add "draft" .redirectUris (.given (.text "https://c.example/cb")), none⟩,
    ⟨.build "draft", some "built"⟩,
    ⟨.replace "built" [("client_name", .given (.text "Web")), ("client_secret", .given b)],
      some "changed"⟩,
    ⟨.snapshot "changed", some "snapshot"⟩,
    ⟨.toClient "snapshot", some "restored"⟩,
    ⟨.clientBag "restored" .client, some "options"⟩,
    ⟨.clientBag "restored" .token, some "lifetimes"⟩,
    ⟨.construct [("id", .given (.text "s")), ("client_id", .given (.text "web")),
      ("client_id_issued_at", .given .null), ("client_secret", .given c),
      ("client_secret_expires_at", .given .null), ("client_name", .given (.text "Other")),
      ("client_authentication_methods", .given (.frozen [clientSecretBasic])),
      ("authorization_grant_types", .given (.frozen [authorizationCode])),
      ("redirect_uris", .given (.frozen [.text "https://c.example/cb"])),
      ("scopes", .given (.frozen [])), ("client_settings", .variable "options"),
      ("token_settings", .variable "lifetimes")], some "other"⟩,
    ⟨.registry ["built"], some "registry"⟩,
    ⟨.save "registry" "changed", none⟩,
    ⟨.save "registry" "other", none⟩,
    ⟨.findById "registry" (.given (.text "r")), none⟩,
    ⟨.print "restored", none⟩]

theorem confiding_varies {a a' b b' c c' : Value} (first : a.IsSecret) (first' : a'.IsSecret)
    (second : b.IsSecret) (second' : b'.IsSecret) (third : c.IsSecret) (third' : c'.IsSecret) :
    List.Forall₂ Step.Varies (confiding a b c) (confiding a' b' c') := by
  have same : ∀ f : String × Operand, VariesField f f := fun f => ⟨rfl, .inl rfl⟩
  have secrets : ∀ {v v' : Value}, v.IsSecret → v'.IsSecret →
      VariesField ("client_secret", .given v) ("client_secret", .given v') :=
    fun secret secret' => ⟨rfl, .inr ⟨rfl, _, _, secret, secret', rfl, rfl⟩⟩
  have rest : ∀ given : List (String × Operand), List.Forall₂ VariesField given given :=
    fun given => List.forall₂_same.mpr fun f _ => same f
  have kept : ∀ step : Step, step.action.discreet = true → step.Varies step :=
    fun step discreet => ⟨.same discreet, rfl⟩
  refine .cons (kept _ rfl) <| .cons ⟨.assign _ ⟨a, a', first, first', rfl, rfl⟩, rfl⟩ <|
    .cons (kept _ rfl) <| .cons (kept _ rfl) <| .cons (kept _ rfl) <| .cons (kept _ rfl) <|
    .cons (kept _ rfl) <| .cons ⟨.replace _ ?_, rfl⟩ <| .cons (kept _ rfl) <| .cons (kept _ rfl) <|
    .cons (kept _ rfl) <| .cons (kept _ rfl) <| .cons ⟨.construct ?_, rfl⟩ ?_
  · exact .cons (same _) (.cons (secrets second second') .nil)
  · exact .cons (same _) (.cons (same _) (.cons (same _) (.cons (secrets third third') (rest _))))
  · exact .cons (kept _ rfl) <| .cons (kept _ rfl) <| .cons (kept _ rfl) <| .cons (kept _ rfl) <|
      .cons (kept _ rfl) .nil

theorem confiding_secrets_withheld :
    let steps := confiding (.text "hunter2") (.text "swordfish") .null
    let steps' := confiding .null .null (.text "sesame")
    List.Forall₂ Step.Varies steps steps' ∧
      ((empty.reached steps).clients.map fun c => c.secret.truthy) = [true, true, true, false] ∧
      ((empty.reached steps').clients.map fun c => c.secret.truthy) = [false, false, false, true] ∧
      ((empty.run steps).map fun r => r.2.length) =
        [0, 0, 1, 0, 0, 0, 1, 0, 0, 1, 0, 0, 0, 1, 1, 1, 0, 0] ∧
      (empty.run steps').map (·.2) = (empty.run steps).map (·.2) ∧
      List.Forall₂ Client.PrintsAs (empty.reached steps).clients (empty.reached steps').clients := by
  intro steps steps'
  have varies : List.Forall₂ Step.Varies steps steps' :=
    confiding_varies trivial trivial trivial trivial trivial trivial
  obtain ⟨logs, -, printed, -⟩ := secrets_withheld varies
  exact ⟨varies, by decide +kernel, by decide +kernel, by decide +kernel, logs, printed⟩

end Workspace

end ClientRegistry
