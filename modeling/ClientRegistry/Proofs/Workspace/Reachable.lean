import ClientRegistry.Proofs.Workspace.Copies
import ClientRegistry.Proofs.Workspace.Steps

/-! What any program of steps can bring about. The clients of a workspace are consistent at every
point of every run, and so are the clients that its steps show. -/

namespace ClientRegistry.Workspace

variable {w : Workspace}

/-- The clients among the objects, as they are now. -/
def clients (w : Workspace) : List Client :=
  w.objects.filterMap fun o => match o with
    | .client c => some (c.current w.store)
    | _ => none

/-- The clients that a step shows, the answers of a unit of work included. -/
def Display.clients : Display → List Client
  | .shown (.client c) => [c]
  | .shown _ => []
  | .settled s => s.answers.filterMap fun answer => match answer with
    | .ok found => found
    | .error _ => none

/-- The workspace after the steps of a program. -/
def reached (w : Workspace) : List Step → Workspace
  | [] => w
  | step :: rest => ((w.perform step.action).named step.name).reached rest

theorem perform_sound (h : w.Sound) (action : Action) : (w.perform action).Sound := by
  cases action with
  | withId id => exact withId_sound h id
  | fromClient client => exact fromClient_sound h client
  | assign on field value => exact assign_sound h on field value
  | add on field value => exact add_sound h on field value
  | edit on field edits => exact editMembers_sound h on field edits
  | build on => exact build_sound h on
  | look on => exact onObject_sound h fun i _ _ => Turn.ofObject_sound h i []
  | construct fields => exact construct_sound h fields
  | replace on changes => exact replaceFields_sound h on changes
  | setAttribute on field value => exact setAttribute_sound h on field value
  | fieldCall on edits => exact fieldCall_sound h on edits
  | compare a b => exact compareObjects_sound h a b
  | compareDigests a b => exact compareDigests_sound h a b
  | distinct items => exact countDistinct_sound h items
  | print on => exact print_sound h on
  | pickle on => exact onObject_sound h fun _ _ ho => Turn.ofNew_sound (pickleOf_sound h ho)
  | deepCopy on => exact onObject_sound h fun i _ ho => Turn.ofNew_sound (deepCopyOf_sound h i ho)
  | bag kind mapping => exact bag_sound h kind mapping
  | bagDraft kind => exact bagDraft_sound h kind
  | withSettings kind mapping => exact withSettings_sound h kind mapping
  | setting on name value => exact setting_sound h on name value
  | settings on edits => exact settings_sound h on edits
  | getSetting on name default => exact getSetting_sound h on name default
  | toDict on => exact toDict_sound h on
  | view on => exact viewEdit_sound h on []
  | takeView on => exact takeView_sound h on
  | viewEdit on edits => exact viewEdit_sound h on edits
  | clientBag on kind => exact clientBag_sound h on kind
  | value v => exact plain_sound h v
  | mutate on path edits => exact mutate_sound h on path edits
  | snapshot on => exact snapshot_sound h on
  | snapshotOf fields => exact snapshotOf_sound h fields
  | readJson text => exact readJson_sound h text
  | readJsonBytes bytes => exact readJsonBytes_sound h bytes
  | writeJson on => exact writeJson_sound h on
  | toClient on => exact toClient_sound h on
  | mutateField on field path edits => exact mutateField_sound h on field path edits
  | registry clients => exact registry_sound h clients
  | save on client => exact save_sound h on client
  | findById on key => exact findById_sound h on key
  | findByClientId on key => exact findByClientId_sound h on key
  | row on => exact row_sound h on
  | rowOf columns => exact rowOf_sound h columns
  | rowToClient on => exact rowToClient_sound h on
  | database => exact Turn.ofNew_sound (h.insert (o := .database []) trivial)
  | work on configured lines => exact work_sound h on configured lines
  | token kind name => exact token_sound h kind name

theorem Turn.named_sound {t : Turn} (h : t.Sound) (name : Option String) :
    (t.named name).Sound := by
  simp only [Turn.named]
  split
  · exact h.workspace.of_objects (bind_objects _ _ _)
  · exact h.workspace

theorem reached_sound (h : w.Sound) (steps : List Step) : (w.reached steps).Sound := by
  induction steps generalizing w with
  | nil => exact h
  | cons step rest ih => exact ih (Turn.named_sound (perform_sound h step.action) step.name)

theorem run_sound (h : w.Sound) (steps : List Step) :
    ∀ r ∈ w.run steps, ∀ d, r.1 = .ok d → d.Sound := by
  induction steps generalizing w with
  | nil =>
      intro r member
      cases member
  | cons step rest ih =>
      have stepped := perform_sound h step.action
      rw [run, List.forall_mem_cons]
      exact ⟨stepped.display, ih (Turn.named_sound stepped step.name)⟩

theorem Sound.clients (h : w.Sound) {c : Client} (member : c ∈ w.clients) : c.Sound := by
  obtain ⟨o, present, found⟩ := List.mem_filterMap.mp member
  split at found
  · rename_i held
    cases found
    exact HeldClient.sound_current (h _ present) w.store
  · cases found

theorem Display.Sound.clients {d : Display} (h : d.Sound) {c : Client} (member : c ∈ d.clients) :
    c.Sound := by
  cases d with
  | settled s =>
      obtain ⟨answer, answered, found⟩ := List.mem_filterMap.mp member
      split at found
      · rename_i o
        exact h c (found ▸ answered)
      · cases found
  | shown s =>
      cases s with
      | client c' =>
          rw [Display.clients, List.mem_singleton] at member
          exact member ▸ h
      | _ => cases member

/-- Whatever steps are taken, and in whatever order, every client that there is at the end and
every client that a step showed on the way is consistent if its fields are of their types. A
client that is made of given fields has exactly these fields, so the sets it was given were frozen
and the bags of their own kinds. -/
theorem clients_consistent (steps : List Step) :
    (∀ c ∈ (empty.reached steps).clients, c.Typed → c.fields.Consistent) ∧
      (∀ r ∈ empty.run steps, ∀ d, r.1 = .ok d → ∀ c ∈ d.clients, c.Typed → c.fields.Consistent) ∧
      ∀ f c, (Client.make f).result = .ok c → c.fields = f := by
  refine ⟨?_, ?_, ?_⟩
  · intro c member
    exact (reached_sound empty_sound steps).clients member
  · intro r ran d shown c member
    exact (run_sound empty_sound steps r ran d shown).clients member
  · intro f c made
    exact (Client.make_eq_ok.mp made).1

/-- A client that is built, derived from, changed, and brought back from a snapshot, from a row
and from bytes. -/
def journey : List Step :=
  [⟨.withId (.given (.text "r")), some "draft"⟩,
    ⟨.assign "draft" .clientId (.given (.text "web")), none⟩,
    ⟨.add "draft" .grants (.given authorizationCode), none⟩,
    ⟨.add "draft" .redirectUris (.given (.text "https://c.example/cb")), none⟩,
    ⟨.add "draft" .scopes (.given (.text "openid")), none⟩,
    ⟨.build "draft", some "built"⟩,
    ⟨.replace "built" [("client_name", .given (.text "Web"))], some "changed"⟩,
    ⟨.row "changed", some "row"⟩,
    ⟨.rowToClient "row", none⟩,
    ⟨.snapshot "changed", some "snapshot"⟩,
    ⟨.toClient "snapshot", none⟩,
    ⟨.fromClient (some "changed"), some "derived"⟩,
    ⟨.edit "derived" .scopes [.call .clear []], none⟩,
    ⟨.build "derived", none⟩,
    ⟨.pickle "changed", none⟩]

theorem journey_clients_consistent :
    (empty.reached journey).clients.length = 6 ∧
      ∀ c ∈ (empty.reached journey).clients, c.Typed ∧ c.fields.Consistent := by
  have typed : ∀ c ∈ (empty.reached journey).clients, c.Typed := by decide +kernel
  refine ⟨by decide +kernel, fun c member => ⟨typed c member, ?_⟩⟩
  exact (clients_consistent journey).1 c member (typed c member)

end ClientRegistry.Workspace
