import ClientRegistry.Proofs.Client.Building
import ClientRegistry.Proofs.Workspace.Answers
import ClientRegistry.Proofs.Workspace.Extended

/-! Building in a workspace. The step answers and logs as the draft's build does, and alters no
object: after a refusal the draft is as it was, and after a success as well. -/

namespace ClientRegistry.Workspace

variable {w w' : Workspace} {on : String} {d : HeldDraft} {x y : Shared}

/-- The settings of a draft are absent, or bags that are known by their cells. -/
structure HeldDraft.Settled (s : Store) (d : HeldDraft) : Prop where
  clientSettings : s.read d.clientSettings = .null ∨ ∃ a, d.clientSettings = .bag .client a
  tokenSettings : s.read d.tokenSettings = .null ∨ ∃ a, d.tokenSettings = .bag .token a

/-- The options of settled settings are those that they read as. -/
theorem bagOptions_settled {s : Store} (ranked : s.Ranked)
    (inside : ∀ a, x.address? = some a → a < s.length)
    (settled : s.read x = .null ∨ ∃ kind a, x = .bag kind a) :
    s.bagOptions x = Draft.optionsOf (s.read x) := by
  cases x with
  | bag kind a =>
      rw [ranked.read_bag (inside a rfl) kind]
      rfl
  | leaf v =>
      rcases settled with null | ⟨kind, a, same⟩
      · rw [null]
        rfl
      · cases same
  | cell a =>
      rcases settled with null | ⟨kind, b, same⟩
      · rw [null]
        rfl
      · cases same

/-- The client with the options that two held bags have. -/
def withBags (s : Store) (x y : Shared) (c : Client) : Client :=
  { c with
    clientSettings := s.bagOptions x
    tokenSettings := s.bagOptions y }

theorem insertBuilt_extends (w : Workspace) (x y : Shared) (c : Client) :
    w.Extends (w.insertBuilt x y c).1 := by
  let copied : Workspace := { w with store := (w.store.copyBags x y).1 }
  have grown : w.Extends copied := .of_store (Store.copyBags_extends _ x y) rfl
  exact grown.insert _

/-- What was built is a new object, and has the options of the settings that were copied. -/
theorem insertBuilt_object (ranked : w.store.Ranked)
    (inside : ∀ a, x.address? = some a → a < w.store.length)
    (inside' : ∀ a, y.address? = some a → a < w.store.length) (c : Client) :
    ∃ held : HeldClient,
      (w.insertBuilt x y c).1.objects[w.objects.length]? = some (.client held) ∧
        held.current (w.insertBuilt x y c).1.store = withBags w.store x y c := by
  obtain ⟨-, ⟨-, client⟩, -, token⟩ := Store.copyBags_optionsAt ranked inside inside'
  refine ⟨⟨c, (w.store.copyBags x y).2.1, (w.store.copyBags x y).2.2⟩,
    List.getElem?_concat_length, ?_⟩
  rw [withBags, ← client, ← token]
  rfl

theorem insertBuilt_turn (ranked : w.store.Ranked)
    (inside : ∀ a, x.address? = some a → a < w.store.length)
    (inside' : ∀ a, y.address? = some a → a < w.store.length) (c : Client) (log : List LogRecord) :
    Turn.ofObject (w.insertBuilt x y c).1 (w.insertBuilt x y c).2 log =
      ⟨(w.insertBuilt x y c).1, .ok (.shown (.client (withBags w.store x y c))),
        some w.objects.length, log⟩ := by
  obtain ⟨held, present, current⟩ := insertBuilt_object ranked inside inside' c
  have found : (w.insertBuilt x y c).1.object? (w.insertBuilt x y c).2 = .ok (.client held) := by
    show (w.insertBuilt x y c).1.object? w.objects.length = _
    rw [object?, present]
  rw [Turn.ofObject, found, ← current]
  rfl

theorem build_draft (named : w.named? on = .ok (.draft d)) :
    w.build on = .ofOutcome w (d.current w.store).build
      (w.insertBuilt d.clientSettings d.tokenSettings) := by
  obtain ⟨h, found, present⟩ := handle_of_named named
  rw [build, onObject_of_handle found present]

/-- Whatever comes of a build, all that there was is there as it was. -/
theorem build_extends (named : w.named? on = .ok (.draft d)) :
    w.Extends (w.build on).workspace ∧ (w.build on).workspace.names = w.names := by
  rw [build_draft named, Turn.ofOutcome]
  split
  · rw [Turn.ofObject_workspace]
    exact ⟨insertBuilt_extends w _ _ _, rfl⟩
  · exact ⟨.refl w, rfl⟩

theorem parts_of_draft (grounded : w.holding.Grounded) (named : w.named? on = .ok (.draft d)) :
    (∀ a, d.clientSettings.address? = some a → a < w.store.length) ∧
      ∀ a, d.tokenSettings.address? = some a → a < w.store.length := by
  obtain ⟨h, -, present⟩ := handle_of_named named
  have parts := parts_lt grounded (List.mem_of_getElem? present)
  exact ⟨parts d.clientSettings List.mem_cons_self,
    parts d.tokenSettings (List.mem_cons_of_mem _ List.mem_cons_self)⟩

/-- A build that succeeds inserts the client, with the settings of the draft copied. -/
theorem build_of_ok (grounded : w.holding.Grounded) (named : w.named? on = .ok (.draft d))
    {c : Client} (built : (d.current w.store).build.result = .ok c) :
    w.build on = ⟨(w.insertBuilt d.clientSettings d.tokenSettings c).1,
      .ok (.shown (.client (withBags w.store d.clientSettings d.tokenSettings c))),
      some w.objects.length, (d.current w.store).build.log⟩ := by
  obtain ⟨inside, inside'⟩ := parts_of_draft grounded named
  rw [build_draft named, Turn.ofOutcome, built]
  exact insertBuilt_turn grounded.ranked inside inside' c _

theorem build_of_error (named : w.named? on = .ok (.draft d)) {e : Fault}
    (refused : (d.current w.store).build.result = .error e) :
    w.build on = .failLogged w e (d.current w.store).build.log := by
  rw [build_draft named, Turn.ofOutcome, refused]

/-- The turn of a build is the draft's build. -/
theorem build_turn (grounded : w.holding.Grounded) (named : w.named? on = .ok (.draft d))
    (typed : (d.current w.store).Typed) (settled : d.Settled w.store) :
    (w.build on).log = (d.current w.store).build.log ∧
      (w.build on).display = (d.current w.store).build.result.map fun c => .shown (.client c) := by
  cases result : (d.current w.store).build.result with
  | error e =>
      rw [build_of_error named result]
      exact ⟨rfl, rfl⟩
  | ok c =>
      obtain rfl : c = (d.current w.store).client := typed.build_verdict.eq_of_ok result
      obtain ⟨inside, inside'⟩ := parts_of_draft grounded named
      have ranked : w.store.Ranked := grounded.ranked
      have client := bagOptions_settled ranked inside
        (settled.clientSettings.imp_right fun ⟨a, bag⟩ => ⟨_, a, bag⟩)
      have token := bagOptions_settled ranked inside'
        (settled.tokenSettings.imp_right fun ⟨a, bag⟩ => ⟨_, a, bag⟩)
      rw [build_of_ok grounded named result, withBags, client, token]
      exact ⟨rfl, rfl⟩

/-- A name other than that of the step's own object stands for what it stood for. -/
theorem Turn.named?_of_ne {t : Turn} {name : Option String} (other : name ≠ some on) :
    (t.named name).named? on = t.workspace.named? on := by
  simp only [Turn.named]
  split
  next h n _ _ =>
    have ne : ¬n = on := fun same => other (congrArg some same)
    have found : (t.workspace.bind n h).handle? on = t.workspace.handle? on := by
      simp [handle?, bind, ne]
    rw [named?, named?, found]
    rfl
  · rfl

theorem Extends.named? {o : Object} (h : w.Extends w') (names : w'.names = w.names)
    (named : w.named? on = .ok o) : w'.named? on = .ok o := by
  obtain ⟨i, found, present⟩ := handle_of_named named
  have found' : w'.handle? on = .ok i := by simpa only [handle?, names] using found
  exact named_of_handle found' (h.objects i o present)

/-- After a build the draft is under its name as before. -/
theorem build_again (grounded : w.holding.Grounded) (named : w.named? on = .ok (.draft d))
    (settled : d.Settled w.store) {name : Option String} (other : name ≠ some on) :
    ((w.build on).named name).named? on = .ok (.draft d) ∧
      d.current ((w.build on).named name).store = d.current w.store ∧
      d.Settled ((w.build on).named name).store := by
  obtain ⟨extends', names⟩ := build_extends named
  obtain ⟨inside, inside'⟩ := parts_of_draft grounded named
  have read := extends'.store.read grounded.ranked inside
  have read' := extends'.store.read grounded.ranked inside'
  rw [Turn.named?_of_ne other, Turn.named_store]
  refine ⟨extends'.named? names named, ?_, ?_⟩
  · simp only [HeldDraft.current, read, read']
  · exact ⟨settled.clientSettings.imp_left read.trans, settled.tokenSettings.imp_left read'.trans⟩

end ClientRegistry.Workspace

namespace ClientRegistry

open Workspace

/-- A draft that calls with values of the right types lead to is built or refused in one of the six
ways, in the order of the checks, and leaves one record in the log: of severity debug if it is
built, a warning if not. A step that builds it in a workspace answers and logs the same; it alters
no object, so the draft keeps its fields and the next build of it answers and logs the same. -/
theorem Draft.Reachable.build_decides {d : Draft} (reached : d.Reachable) :
    d.Verdict d.build ∧
      (∃ r, d.build.log = [r] ∧ (r.severity = .debug ↔ ∃ c, d.build.result = .ok c) ∧
        (r.severity = .warning ↔ ∃ e, d.build.result = .error e)) ∧
      ∀ (w : Workspace) (on : String) (held : HeldDraft), w.holding.Grounded →
        w.named? on = .ok (.draft held) → held.current w.store = d → held.Settled w.store →
        (w.perform (.build on)).log = d.build.log ∧
          (w.perform (.build on)).display = d.build.result.map (fun c => .shown (.client c)) ∧
          (∀ h < w.objects.length, w.Unaltered (w.perform (.build on)).workspace h) ∧
          ∀ name : Option String, name ≠ some on →
            (((w.perform (.build on)).named name).perform (.build on)).log = d.build.log ∧
              (((w.perform (.build on)).named name).perform (.build on)).display =
                d.build.result.map fun c => .shown (.client c) := by
  have typed := reached.typed
  refine ⟨typed.build_verdict, typed.build_verdict.log, ?_⟩
  rintro w on held grounded named rfl settled
  obtain ⟨log, display⟩ := build_turn grounded named typed settled
  refine ⟨log, display, fun h inside => (build_extends named).1.unaltered grounded inside, ?_⟩
  intro name other
  obtain ⟨named', current, settled'⟩ := build_again grounded named settled other
  have grounded' : ((w.build on).named name).holding.Grounded :=
    reached_grounded grounded [⟨.build on, name⟩]
  have again := build_turn grounded' named' (current.symm ▸ typed) settled'
  rwa [current] at again

/-- Calls that leave a draft without a redirect URI and with a bad scope; the last one fails half
way. -/
def intakeCalls : List Draft.Call :=
  [.assign .clientId (.text "web"), .add .grants authorizationCode, .add .scopes (.text "a b"),
    .edit .scopes [.call .update [.list [.text "openid"], .tuple [.text "email"]], .stop "enough"]]

def intakeDraft : Draft := (Draft.empty (.text "r")).applyAll intakeCalls

/-- The same calls in a workspace. -/
def intake : List Step :=
  [⟨.withId (.given (.text "r")), some "draft"⟩,
    ⟨.assign "draft" .clientId (.given (.text "web")), none⟩,
    ⟨.add "draft" .grants (.given authorizationCode), none⟩,
    ⟨.add "draft" .scopes (.given (.text "a b")), none⟩,
    ⟨.edit "draft" .scopes
      [.call .update [.list [.text "openid"], .tuple [.text "email"]], .stop "enough"], none⟩]

theorem intakeCalls_typed : ∀ c ∈ intakeCalls, c.Typed := by
  simp only [intakeCalls, List.forall_mem_cons]
  refine ⟨.inr ⟨_, rfl⟩, ⟨_, rfl⟩, ⟨_, rfl⟩, ?_, fun _ member => by cases member⟩
  simp only [Draft.Call.Typed, Edit.Brings, SetField.Admits, List.forall_mem_cons]
  refine ⟨⟨?_, ?_, fun _ member => by cases member⟩, trivial, fun _ member => by cases member⟩
  · intro items given
    cases given
    exact List.forall_mem_singleton.mpr ⟨"openid", rfl⟩
  · intro items given
    cases given
    exact List.forall_mem_singleton.mpr ⟨"email", rfl⟩

theorem intake_build_decides :
    intakeDraft.Verdict intakeDraft.build ∧
      intakeDraft.build = intakeDraft.missing "redirect_uris" ∧ intakeDraft.scopes.length = 3 ∧
      ((empty.reached intake).perform (.build "draft")).log = intakeDraft.build.log ∧
      ∀ h < (empty.reached intake).objects.length,
        (empty.reached intake).Unaltered
          ((empty.reached intake).perform (.build "draft")).workspace h := by
  have reached : intakeDraft.Reachable :=
    Draft.Reachable.applyAll (.withId ⟨"r", rfl⟩ rfl) intakeCalls_typed
  obtain ⟨verdict, -, performed⟩ := Draft.Reachable.build_decides reached
  obtain ⟨log, -, unaltered, -⟩ := performed (empty.reached intake) "draft"
    ⟨intakeDraft, .leaf .null, .leaf .null⟩ (reached_grounded empty_grounded intake)
    (by with_unfolding_all rfl) (by with_unfolding_all rfl) ⟨.inl rfl, .inl rfl⟩
  exact ⟨verdict, by with_unfolding_all rfl, by decide +kernel, log, unaltered⟩

end ClientRegistry
