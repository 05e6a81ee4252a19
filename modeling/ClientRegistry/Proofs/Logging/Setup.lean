import ClientRegistry.Logging.Setup

/-! Set-ups of logging one after another. The first change of a set-up is the only one that can be
refused, so a refused set-up changes nothing, and the others leave nothing of what was before. -/

namespace ClientRegistry.Logging

/-- What a set-up is asked for. -/
structure Request where
  name : List Char
  layout : Layout

namespace State

variable {s : State} {r : Request} {calls : List Request}

theorem changeAll_cons_of_error {e : Fault} {c : Change} (refused : s.change c = .error e)
    (cs : List Change) : s.changeAll (c :: cs) = (s, .error e) := by
  simp only [changeAll, refused]

/-- Once the threshold of the root is accepted, no later change is refused. -/
theorem changeAll_changes_level (s : State) (n : Nat) (layout : Layout) :
    s.changeAll (changes (.level n) layout) = (configured n layout, .ok ()) := rfl

theorem changeAll_changes_of_refused {level : Named} {e : Fault}
    (refused : level.threshold = .error e) (s : State) (layout : Layout) :
    s.changeAll (changes level layout) = (s, .error e) := by
  have first : s.change (.root level) = .error e := by
    rw [change, refused]
    rfl
  exact changeAll_cons_of_error first _

theorem levelOf_eq (name : List Char) :
    levelOf name = ((named? name).getD (.level 20)).threshold := by
  rw [levelOf]
  rcases named? name with _ | _ | _ | _ <;> rfl

/-- A set-up goes through exactly if its name has a level; otherwise it leaves all as it was. -/
theorem setUp_eq (s : State) (name : List Char) (layout : Layout) :
    s.setUp name layout =
      match levelOf name with
      | .ok level => (configured level layout, .ok ())
      | .error e => (s, .error e) := by
  rw [setUp, levelOf_eq]
  rcases (named? name).getD (.level 20) with n | text | _
  · exact changeAll_changes_level s n layout
  · exact changeAll_changes_of_refused rfl s layout
  · exact changeAll_changes_of_refused rfl s layout

theorem setUp_of_error {name : List Char} {layout : Layout} {e : Fault}
    (refused : (s.setUp name layout).2 = .error e) : (s.setUp name layout).1 = s := by
  rw [setUp_eq] at refused ⊢
  split at refused
  · cases refused
  · rfl

theorem setUp_of_level {level : Nat} (known : levelOf r.name = .ok level) (s : State) :
    s.setUp r.name r.layout = (configured level r.layout, .ok ()) := by
  rw [setUp_eq, known]

theorem level_of_done (done : (s.setUp r.name r.layout).2 = .ok ()) :
    ∃ level, levelOf r.name = .ok level := by
  rw [setUp_eq] at done
  split at done
  case h_1 level known => exact ⟨level, known⟩
  case h_2 => cases done

/-- The state after set-ups made one after another, whether they go through or not. -/
def setUpAll (s : State) (calls : List Request) : State :=
  calls.foldl (fun s r => (s.setUp r.name r.layout).1) s

/-- Those of the set-ups that go through. -/
def done (s : State) : List Request → List Request
  | [] => []
  | r :: calls =>
    match s.setUp r.name r.layout with
    | (t, .ok ()) => r :: t.done calls
    | (t, .error _) => t.done calls

theorem setUpAll_cons (s : State) (r : Request) (calls : List Request) :
    s.setUpAll (r :: calls) = (s.setUp r.name r.layout).1.setUpAll calls := rfl

theorem setUpAll_concat (s : State) (calls : List Request) (r : Request) :
    s.setUpAll (calls ++ [r]) = ((s.setUpAll calls).setUp r.name r.layout).1 := by
  rw [setUpAll, List.foldl_append]
  rfl

theorem done_cons_of_ok (through : (s.setUp r.name r.layout).2 = .ok ())
    (calls : List Request) :
    s.done (r :: calls) = r :: (s.setUp r.name r.layout).1.done calls := by
  rw [done, ← Prod.eta (s.setUp r.name r.layout), through]

theorem done_cons_of_error {e : Fault} (refused : (s.setUp r.name r.layout).2 = .error e)
    (calls : List Request) : s.done (r :: calls) = s.done calls := by
  rw [done, ← Prod.eta (s.setUp r.name r.layout), refused, setUp_of_error refused]

theorem level_of_mem_done (mem : r ∈ s.done calls) : ∃ level, levelOf r.name = .ok level := by
  induction calls generalizing s with
  | nil => cases mem
  | cons c calls ih =>
      cases outcome : (s.setUp c.name c.layout).2 with
      | error e =>
          rw [done_cons_of_error outcome] at mem
          exact ih mem
      | ok _ =>
          rw [done_cons_of_ok outcome] at mem
          rcases List.mem_cons.mp mem with rfl | mem
          · exact level_of_done outcome
          · exact ih mem

/-- What a run of set-ups leaves behind: what the last one that goes through does to the first
state. A later one does the same to any state, so the earlier ones do not count. -/
theorem setUpAll_eq (s : State) (calls : List Request) :
    s.setUpAll calls =
      match (s.done calls).getLast? with
      | none => s
      | some r => (s.setUp r.name r.layout).1 := by
  induction calls generalizing s with
  | nil => rfl
  | cons c calls ih =>
      rw [setUpAll_cons, ih]
      cases outcome : (s.setUp c.name c.layout).2 with
      | error e => rw [done_cons_of_error outcome, setUp_of_error outcome]
      | ok _ =>
          rw [done_cons_of_ok outcome, List.getLast?_cons]
          cases last : ((s.setUp c.name c.layout).1.done calls).getLast? with
          | none => rfl
          | some r =>
              obtain ⟨level, known⟩ := level_of_mem_done (List.mem_of_getLast? last)
              simp only [Option.getD_some, setUp_of_level known]

/-- A refused set-up leaves all thresholds and handlers as they were. After any set-ups, the last
that went through has shaped the state alone: there is one handler, which has its layout, and the
chatty loggers are at the threshold of the root, but at least at 30. -/
theorem setUpAll_atomic_last (s : State) (calls : List Request) :
    (∀ before r after e, calls = before ++ r :: after →
      ((s.setUpAll before).setUp r.name r.layout).2 = .error e →
        s.setUpAll (before ++ [r]) = s.setUpAll before) ∧
    (s.done calls = [] → s.setUpAll calls = s) ∧
    ∀ r, (s.done calls).getLast? = some r →
      (s.setUp r.name r.layout).2 = .ok () ∧
      s.setUpAll calls = (s.setUp r.name r.layout).1 ∧
      (s.setUpAll calls).handlers = [r.layout] ∧
      levelOf r.name = .ok (s.setUpAll calls).root ∧
      (s.setUpAll calls).engine = max (s.setUpAll calls).root 30 ∧
      (s.setUpAll calls).pool = max (s.setUpAll calls).root 30 ∧
      (s.setUpAll calls).migration = max (s.setUpAll calls).root 30 := by
  refine ⟨fun before r after e _ refused => ?_, fun none => ?_, fun r last => ?_⟩
  · rw [setUpAll_concat, setUp_of_error refused]
  · rw [setUpAll_eq, none]
    rfl
  · obtain ⟨level, known⟩ := level_of_mem_done (List.mem_of_getLast? last)
    have alone := setUp_of_level known s
    have final : s.setUpAll calls = configured level r.layout := by
      simp only [setUpAll_eq, last, alone]
    rw [final, alone]
    exact ⟨rfl, rfl, rfl, known, rfl, rfl, rfl⟩

/-- Four set-ups, the second and the last of which are refused. -/
def restarts : List Request :=
  [⟨"debug".toList, .container⟩, ⟨"basic_format".toList, .json⟩, ⟨"Error".toList, .json⟩,
    ⟨"_styles".toList, .container⟩]

theorem restarts_atomic_last :
    initial.setUpAll (restarts.take 2) = initial.setUpAll (restarts.take 1) ∧
    initial.setUpAll restarts = configured 40 .json ∧
    (initial.setUpAll (restarts.drop 3) = initial) := by
  have second := (setUpAll_atomic_last initial restarts).1 (restarts.take 1)
    ⟨"basic_format".toList, .json⟩ (restarts.drop 2)
    (.unknownLevel "%(levelname)s:%(name)s:%(message)s") rfl rfl
  have third := (setUpAll_atomic_last initial restarts).2.2 ⟨"Error".toList, .json⟩ rfl
  have alone := (setUpAll_atomic_last initial (restarts.drop 3)).2.1 rfl
  exact ⟨second, third.2.1, alone⟩

end State

end ClientRegistry.Logging
