import ClientRegistry.Logging.Line
import ClientRegistry.Proofs.Client.Acceptance
import ClientRegistry.Proofs.Registry.Index
import ClientRegistry.Proofs.Text.Line

/-! When the container layout keeps an entry on one line. What the layout adds has no line break,
so the line is broken exactly if the logger, the message, the place or a shown context value is. -/

namespace ClientRegistry

open Text (OneLine oneLine_cons oneLine_append oneLine_digitChars oneLine_padLeft)

namespace Logging.Entry

variable {e : Entry} {f : ContextField} {v : Value}

theorem oneLine_intChars (n : Int) : OneLine (Printed.intChars n) := by
  rw [Printed.intChars]
  split
  · exact oneLine_cons.mpr ⟨by decide, oneLine_digitChars _⟩
  · exact oneLine_digitChars _

theorem oneLine_millisText (s : Stamp) : OneLine s.millisText := by
  rw [Stamp.millisText]
  split
  · exact oneLine_cons.mpr ⟨by decide, oneLine_padLeft _ _⟩
  · exact oneLine_padLeft _ _

theorem oneLine_momentText (m : Moment) : OneLine m.timeText := by
  rw [Moment.timeText]
  split
  · simp [Moment.two, oneLine_padLeft]
  · simp [Moment.two, Moment.six, oneLine_padLeft]

theorem oneLine_timeText (e : Entry) : OneLine e.timeText := by
  simp [timeText, Moment.two, oneLine_digitChars, oneLine_padLeft, oneLine_momentText,
    oneLine_millisText]

theorem oneLine_levelName (level : Int) : OneLine (levelName level) := by
  rw [levelName]
  repeat' split
  · decide
  · decide
  · decide
  · decide
  · decide
  · decide
  · rw [oneLine_append]
    exact ⟨by decide, oneLine_intChars level⟩

theorem oneLine_padRight (width : Nat) (cs : List Char) :
    OneLine (padRight width cs) ↔ OneLine cs := by
  rw [padRight, oneLine_append]
  exact and_iff_left (Text.oneLine_replicate _ (by decide))

theorem oneLine_placeText (e : Entry) :
    OneLine e.placeText ↔ (30 ≤ e.level → OneLine e.fileName) := by
  rw [placeText]
  split
  next above => simp [above, oneLine_intChars]
  next below => simp [below]

theorem oneLine_key (f : ContextField) : OneLine f.key.toList := by
  cases f <;> decide

theorem oneLine_pairText (c : ContextField × Value) :
    OneLine (pairText c) ↔ OneLine c.2.displayed := by
  simp [pairText, oneLine_key]

theorem oneLine_spaced {parts : List (List Char)} :
    OneLine (spaced parts) ↔ ∀ p ∈ parts, OneLine p := by
  induction parts with
  | nil => simp [spaced]
  | cons p parts ih =>
      cases parts with
      | nil => simp [spaced]
      | cons q parts => simp [spaced, ih]

theorem oneLine_contextText (e : Entry) :
    OneLine e.contextText ↔ ∀ c ∈ e.shownContext, OneLine c.2.displayed := by
  rw [contextText]
  split
  next none => simp [none]
  next =>
    simp only [oneLine_cons, oneLine_spaced, List.forall_mem_map, oneLine_pairText]
    simp

theorem oneLine_headLine (e : Entry) (message : List Char) :
    OneLine (e.headLine message) ↔ OneLine e.logger ∧ OneLine message ∧
      (30 ≤ e.level → OneLine e.fileName) ∧ ∀ c ∈ e.shownContext, OneLine c.2.displayed := by
  simp [headLine, oneLine_timeText, oneLine_padRight, oneLine_levelName, oneLine_placeText,
    oneLine_contextText]

theorem oneLine_fileName (placed : OneLine e.path) : OneLine e.fileName := by
  intro c member
  rw [fileName, List.mem_reverse] at member
  exact placed c (List.mem_reverse.mp (List.takeWhile_subset _ member))

/-- What an entry gives for a field, which is its first value; null is none. -/
def given? (e : Entry) (f : ContextField) : Option Value :=
  match e.context.find? fun c => c.1 == f with
  | some (_, .null) => none
  | some (_, v) => some v
  | none => none

/-- The context fields in the order in which they are shown. -/
def fields : List ContextField := [.registrationId, .clientId, .field]

theorem shownContext_eq (e : Entry) :
    e.shownContext = fields.filterMap fun f => (e.given? f).map fun v => (f, v) := by
  rw [shownContext, fields]
  congr 1
  funext f
  rw [given?]
  cases e.context.find? fun c => c.1 == f with
  | none => rfl
  | some c =>
      obtain ⟨g, v⟩ := c
      cases v <;> rfl

theorem mem_shownContext : (f, v) ∈ e.shownContext ↔ e.given? f = some v := by
  have listed : f ∈ fields := by cases f <;> decide
  simp only [shownContext_eq, List.mem_filterMap, Option.map_eq_some_iff, Prod.mk.injEq]
  constructor
  · rintro ⟨f, -, v, given, rfl, rfl⟩
    exact given
  · intro given
    exact ⟨f, listed, v, given, rfl, rfl⟩

theorem given?_eq_some : e.given? f = some v ↔
    v ≠ .null ∧ ∃ g, e.context.find? (fun c => c.1 == f) = some (g, v) := by
  rw [given?]
  split
  next g found =>
    simp only [found, Option.some.injEq, Prod.mk.injEq, reduceCtorEq, false_iff, not_and]
    rintro other ⟨_, -, rfl⟩
    exact other rfl
  next g w other found =>
    simp only [found, Option.some.injEq, Prod.mk.injEq, exists_eq_left']
    constructor
    · rintro rfl
      exact ⟨other, rfl⟩
    · rintro ⟨-, same⟩
      exact same
  next absent => simp [absent]

theorem find?_field {context : List (ContextField × Value)}
    (distinct : (context.map Prod.fst).Nodup) :
    (∃ g, context.find? (fun c => c.1 == f) = some (g, v)) ↔ (f, v) ∈ context := by
  induction context with
  | nil => simp
  | cons c rest ih =>
      obtain ⟨h, w⟩ := c
      rw [List.map_cons, List.nodup_cons] at distinct
      rw [List.find?_cons, List.mem_cons]
      by_cases same : h = f
      · subst same
        have absent : (h, v) ∉ rest := fun member =>
          distinct.1 (List.mem_map.mpr ⟨(h, v), member, rfl⟩)
        simp [absent, eq_comm]
      · have other : (h == f) = false := beq_false_of_ne same
        simp only [other, ih distinct.2, Prod.mk.injEq, Ne.symm same, false_and, false_or]

/-- Null shows nothing, and its own text would be on one line. -/
theorem oneLine_shownContext (distinct : (e.context.map Prod.fst).Nodup) :
    (∀ c ∈ e.shownContext, OneLine c.2.displayed) ↔
      ∀ c ∈ e.context, OneLine c.2.displayed := by
  constructor
  · rintro shown ⟨f, v⟩ member
    by_cases null : v = .null
    · rw [null]
      exact show OneLine Printed.nullText by decide
    · have given := given?_eq_some.mpr ⟨null, (find?_field distinct).mpr member⟩
      exact shown (f, v) (mem_shownContext.mpr given)
  · rintro given ⟨f, v⟩ member
    have found := (given?_eq_some.mp (mem_shownContext.mp member)).2
    exact given (f, v) ((find?_field distinct).mp found)

/-- A record comes with its message. -/
theorem message?_ofRecord (r : LogRecord) (logger path : List Char) (line : Int) (stamp : Stamp)
    (cause : Option Cause) :
    (ofRecord r logger path line stamp cause).message? = some r.message :=
  Text.chars?_points r.message

/-- The line of a record, under the name and at the place where it is logged. -/
theorem oneLine_ofRecord {r : LogRecord} (distinct : (r.context.map Prod.fst).Nodup)
    {logger path : List Char} (named : OneLine logger) (placed : OneLine path) (line : Int)
    (stamp : Stamp) :
    ∃ text, (ofRecord r logger path line stamp none).containerText? = some text ∧
      (OneLine text ↔ OneLine r.message ∧ ∀ c ∈ r.context, OneLine c.2.displayed) := by
  refine ⟨(ofRecord r logger path line stamp none).headLine r.message, ?_, ?_⟩
  · rw [containerText?, message?_ofRecord]
    rfl
  have file : OneLine (ofRecord r logger path line stamp none).fileName := oneLine_fileName placed
  rw [oneLine_headLine, oneLine_shownContext distinct]
  constructor
  · rintro ⟨-, message, -, context⟩
    exact ⟨message, context⟩
  · rintro ⟨message, context⟩
    exact ⟨named, message, fun _ => file, context⟩

end Logging.Entry

end ClientRegistry
