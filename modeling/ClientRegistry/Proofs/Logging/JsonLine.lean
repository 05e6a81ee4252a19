import ClientRegistry.Logging.JsonLine
import ClientRegistry.Proofs.Json.Escaped
import ClientRegistry.Proofs.Logging.Container

/-! The JSON layout can be read back. The object of a report has one member for each thing that
the report has to tell, none of them hides another, and reading its text gives the texts of the
report again. Halves of a pair are the exception: where they follow each other, the reader makes
one code point of them. -/

namespace ClientRegistry.Logging

open Text (CodePoint OneLine Visible points)
open Json.Escaped (Member Halved asRead paired)

namespace Report

variable {r : Report} {f : ContextField} {k : String} {ps : List CodePoint}

/-- Every field of the context holds a text or null. -/
def Plain (r : Report) : Prop :=
  ∀ f, r.context f = .value .null ∨ ∃ ps, r.context f = .text ps

/-- The text of a field, if it has one. -/
def text? (r : Report) (f : ContextField) : Option (List CodePoint) :=
  match r.context f with
  | .text ps => some ps
  | .value _ => none

/-- The keys of the object, in their order. -/
def keys (r : Report) : List String :=
  ["timestamp", "level", "logger", "message"]
    ++ (Entry.fields.filter fun f => (r.text? f).isSome).map ContextField.key
    ++ (if r.cause.isSome then ["exception"] else [])

/-- Members that tell a report: its keys and no others, each with what a reader makes of the text
that the report has for it. -/
structure Tells (r : Report) (ms : List Member) : Prop where
  keys : ms.map Prod.fst = r.keys.map fun k => points k.toList
  distinct : (ms.map Prod.fst).Nodup
  timestamp : ms.lookup (points "timestamp".toList) = some (points r.stamp.jsonText)
  level : ms.lookup (points "level".toList) = some (points (levelName r.level))
  logger : ms.lookup (points "logger".toList) = some (paired r.logger)
  message : ms.lookup (points "message".toList) = some (paired r.message)
  context : ∀ f : ContextField, ms.lookup (points f.key.toList) = (r.text? f).map paired
  exception : ms.lookup (points "exception".toList) = r.cause.map paired

/-- The texts of the members. -/
def told (r : Report) : List (String × List CodePoint) :=
  [("timestamp", points r.stamp.jsonText), ("level", points (levelName r.level)),
      ("logger", r.logger), ("message", r.message)]
    ++ Entry.fields.filterMap (fun f => (r.text? f).map fun ps => (f.key, ps))
    ++ r.cause.toList.map fun ps => ("exception", ps)

theorem members_eq (plain : r.Plain) : r.members = r.told.map fun m => (m.1, .text m.2) := by
  have shown : r.shownContext.map (fun c => (c.1.key, c.2)) =
      (Entry.fields.filterMap fun f => (r.text? f).map fun ps => (f.key, ps)).map fun m =>
        (m.1, .text m.2) := by
    rw [shownContext, Entry.fields, List.map_filterMap, List.map_filterMap]
    congr 1
    funext f
    rcases plain f with null | ⟨ps, text⟩
    · simp only [text?, null, Option.map_none]
    · simp only [text?, text, Option.map_some]
  rw [members, told, List.map_append, List.map_append, shown]
  congr 1
  cases r.cause <;> rfl

theorem keys_told (r : Report) : r.told.map Prod.fst = r.keys := by
  have shown : ∀ fs : List ContextField,
      (fs.filterMap fun f => (r.text? f).map fun ps => (f.key, ps)).map Prod.fst =
        (fs.filter fun f => (r.text? f).isSome).map ContextField.key := by
    intro fs
    induction fs with
    | nil => rfl
    | cons f rest ih =>
        cases given : r.text? f with
        | none => simpa [given] using ih
        | some ps => simpa [given] using ih
  rw [told, keys, List.map_append, List.map_append, shown]
  congr 1
  cases r.cause <;> rfl

/-- All keys that an object can have differ. -/
theorem keys_nodup (r : Report) : r.keys.Nodup := by
  have all : (["timestamp", "level", "logger", "message"] ++ Entry.fields.map ContextField.key
      ++ ["exception"]).Nodup := by
    decide
  refine all.sublist (.append (.append (.refl _) (List.filter_sublist.map _)) ?_)
  split
  · exact .refl _
  · exact List.nil_sublist _

theorem key_injective {f g : ContextField} (same : f.key = g.key) : f = g := by
  cases f <;> cases g <;> first | rfl | exact absurd same (by decide)

theorem key_other (f : ContextField) :
    f.key ∉ ["timestamp", "level", "logger", "message"] ∧ f.key ≠ "exception" := by
  cases f <;> decide

theorem mem_told_key : (f.key, ps) ∈ r.told ↔ r.text? f = some ps := by
  rw [told, List.mem_append, List.mem_append, List.mem_filterMap]
  constructor
  · rintro ((fixed | ⟨g, -, shown⟩) | exception)
    · exact absurd (List.mem_map_of_mem (f := Prod.fst) fixed) (key_other f).1
    · obtain ⟨qs, given, same⟩ := Option.map_eq_some_iff.mp shown
      obtain ⟨key, rfl⟩ := Prod.mk.inj same
      rw [← key_injective key]
      exact given
    · obtain ⟨qs, -, same⟩ := List.mem_map.mp exception
      exact absurd (Prod.mk.inj same).1.symm (key_other f).2
  · intro given
    have listed : f ∈ Entry.fields := by cases f <;> decide
    exact .inl (.inr ⟨f, listed, by rw [given]; rfl⟩)

theorem mem_told_exception : ("exception", ps) ∈ r.told ↔ r.cause = some ps := by
  rw [told, List.mem_append, List.mem_append, List.mem_filterMap]
  constructor
  · rintro ((fixed | ⟨g, -, shown⟩) | exception)
    · have other : "exception" ∉ ["timestamp", "level", "logger", "message"] := by decide
      exact absurd (List.mem_map_of_mem (f := Prod.fst) fixed) other
    · obtain ⟨qs, -, same⟩ := Option.map_eq_some_iff.mp shown
      exact absurd (Prod.mk.inj same).1 (key_other g).2
    · obtain ⟨qs, caused, same⟩ := List.mem_map.mp exception
      obtain ⟨-, rfl⟩ := Prod.mk.inj same
      exact Option.mem_toList.mp caused
  · intro caused
    exact .inr (List.mem_map.mpr ⟨ps, Option.mem_toList.mpr caused, rfl⟩)

/-- A member as it is written, under the code points of its key. -/
def member (m : String × List CodePoint) : Member := (points m.1.toList, m.2)

/-- The members that a reader of the object finds. -/
def found (r : Report) : List Member := r.told.map fun m => asRead (member m)

theorem keys_found (r : Report) : r.found.map Prod.fst = r.keys.map fun k => points k.toList := by
  rw [found, List.map_map, ← keys_told, List.map_map]
  apply List.map_congr_left
  intro m _
  exact Json.Escaped.paired_points m.1.toList

theorem found_nodup (r : Report) : (r.found.map Prod.fst).Nodup := by
  rw [keys_found]
  refine r.keys_nodup.map ?_
  intro k l same
  exact String.toList_injective (Text.points_injective same)

theorem lookup_found : r.found.lookup (points k.toList) = some ps ↔
    ∃ qs, (k, qs) ∈ r.told ∧ paired qs = ps := by
  rw [Json.Escaped.lookup_eq_some r.found_nodup, found, List.mem_map]
  constructor
  · rintro ⟨m, listed, same⟩
    obtain ⟨key, rfl⟩ := Prod.mk.inj same
    rw [member, Json.Escaped.paired_points] at key
    obtain rfl := String.toList_injective (Text.points_injective key)
    exact ⟨m.2, listed, rfl⟩
  · rintro ⟨qs, listed, rfl⟩
    exact ⟨(k, qs), listed, Prod.ext (Json.Escaped.paired_points k.toList) rfl⟩

theorem tells_found (r : Report) : r.Tells r.found where
  keys := keys_found r
  distinct := found_nodup r
  timestamp := lookup_found.mpr ⟨_, by simp [told], Json.Escaped.paired_points _⟩
  level := lookup_found.mpr ⟨_, by simp [told], Json.Escaped.paired_points _⟩
  logger := lookup_found.mpr ⟨_, by simp [told], rfl⟩
  message := lookup_found.mpr ⟨_, by simp [told], rfl⟩
  context f := by
    ext ps
    rw [lookup_found, Option.map_eq_some_iff]
    simp only [mem_told_key]
  exception := by
    ext ps
    rw [lookup_found, Option.map_eq_some_iff]
    simp only [mem_told_exception]

theorem writeMembers?_texts (ms : List (String × List CodePoint)) :
    writeMembers? (ms.map fun m => (m.1, .text m.2)) =
      some (ms.map fun m => Json.Escaped.writeMember (member m)) := by
  induction ms with
  | nil => rfl
  | cons m rest ih =>
      simp only [List.map_cons, writeMembers?, Datum.write?, ih]
      rfl

theorem write?_plain (plain : r.Plain) :
    r.write? = some (Json.Escaped.writeObject (r.told.map member)) := by
  rw [write?, members_eq plain, writeMembers?_texts, Option.map_some, Json.Escaped.writeObject,
    List.map_map]
  rfl

end Report

/-- The line of every entry that is reported with texts for its context: visible ASCII, and one
object that tells the report. Each of its texts is read back as it is exactly if no first half of a
surrogate pair has a second half right after it. -/
theorem report_readable :
    (∀ ps : List CodePoint, paired ps = ps ↔ ¬Halved ps) ∧
      ∀ r : Report, r.Plain → ∃ text ms, r.write? = some text ∧
        (∀ e : Entry, e.report? = some r → e.jsonText? = some text) ∧ Visible text ∧
        OneLine text ∧ Json.Escaped.read? text = some ms ∧ r.Tells ms := by
  refine ⟨Json.Escaped.paired_eq_self, fun r plain => ?_⟩
  have written := r.write?_plain plain
  have visible := Json.Escaped.visible_writeObject (r.told.map Report.member)
  refine ⟨_, r.found, written, ?_, visible, visible.oneLine, ?_, r.tells_found⟩
  · intro e reported
    rw [Entry.jsonText?, reported]
    exact written
  · rw [Json.Escaped.read?_writeObject, List.map_map]
    rfl

/-- Quotes, backslashes, line breaks, a character of two units, a field without a value, an error,
and halves that make no pair. -/
def awkward : Report where
  stamp := ⟨1700000000, 5⟩
  level := 30
  logger := points "reg\"istry\\".toList
  message := points "web\n🔑\x00é".toList ++ [.ofNat 0xDE00, .ofNat 0xD83D]
  context
    | .registrationId => .text (points "a\r\nb".toList)
    | .clientId => .value .null
    | .field => .text [.ofNat 0xD83D, .ofNat 0x41, .ofNat 0xDE00]
  cause := some (points "Refusal: 🔑".toList)

theorem awkward_readable :
    awkward.Plain ∧ ∃ text ms, awkward.write? = some text ∧ Visible text ∧
      Json.Escaped.read? text = some ms ∧ awkward.Tells ms ∧
      ms.lookup (points "message".toList) = some awkward.message := by
  have plain : awkward.Plain := by
    intro f
    cases f with
    | registrationId => exact .inr ⟨_, rfl⟩
    | clientId => exact .inl rfl
    | field => exact .inr ⟨_, rfl⟩
  obtain ⟨text, ms, written, -, visible, -, read, tells⟩ := report_readable.2 awkward plain
  have whole : paired awkward.message = awkward.message := by decide +kernel
  exact ⟨plain, text, ms, written, visible, read, tells, tells.message.trans (congrArg some whole)⟩

/-- The two halves of a pair, one after the other. -/
def split : Entry where
  logger := "registry".toList
  level := 30
  path := "/srv/registry".toList
  line := 7
  template := "%c%c".toList
  args := [.int 0xD83D, .int 0xDE00]
  stamp := ⟨1700000000, 5⟩
  context := []
  cause := none

/-- They are read back as one code point. -/
theorem split_joined :
    split.points? = some [0xD83D, 0xDE00] ∧ ∃ text ms, split.jsonText? = some text ∧
      Json.Escaped.read? text = some ms ∧
      ms.lookup (points "message".toList) = some [0x1F600] := by
  refine ⟨by decide +kernel, ("\x7b\"timestamp\": \"2023-11-14 22:13:20,005\", " ++
    "\"level\": \"WARNING\", \"logger\": \"registry\", " ++
    "\"message\": \"\\ud83d\\ude00\"\x7d").toList,
    [(points "timestamp".toList, points "2023-11-14 22:13:20,005".toList),
      (points "level".toList, points "WARNING".toList),
      (points "logger".toList, points "registry".toList),
      (points "message".toList, [0x1F600])], ?_, ?_, ?_⟩
  · decide +kernel
  · decide +kernel
  · decide +kernel

end ClientRegistry.Logging
