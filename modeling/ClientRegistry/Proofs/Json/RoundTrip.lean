import ClientRegistry.Proofs.Json.Shaped
import ClientRegistry.Proofs.Json.Text
import ClientRegistry.Proofs.Settings.Bag
import Mathlib.Data.List.Forall2

/-! Values are read back as they were written. The text of a value is read with whatever follows
it left over, so that the items of a container are read one after the other. -/

namespace ClientRegistry.Json

variable {fuel room : Nat} {cs t rest : List Char} {v : Value}

theorem skipSpace_cons {c : Char} (visible : isSpace c = false) (more : List Char) :
    skipSpace (c :: more) = c :: more := by
  rw [skipSpace, List.dropWhile_cons, visible]
  rfl

/-- A text whose value is `v`, whatever follows it, in containers with some room left. -/
structure Reads (room : Nat) (t : List Char) (v : Value) : Prop where
  head : ∃ c more, t = c :: more ∧ isSpace c = false ∧ c ≠ ']'
  read : ∀ fuel rest, 2 * t.length ≤ fuel → Delimited rest →
    readValue fuel room (t ++ rest) = some (v, rest)

theorem Reads.length_pos (h : Reads room t v) : 0 < t.length := by
  obtain ⟨c, more, rfl, -⟩ := h.head
  exact Nat.succ_pos _

/-- No container and no space begins the text of a value without parts. -/
theorem head_of_readLeaf {found : Value × List Char} (h : readLeaf cs = some found) :
    ∃ c more, cs = c :: more ∧ isSpace c = false ∧ c ≠ ']' ∧ c ≠ '[' ∧ c ≠ '\x7b' := by
  match cs with
  | [] => cases h
  | c :: more =>
      have none : ∀ d ∈ [' ', '\t', '\n', '\r', ']', '[', '\x7b'], readLeaf (d :: more) = none := by
        intro d member
        simp only [List.mem_cons, List.not_mem_nil, or_false] at member
        rcases member with rfl | rfl | rfl | rfl | rfl | rfl | rfl <;> rfl
      have other : c ∉ [' ', '\t', '\n', '\r', ']', '[', '\x7b'] := fun member => by
        rw [none c member] at h
        cases h
      refine ⟨c, more, rfl, ?_⟩
      simp only [List.mem_cons, List.not_mem_nil, or_false, not_or] at other
      simp [isSpace, other]

theorem readValue_of_readLeaf {found : Value × List Char} (h : readLeaf cs = some found) :
    readValue (fuel + 1) room cs = some found := by
  obtain ⟨c, more, rfl, visible, -, list, dict⟩ := head_of_readLeaf h
  rw [readValue.eq_def]
  simp only [skipSpace_cons visible]
  split <;> simp_all

theorem Reads.of_readLeaf (read : ∀ rest, Delimited rest → readLeaf (t ++ rest) = some (v, rest)) :
    Reads room t v := by
  have plain := read [] Delimited.nil
  rw [List.append_nil] at plain
  obtain ⟨c, more, rfl, visible, other, -⟩ := head_of_readLeaf plain
  refine ⟨⟨c, more, rfl, visible, other⟩, fun fuel rest enough delimited => ?_⟩
  cases fuel with
  | zero => simp at enough
  | succ fuel => exact readValue_of_readLeaf (read rest delimited)

theorem delimited_comma (rest : List Char) : Delimited (',' :: rest) := by
  intro c member
  cases member
  exact .inl rfl

theorem delimited_bracket (rest : List Char) : Delimited (']' :: rest) := by
  intro c member
  cases member
  exact .inr (.inl rfl)

theorem delimited_brace (rest : List Char) : Delimited ('}' :: rest) := by
  intro c member
  cases member
  exact .inr (.inr rfl)

theorem readItems_separated {parts : List (List Char)} {vs : List Value}
    (reads : List.Forall₂ (Reads room) parts vs) (nonempty : parts ≠ [])
    (enough : 2 * (separated parts).length < fuel) :
    readItems fuel room (separated parts ++ ']' :: rest) = some (vs, rest) := by
  induction reads generalizing fuel with
  | nil => exact absurd rfl nonempty
  | @cons t v parts vs first others ih =>
      obtain ⟨fuel, rfl⟩ := Nat.exists_eq_succ_of_ne_zero (by omega : fuel ≠ 0)
      cases others with
      | nil =>
          simp only [separated] at enough ⊢
          rw [readItems, first.read fuel _ (by omega) (delimited_bracket rest)]
          simp [skipSpace, isSpace]
      | @cons t' v' parts' vs' second others =>
          simp only [separated, List.length_append, List.length_cons] at enough
          have more := @ih fuel (List.cons_ne_nil _ _) (by have := first.length_pos; omega)
          rw [separated, List.append_assoc, List.cons_append, readItems,
            first.read fuel _ (by omega) (delimited_comma _)]
          · simp [skipSpace, isSpace, more]
          · exact List.cons_ne_nil _ _

theorem exists_cons_separated {parts : List (List Char)} {vs : List Value}
    (reads : List.Forall₂ (Reads room) parts vs) (nonempty : parts ≠ []) :
    ∃ c more, separated parts = c :: more ∧ isSpace c = false ∧ c ≠ ']' := by
  cases reads with
  | nil => exact absurd rfl nonempty
  | cons first others =>
      obtain ⟨c, more, rfl, visible, other⟩ := first.head
      cases others with
      | nil => exact ⟨c, more, rfl, visible, other⟩
      | cons => exact ⟨c, _, rfl, visible, other⟩

theorem readValue_items {c : Char} {more : List Char} (visible : isSpace c = false)
    (other : c ≠ ']') : readValue (fuel + 1) (room + 1) ('[' :: c :: more) =
      (readItems fuel room (c :: more)).map fun (xs, r) => (.list xs, r) := by
  rw [readValue.eq_def]
  simp only [skipSpace_cons (c := '[') rfl, skipSpace_cons visible]
  split <;> simp_all

theorem Reads.list {parts : List (List Char)} {vs : List Value}
    (reads : List.Forall₂ (Reads room) parts vs) (nonempty : parts ≠ []) :
    Reads (room + 1) ('[' :: separated parts ++ [']']) (.list vs) := by
  refine ⟨⟨'[', _, rfl, rfl, by decide⟩, fun fuel rest enough delimited => ?_⟩
  obtain ⟨fuel, rfl⟩ := Nat.exists_eq_succ_of_ne_zero
    (by simp only [List.cons_append, List.length_cons] at enough; omega : fuel ≠ 0)
  simp only [List.cons_append, List.length_cons, List.length_append, List.length_nil] at enough
  have items : readItems fuel room (separated parts ++ ']' :: rest) = some (vs, rest) :=
    readItems_separated reads nonempty (by omega)
  obtain ⟨c, more, shape, visible, other⟩ := exists_cons_separated reads nonempty
  rw [shape, List.cons_append] at items
  simp only [shape, List.cons_append, List.append_assoc, List.nil_append,
    readValue_items visible other, items, Option.map_some]

theorem Reads.emptyList (room : Nat) : Reads room ['[', ']'] (.list []) := by
  refine ⟨⟨'[', _, rfl, rfl, by decide⟩, fun fuel rest enough _ => ?_⟩
  obtain ⟨fuel, rfl⟩ := Nat.exists_eq_succ_of_ne_zero
    (by simp only [List.length_cons] at enough; omega : fuel ≠ 0)
  simp only [readValue, List.cons_append, List.nil_append, skipSpace_cons (c := '[') rfl,
    skipSpace_cons (c := ']') rfl]

/-- A text of a name and a value. -/
def ReadsMember (room : Nat) (t : List Char) (e : Value × Value) : Prop :=
  ∃ (s : String) (u : List Char), e.1 = .text s ∧ t = writeText s.toList ++ ':' :: u ∧
    Reads room u e.2

/-- What is read after a member: more members, or the end of the dictionary. -/
def afterMember (fuel room : Nat) (e : Value × Value) :
    List Char → Option (List (Value × Value) × List Char)
  | ',' :: rest => (readMembers fuel room rest).map fun (es, r) => (e :: es, r)
  | '\x7d' :: rest => some ([e], rest)
  | _ => none

theorem readMembers_member {s : String} {u tail : List Char} (value : Reads room u v)
    (enough : 2 * u.length ≤ fuel) (delimited : Delimited tail) :
    readMembers (fuel + 1) room (writeText s.toList ++ ':' :: (u ++ tail)) =
      afterMember fuel room (.text s, v) (skipSpace tail) := by
  have chars := readChars_append s.toList (':' :: (u ++ tail))
  have key : writeText s.toList ++ ':' :: (u ++ tail) =
      '"' :: (s.toList.flatMap escapeChar ++ '"' :: ':' :: (u ++ tail)) := by
    simp [writeText]
  rw [key, readMembers]
  simp only [skipSpace_cons (c := '"') rfl, chars, skipSpace_cons (c := ':') rfl,
    value.read fuel tail enough delimited, String.ofList_toList]
  rfl

theorem readMembers_separated {parts : List (List Char)} {es : Options}
    (reads : List.Forall₂ (ReadsMember room) parts es) (nonempty : parts ≠ [])
    (enough : 2 * (separated parts).length < fuel) :
    readMembers fuel room (separated parts ++ '\x7d' :: rest) = some (es, rest) := by
  induction reads generalizing fuel with
  | nil => exact absurd rfl nonempty
  | @cons t e parts es first others ih =>
      obtain ⟨fuel, rfl⟩ := Nat.exists_eq_succ_of_ne_zero (by omega : fuel ≠ 0)
      obtain ⟨s, u, key, rfl, value⟩ := first
      obtain ⟨k, v⟩ := e
      subst key
      cases others with
      | nil =>
          simp only [separated, List.length_append, List.length_cons] at enough
          rw [separated, List.append_assoc, List.cons_append,
            readMembers_member value (by omega) (delimited_brace rest)]
          rfl
      | @cons t' e' parts' es' second others =>
          simp only [separated, List.length_append, List.length_cons] at enough
          have more := @ih fuel (List.cons_ne_nil _ _) (by omega)
          rw [separated, List.append_assoc, List.append_assoc, List.cons_append, List.cons_append,
            readMembers_member value (by omega) (delimited_comma _)]
          · simp [afterMember, skipSpace, isSpace, more]
          · exact List.cons_ne_nil _ _

theorem readValue_members (rest : List Char) :
    readValue (fuel + 1) (room + 1) ('\x7b' :: '"' :: rest) =
      (readMembers fuel room ('"' :: rest)).map fun (es, r) => (.dict (Entries.ofList es), r) := by
  rw [readValue.eq_def]
  simp only [skipSpace_cons (c := '\x7b') rfl, skipSpace_cons (c := '"') rfl]
  split <;> simp_all

theorem Reads.dict {parts : List (List Char)} {es : Options}
    (reads : List.Forall₂ (ReadsMember room) parts es) (nonempty : parts ≠ []) :
    Reads (room + 1) ('\x7b' :: separated parts ++ ['\x7d']) (.dict (Entries.ofList es)) := by
  refine ⟨⟨'\x7b', _, rfl, rfl, by decide⟩, fun fuel rest enough delimited => ?_⟩
  obtain ⟨fuel, rfl⟩ := Nat.exists_eq_succ_of_ne_zero
    (by simp only [List.cons_append, List.length_cons] at enough; omega : fuel ≠ 0)
  simp only [List.cons_append, List.length_cons, List.length_append, List.length_nil] at enough
  have members : readMembers fuel room (separated parts ++ '\x7d' :: rest) = some (es, rest) :=
    readMembers_separated reads nonempty (by omega)
  obtain ⟨more, shape⟩ : ∃ more, separated parts = '"' :: more := by
    cases reads with
    | nil => exact absurd rfl nonempty
    | cons first others =>
        obtain ⟨s, u, -, rfl, -⟩ := first
        cases others with
        | nil => exact ⟨_, rfl⟩
        | cons => exact ⟨_, rfl⟩
  rw [shape, List.cons_append] at members
  simp only [shape, List.cons_append, List.append_assoc, List.nil_append, readValue_members, members,
    Option.map_some]

theorem Reads.emptyDict (room : Nat) : Reads room ['\x7b', '\x7d'] (.dict []) := by
  refine ⟨⟨'\x7b', _, rfl, rfl, by decide⟩, fun fuel rest enough _ => ?_⟩
  obtain ⟨fuel, rfl⟩ := Nat.exists_eq_succ_of_ne_zero
    (by simp only [List.length_cons] at enough; omega : fuel ≠ 0)
  simp only [readValue, List.cons_append, List.nil_append, skipSpace_cons (c := '\x7b') rfl,
    skipSpace_cons (c := '\x7d') rfl]

theorem writeList_reads {xs : List Value}
    (items : ∀ x ∈ xs, ∃ t, write x = .ok t ∧ Reads room t (settled x)) :
    ∃ parts, writeList xs = .ok parts ∧ List.Forall₂ (Reads room) parts (settledList xs) := by
  induction xs with
  | nil => exact ⟨[], by rw [writeList], .nil⟩
  | cons x rest ih =>
      rw [List.forall_mem_cons] at items
      obtain ⟨t, written, reads⟩ := items.1
      obtain ⟨parts, writtenRest, readsRest⟩ := ih items.2
      exact ⟨t :: parts, by rw [writeList, written, writtenRest], .cons reads readsRest⟩

theorem writeEntries_reads {es : Options} (keys : ∀ e ∈ es, e.1.IsText)
    (values : ∀ e ∈ es, ∃ t, write e.2 = .ok t ∧ Reads room t (settled e.2)) :
    ∃ parts, writeEntries es = .ok parts ∧
      List.Forall₂ (ReadsMember room) parts (settledEntries es) := by
  induction es with
  | nil => exact ⟨[], by rw [writeEntries], .nil⟩
  | cons e rest ih =>
      obtain ⟨k, v⟩ := e
      rw [List.forall_mem_cons] at keys values
      obtain ⟨s, rfl⟩ := keys.1
      obtain ⟨t, written, reads⟩ := values.1
      obtain ⟨parts, writtenRest, readsRest⟩ := ih keys.2 values.2
      exact ⟨(writeText s.toList ++ ':' :: t) :: parts,
        by rw [writeEntries, keyText, written, writtenRest], .cons ⟨s, t, rfl, rfl, reads⟩ readsRest⟩

theorem writeReal_reads {x : Binary64} (canonical : x.Canonical) (room : Nat) :
    Reads room (writeReal x) (settled (.real x)) := by
  cases x with
  | finite negative m e => exact .of_readLeaf fun rest delimited => readLeaf_real canonical delimited
  | infinite negative => exact .of_readLeaf fun rest _ => rfl
  | nan mark => exact .of_readLeaf fun rest _ => rfl

/-- Every value of a JSON shape is written, and its text is read as what the value settles to. -/
theorem Shaped.write_reads (h : Shaped Binary64.Canonical room v) :
    ∃ t, write v = .ok t ∧ Reads room t (settled v) := by
  induction h with
  | null room => exact ⟨_, by rw [write], .of_readLeaf fun rest _ => rfl⟩
  | bool room b =>
      refine ⟨_, by rw [write], .of_readLeaf fun rest _ => ?_⟩
      cases b <;> rfl
  | int room n readable =>
      exact ⟨_, by rw [write], .of_readLeaf fun rest delimited =>
        readLeaf_int readable delimited⟩
  | real room x canonical => exact ⟨_, by rw [write], writeReal_reads canonical room⟩
  | text room s => exact ⟨_, by rw [write], .of_readLeaf fun rest _ => readLeaf_text s rest⟩
  | emptyList room =>
      exact ⟨_, by rw [write, writeArray, writeList]; rfl, .emptyList room⟩
  | list room xs _ ih =>
      obtain ⟨parts, written, reads⟩ := writeList_reads ih
      cases xs with
      | nil => exact ⟨_, by rw [write, writeArray, writeList]; rfl, .emptyList _⟩
      | cons x rest =>
          refine ⟨_, by rw [write, writeArray, written], .list reads ?_⟩
          rintro rfl
          cases reads
  | emptyDict room =>
      exact ⟨_, by rw [write, writeEntries]; rfl, .emptyDict room⟩
  | dict room es keyed _ ih =>
      obtain ⟨parts, written, reads⟩ := writeEntries_reads keyed.texts ih
      cases es with
      | nil => exact ⟨_, by rw [write, writeEntries]; rfl, .emptyDict _⟩
      | cons e rest =>
          have same := Entries.ofList_of_keyed (Keyed.settled keyed)
          refine ⟨_, by rw [write, written], ?_⟩
          rw [settled, ← same]
          refine .dict reads ?_
          rintro rfl
          cases reads

/-- A whole text that is the text of a value. -/
theorem Reads.read? (h : Reads mostNested t v) : Json.read? t = some v := by
  have read := h.read (2 * t.length + 2) [] (by omega) Delimited.nil
  rw [List.append_nil] at read
  rw [Json.read?, read]
  rfl

theorem Shaped.read?_write (h : Shaped Binary64.Canonical mostNested v) :
    ∃ t, write v = .ok t ∧ read? t = some (settled v) := by
  obtain ⟨t, written, reads⟩ := h.write_reads
  exact ⟨t, written, reads.read?⟩

mutual

/-- A value and what it settles to have the same text. -/
theorem write_settled : ∀ v : Value, write (settled v) = write v
  | .real (.finite _ _ _) => rfl
  | .real (.infinite _) => by simp only [settled, write, writeReal]
  | .real (.nan _) => by simp only [settled, write, writeReal]
  | .list xs => by simp only [settled, write, writeArray, writeList_settled xs]
  | .dict es => by simp only [settled, write, writeEntries_settled es]
  | .null | .bool _ | .int _ | .text _ | .bytes _ | .moment _ | .token _ _ | .bag _ _ | .tuple _
  | .set _ | .frozen _ => rfl

theorem writeList_settled : ∀ xs : List Value, writeList (settledList xs) = writeList xs
  | [] => rfl
  | x :: xs => by simp only [settledList, writeList, write_settled x, writeList_settled xs]

theorem writeEntries_settled : ∀ es : Options, writeEntries (settledEntries es) = writeEntries es
  | [] => rfl
  | (k, v) :: es => by
      simp only [settledEntries, writeEntries, write_settled v, writeEntries_settled es]

end

end ClientRegistry.Json
