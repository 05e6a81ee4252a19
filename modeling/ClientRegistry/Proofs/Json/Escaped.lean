import ClientRegistry.Json.Escaped
import ClientRegistry.Proofs.Json.Text
import ClientRegistry.Proofs.Text.Line

/-! What is written in ASCII, as a reader takes it. A code point outside ASCII is written by its
UTF-16 units, one or two. The reader takes the escaped units one by one and then puts the halves of
a pair together wherever they follow each other, also two that were points of their own. -/

namespace ClientRegistry.Json.Escaped

open Text (CodePoint Visible visible_cons visible_append)

variable {p q : CodePoint} {ps us : List CodePoint} {rest : List Char}

/-- The code point of two halves of a pair. -/
def joined (high low : CodePoint) : CodePoint :=
  .ofNat (0x10000 + (high.val - 0xD800) * 0x400 + (low.val - 0xDC00))

/-- Every first half that a second half follows makes one code point with it. -/
def paired : List CodePoint → List CodePoint
  | p :: q :: rest =>
    if isHighUnit p.val ∧ isLowUnit q.val then joined p q :: paired rest else p :: paired (q :: rest)
  | ps => ps

/-- The code points and the escaped units of a text up to its closing quote. -/
def readUnits : List Char → Option (List CodePoint × List Char)
  | [] => none
  | '"' :: rest => some ([], rest)
  | '\\' :: 'u' :: a :: b :: c :: d :: rest =>
    match unit? a b c d with
    | some n => (readUnits rest).map fun (us, r) => (.ofNat n :: us, r)
    | none => none
  | '\\' :: c :: rest =>
    match shortEscape? c with
    | some e => (readUnits rest).map fun (us, r) => (.ofChar e :: us, r)
    | none => none
  | c :: rest =>
    if c.toNat < 0x20 ∨ c = '\\' then none
    else (readUnits rest).map fun (us, r) => (.ofChar c :: us, r)

def readText (cs : List Char) : Option (List CodePoint × List Char) :=
  match skipSpace cs with
  | '"' :: rest => (readUnits rest).map fun (us, r) => (paired us, r)
  | _ => none

/-- A member of an object: its name and its text. -/
abbrev Member := List CodePoint × List CodePoint

def readMember (cs : List Char) : Option (Member × List Char) :=
  (readText cs).bind fun (name, rest) => match skipSpace rest with
    | ':' :: rest => (readText rest).map fun (text, r) => ((name, text), r)
    | _ => none

/-- The first argument bounds the number of members. -/
def readMembers : Nat → List Char → Option (List Member × List Char)
  | 0, _ => none
  | bound + 1, cs => (readMember cs).bind fun (m, rest) => match skipSpace rest with
    | ',' :: rest' => (readMembers bound rest').map fun (ms, r) => (m :: ms, r)
    | '}' :: rest' => some ([m], rest')
    | _ => none

/-- The members of an object, up to its closing brace. -/
def readObject (bound : Nat) (cs : List Char) : Option (List Member × List Char) :=
  match skipSpace cs with
  | '}' :: rest => some ([], rest)
  | rest => readMembers bound rest

/-- One object, all of whose members hold texts, and nothing after it. -/
def read? (cs : List Char) : Option (List Member) :=
  match skipSpace cs with
  | '{' :: rest => (readObject rest.length rest).bind fun (ms, r) =>
    if (skipSpace r).isEmpty then some ms else none
  | _ => none

/-- The text has a first half with a second half right after it. -/
def Halved (ps : List CodePoint) : Prop :=
  ∃ front p q back, ps = front ++ p :: q :: back ∧ isHighUnit p.val ∧ isLowUnit q.val

theorem paired_cons (apart : ∀ q, us.head? = some q → ¬(isHighUnit p.val ∧ isLowUnit q.val)) :
    paired (p :: us) = p :: paired us := by
  cases us with
  | nil => rfl
  | cons q rest => rw [paired, if_neg (apart q rfl)]

theorem halved_cons_cons :
    Halved (p :: q :: us) ↔ (isHighUnit p.val ∧ isLowUnit q.val) ∨ Halved (q :: us) := by
  constructor
  · rintro ⟨front, h, l, back, same, high, low⟩
    cases front with
    | nil =>
        cases same
        exact .inl ⟨high, low⟩
    | cons x front => exact .inr ⟨front, h, l, back, (List.cons.inj same).2, high, low⟩
  · rintro (⟨high, low⟩ | ⟨front, h, l, back, same, high, low⟩)
    · exact ⟨[], p, q, us, rfl, high, low⟩
    · exact ⟨p :: front, h, l, back, congrArg (p :: ·) same, high, low⟩

theorem length_paired_le (ps : List CodePoint) : (paired ps).length ≤ ps.length := by
  induction ps using paired.induct with
  | case1 p q rest pair ih =>
      rw [paired, if_pos pair]
      simp only [List.length_cons]
      omega
  | case2 p q rest apart ih =>
      rw [paired, if_neg apart]
      simp only [List.length_cons] at ih ⊢
      omega
  | case3 ps few => rw [paired.eq_2 ps few]

/-- Exactly the texts without such halves are read as they are. -/
theorem paired_eq_self (ps : List CodePoint) : paired ps = ps ↔ ¬Halved ps := by
  induction ps using paired.induct with
  | case1 p q rest pair ih =>
      have shorter := length_paired_le rest
      rw [paired, if_pos pair, halved_cons_cons]
      refine ⟨fun same => ?_, fun whole => absurd (.inl pair) whole⟩
      have lengths := congrArg List.length same
      simp only [List.length_cons] at lengths
      omega
  | case2 p q rest apart ih =>
      rw [paired, if_neg apart, halved_cons_cons, or_iff_right apart, ← ih]
      exact ⟨fun same => (List.cons.inj same).2, congrArg (p :: ·)⟩
  | case3 ps few =>
      rw [paired.eq_2 ps few]
      refine ⟨fun _ => ?_, fun _ => rfl⟩
      rintro ⟨front, p, q, back, rfl, -, -⟩
      cases front with
      | nil => exact few p q back rfl
      | cons x front =>
          cases front with
          | nil => exact few x p (q :: back) rfl
          | cons y front => exact few x y (front ++ p :: q :: back) rfl

/-- Characters are no halves. -/
theorem paired_points (cs : List Char) : paired (Text.points cs) = Text.points cs := by
  rw [paired_eq_self]
  rintro ⟨front, p, q, back, same, high, -⟩
  have member : p ∈ Text.points cs := by simp [same]
  obtain ⟨c, -, rfl⟩ := List.mem_map.mp member
  rw [CodePoint.val_ofChar, (not_surrogate c).1] at high
  cases high

/-- The UTF-16 units of a code point. -/
def units (p : CodePoint) : List CodePoint :=
  if p.val < 0x10000 then [p]
  else [.ofNat (0xD800 + (p.val - 0x10000) / 0x400), .ofNat (0xDC00 + (p.val - 0x10000) % 0x400)]

/-- The halves of a code point with two units. -/
theorem halves (beyond : ¬p.val < 0x10000) :
    ∃ high low, units p = [high, low] ∧ isHighUnit high.val ∧ isLowUnit low.val ∧
      joined high low = p := by
  have bound := p.isLt
  have first := CodePoint.val_ofNat (n := 0xD800 + (p.val - 0x10000) / 0x400) (by omega)
  have second := CodePoint.val_ofNat (n := 0xDC00 + (p.val - 0x10000) % 0x400) (by omega)
  refine ⟨_, _, if_neg beyond, ?_, ?_, ?_⟩
  · rw [first, isHighUnit, Bool.and_eq_true, decide_eq_true_eq, decide_eq_true_eq]
    omega
  · rw [second, isLowUnit, Bool.and_eq_true, decide_eq_true_eq, decide_eq_true_eq]
    omega
  · apply Fin.ext
    rw [joined, first, second, CodePoint.val_ofNat (by omega)]
    omega

theorem paired_units (apart : ∀ q, us.head? = some q → ¬(isHighUnit p.val ∧ isLowUnit q.val)) :
    paired (units p ++ us) = p :: paired us := by
  by_cases basic : p.val < 0x10000
  · have alone : units p = [p] := if_pos basic
    rw [alone]
    exact paired_cons apart
  · obtain ⟨high, low, two, isHigh, isLow, same⟩ := halves basic
    rw [two, List.cons_append, List.singleton_append, paired, if_pos ⟨isHigh, isLow⟩, same]

/-- The first unit of a code point is a second half only if the point is. -/
theorem isLow_of_head_units (head : (units p ++ us).head? = some q) (low : isLowUnit q.val) :
    isLowUnit p.val := by
  by_cases basic : p.val < 0x10000
  · have alone : units p = [p] := if_pos basic
    rw [alone] at head
    cases head
    exact low
  · obtain ⟨high, second, two, isHigh, -, -⟩ := halves basic
    rw [two] at head
    cases head
    simp only [isHighUnit, isLowUnit, Bool.and_eq_true, decide_eq_true_eq] at isHigh low
    omega

/-- The units of a text are put together to the same points as the text itself. -/
theorem paired_flatMap_units (ps : List CodePoint) :
    paired (ps.flatMap units) = paired ps := by
  induction ps using paired.induct with
  | case1 p q rest pair ih =>
      have ⟨high, low⟩ := pair
      simp only [isHighUnit, isLowUnit, Bool.and_eq_true, decide_eq_true_eq] at high low
      have first : units p = [p] := if_pos (by omega)
      have second : units q = [q] := if_pos (by omega)
      rw [List.flatMap_cons, List.flatMap_cons, first, second, List.singleton_append,
        List.singleton_append, paired, if_pos pair, ih, paired, if_pos pair]
  | case2 p q rest apart ih =>
      rw [List.flatMap_cons, paired_units, ih, paired, if_neg apart]
      intro u head pair
      rw [List.flatMap_cons] at head
      exact apart ⟨pair.1, isLow_of_head_units head pair.2⟩
  | case3 ps few =>
      cases ps with
      | nil => rfl
      | cons p rest =>
          cases rest with
          | nil =>
              rw [List.flatMap_singleton, ← List.append_nil (units p), paired_units]
              · rfl
              · intro q head
                cases head
          | cons q rest => exact absurd rfl (few p q rest)

theorem readUnits_unit {n : Nat} (small : n < 0x10000) (rest : List Char) :
    readUnits ('\\' :: 'u' :: Text.hexDigits 4 n ++ rest) =
      (readUnits rest).map fun (us, r) => (.ofNat n :: us, r) := by
  obtain ⟨a, b, c, d, digits, unit⟩ := unit?_hexDigits small
  simp [digits, readUnits, unit]

theorem readUnits_unitEscapes (p : CodePoint) (rest : List Char) :
    readUnits (unitEscapes p.val ++ rest) =
      (readUnits rest).map fun (us, r) => (units p ++ us, r) := by
  have bound := p.isLt
  simp only [unitEscapes, units]
  split
  next basic =>
    rw [readUnits_unit basic]
    have same : CodePoint.ofNat p.val = p := Fin.ext (CodePoint.val_ofNat bound)
    rw [same]
    rfl
  next beyond =>
    rw [List.append_assoc, readUnits_unit (by omega), readUnits_unit (by omega), Option.map_map]
    rfl

/-- Whatever its form, a character is read as itself. -/
theorem readUnits_escape {c : Char} {cs : List Char} (h : Escape c cs) (rest : List Char) :
    readUnits (cs ++ rest) = (readUnits rest).map fun (us, r) => (.ofChar c :: us, r) := by
  cases h with
  | short e named =>
      have other : e ≠ 'u' := by
        rintro rfl
        cases named
      rw [List.cons_append, List.singleton_append, readUnits.eq_def]
      split
      next shape => cases shape
      next shape => exact absurd (List.cons.inj shape).1 (by decide)
      next shape => exact absurd (List.cons.inj (List.cons.inj shape).2).1 other
      next shape =>
        obtain ⟨rfl, rfl⟩ := List.cons.inj (List.cons.inj shape).2
        rw [named]
      next apart shape =>
        obtain ⟨rfl, rfl⟩ := List.cons.inj shape
        exact (apart e rest rfl rfl).elim
  | code control => exact readUnits_unit (by omega) rest
  | plain quote backslash visible =>
      rw [List.singleton_append, readUnits.eq_def]
      split
      next shape => cases shape
      next shape => exact absurd (List.cons.inj shape).1 quote
      next shape => exact absurd (List.cons.inj shape).1 backslash
      next shape => exact absurd (List.cons.inj shape).1 backslash
      next shape =>
        obtain ⟨rfl, rfl⟩ := List.cons.inj shape
        rw [if_neg (not_or.mpr ⟨visible, backslash⟩)]

/-- The character of a point in ASCII. -/
theorem toNat_ofNat_ascii (ascii : p.val < 0x7F) : (Char.ofNat p.val).toNat = p.val := by
  rw [Char.ofNat, dif_pos (.inl (by omega))]
  rfl

theorem readUnits_escapePoint (p : CodePoint) (rest : List Char) :
    readUnits (escapePoint p ++ rest) =
      (readUnits rest).map fun (us, r) => (units p ++ us, r) := by
  rw [escapePoint]
  split
  next ascii =>
    have same : CodePoint.ofChar (Char.ofNat p.val) = p := by
      apply Fin.ext
      rw [CodePoint.val_ofChar, toNat_ofNat_ascii ascii]
    have alone : units p = [p] := if_pos (by omega)
    rw [readUnits_escape (escape_escapeChar _), same, alone]
    rfl
  next => exact readUnits_unitEscapes p rest

theorem visible_of_shortEscape? {c e : Char} (named : shortEscape? e = some c) :
    0x20 ≤ e.toNat ∧ e.toNat < 0x7F := by
  have visible : Visible ['"', '\\', '/', 'b', 'f', 'n', 'r', 't'] := by decide
  refine visible e ?_
  by_contra other
  simp only [List.mem_cons, List.not_mem_nil, or_false, not_or] at other
  simp [shortEscape?, other] at named

theorem visible_escape {c : Char} {cs : List Char} (h : Escape c cs) (ascii : c.toNat < 0x7F) :
    Visible cs := by
  cases h with
  | short e named =>
      exact visible_cons.mpr ⟨by decide, visible_cons.mpr ⟨visible_of_shortEscape? named, .nil⟩⟩
  | code control => simp [Text.visible_hexDigits]
  | plain quote backslash visible => exact visible_cons.mpr ⟨⟨by omega, ascii⟩, .nil⟩

theorem visible_escapePoint (p : CodePoint) : Visible (escapePoint p) := by
  rw [escapePoint]
  split
  next ascii =>
    apply visible_escape (escape_escapeChar _)
    rw [toNat_ofNat_ascii ascii]
    exact ascii
  next =>
    simp only [unitEscapes]
    split
    · simp [Text.visible_hexDigits]
    · simp [Text.visible_hexDigits]

theorem visible_writePoints (ps : List CodePoint) : Visible (writePoints ps) := by
  simp only [writePoints, List.cons_append, visible_cons, visible_append]
  refine ⟨by decide, ?_, by decide⟩
  intro c member
  obtain ⟨p, -, escaped⟩ := List.mem_flatMap.mp member
  exact visible_escapePoint p c escaped

theorem readUnits_flatMap (ps : List CodePoint) (rest : List Char) :
    readUnits (ps.flatMap escapePoint ++ '"' :: rest) = some (ps.flatMap units, rest) := by
  induction ps with
  | nil => simp [readUnits]
  | cons p more ih =>
      rw [List.flatMap_cons, List.append_assoc, readUnits_escapePoint, ih]
      rfl

theorem readText_writePoints (ps : List CodePoint) (rest : List Char) :
    readText (writePoints ps ++ rest) = some (paired ps, rest) := by
  have shape : writePoints ps ++ rest = '"' :: (ps.flatMap escapePoint ++ '"' :: rest) := by
    simp [writePoints]
  have quote : skipSpace ('"' :: (ps.flatMap escapePoint ++ '"' :: rest)) =
      '"' :: (ps.flatMap escapePoint ++ '"' :: rest) := rfl
  rw [shape, readText, quote]
  simp only [readUnits_flatMap, Option.map_some, paired_flatMap_units]

theorem readText_space (cs : List Char) : readText (' ' :: cs) = readText cs := by
  have skipped : skipSpace (' ' :: cs) = skipSpace cs := rfl
  rw [readText, readText, skipped]

/-- Where no name stands twice, a look-up finds what is listed. -/
theorem lookup_eq_some {ms : List Member} (distinct : (ms.map Prod.fst).Nodup)
    {name text : List CodePoint} : ms.lookup name = some text ↔ (name, text) ∈ ms := by
  induction ms with
  | nil => simp
  | cons m rest ih =>
      obtain ⟨name', text'⟩ := m
      rw [List.map_cons, List.nodup_cons] at distinct
      rw [List.lookup_cons, List.mem_cons]
      by_cases same : name = name'
      · subst same
        have absent : (name, text) ∉ rest := fun member =>
          distinct.1 (List.mem_map.mpr ⟨(name, text), member, rfl⟩)
        simp [absent, eq_comm]
      · have other : (name == name') = false := beq_false_of_ne same
        simp only [other, ih distinct.2, Prod.mk.injEq, same, false_and, false_or]

/-- What is written for a member. -/
def writeMember (m : Member) : List Char :=
  writePoints m.1 ++ ':' :: ' ' :: writePoints m.2

/-- A member as it is read back. -/
def asRead (m : Member) : Member := (paired m.1, paired m.2)

theorem visible_writeMember (m : Member) : Visible (writeMember m) := by
  simp [writeMember, visible_writePoints]

theorem readMember_writeMember (m : Member) (rest : List Char) :
    readMember (writeMember m ++ rest) = some (asRead m, rest) := by
  have colon : skipSpace (':' :: ' ' :: (writePoints m.2 ++ rest)) =
      ':' :: ' ' :: (writePoints m.2 ++ rest) := rfl
  rw [writeMember, List.append_assoc, readMember, readText_writePoints]
  simp only [Option.bind_some, List.cons_append, colon, readText_space, readText_writePoints,
    Option.map_some]
  rfl

theorem readMembers_space (bound : Nat) (cs : List Char) :
    readMembers bound (' ' :: cs) = readMembers bound cs := by
  cases bound with
  | zero => rfl
  | succ bound => simp only [readMembers, readMember, readText_space]

/-- The members up to the closing brace, as they are written one after the other. -/
theorem readMembers_commaSeparated (m : Member) (ms : List Member) (rest : List Char)
    {bound : Nat} (enough : ms.length < bound) :
    readMembers bound (Printed.commaSeparated ((m :: ms).map writeMember) ++ '\x7d' :: rest) =
      some ((m :: ms).map asRead, rest) := by
  induction ms generalizing m bound with
  | nil =>
      obtain ⟨bound, rfl⟩ := Nat.exists_eq_succ_of_ne_zero (Nat.ne_of_gt enough)
      have brace : skipSpace ('\x7d' :: rest) = '\x7d' :: rest := rfl
      rw [List.map_singleton, Printed.commaSeparated, readMembers, readMember_writeMember]
      simp only [Option.bind_some, brace, List.map_singleton]
  | cons n ms ih =>
      obtain ⟨bound, rfl⟩ := Nat.exists_eq_succ_of_ne_zero (Nat.ne_of_gt (Nat.zero_lt_of_lt enough))
      have more := ih n (Nat.lt_of_succ_lt_succ enough)
      rw [List.map_cons, List.map_cons, Printed.commaSeparated, List.append_assoc, readMembers,
        readMember_writeMember]
      · have comma : ∀ cs, skipSpace (',' :: ' ' :: cs) = ',' :: ' ' :: cs := fun _ => rfl
        simp only [Option.bind_some, List.cons_append, comma, readMembers_space]
        rw [List.map_cons] at more
        rw [more]
        rfl
      · exact List.cons_ne_nil _ _

theorem length_le_commaSeparated (ms : List Member) :
    ms.length ≤ (Printed.commaSeparated (ms.map writeMember)).length := by
  induction ms with
  | nil => exact Nat.le_refl 0
  | cons m ms ih =>
      cases ms with
      | nil => simp [Printed.commaSeparated, writeMember, writePoints]
      | cons n ms =>
          rw [List.map_cons, List.map_cons, Printed.commaSeparated]
          · rw [List.map_cons] at ih
            simp only [List.length_append, List.length_cons] at ih ⊢
            omega
          · exact List.cons_ne_nil _ _

theorem visible_commaSeparated {parts : List (List Char)} (h : ∀ p ∈ parts, Visible p) :
    Visible (Printed.commaSeparated parts) := by
  induction parts with
  | nil => exact .nil
  | cons p parts ih =>
      rw [List.forall_mem_cons] at h
      cases parts with
      | nil => exact h.1
      | cons q parts => simp [Printed.commaSeparated, h.1, ih h.2]

/-- What is written for an object of texts. -/
def writeObject (ms : List Member) : List Char :=
  '\x7b' :: Printed.commaSeparated (ms.map writeMember) ++ ['\x7d']

theorem visible_writeObject (ms : List Member) : Visible (writeObject ms) := by
  have parts : Visible (Printed.commaSeparated (ms.map writeMember)) := by
    apply visible_commaSeparated
    exact List.forall_mem_map.mpr fun m _ => visible_writeMember m
  simp [writeObject, parts]

/-- An object is read with its members in order, each of them with its pairs put together. -/
theorem read?_writeObject (ms : List Member) :
    read? (writeObject ms) = some (ms.map asRead) := by
  cases ms with
  | nil => rfl
  | cons m ms =>
      obtain ⟨more, shape⟩ : ∃ more, Printed.commaSeparated ((m :: ms).map writeMember) =
          '"' :: more := by
        cases ms with
        | nil => exact ⟨_, rfl⟩
        | cons n ms => exact ⟨_, rfl⟩
      have bound := length_le_commaSeparated (m :: ms)
      have enough : ms.length < ('"' :: (more ++ ['\x7d'])).length := by
        rw [shape] at bound
        simp only [List.length_append, List.length_cons] at bound ⊢
        omega
      have members := readMembers_commaSeparated m ms [] enough
      rw [shape, List.cons_append] at members
      have written : writeObject (m :: ms) = '\x7b' :: '"' :: (more ++ ['\x7d']) := by
        rw [writeObject, shape]
        rfl
      have brace : ∀ cs, skipSpace ('\x7b' :: '"' :: cs) = '\x7b' :: '"' :: cs := fun _ => rfl
      have quote : ∀ bound cs, readObject bound ('"' :: cs) = readMembers bound ('"' :: cs) :=
        fun _ _ => rfl
      rw [written, read?, brace]
      simp only [quote, members, Option.bind_some]
      rfl

end ClientRegistry.Json.Escaped
