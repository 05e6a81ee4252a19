import ClientRegistry.Json.Reading
import ClientRegistry.Json.Written
import ClientRegistry.Proofs.Number.Shortest

/-! Numbers are read back as they were written: integers with as many digits as are read, and
every finite double. -/

namespace ClientRegistry.Json

open Numeral (Stops isDigit takeDigits_of_stops takeExponent toReal)
open RealLayout (digitChars)

variable {ds fs rest tail : List Char} {negative : Bool}

/-- What follows a value in a container, or at the end of a text. -/
def Delimited (rest : List Char) : Prop :=
  ∀ c ∈ rest.head?, c = ',' ∨ c = ']' ∨ c = '}'

theorem Delimited.nil : Delimited [] := by
  intro c member
  cases member

theorem Delimited.stops (h : Delimited rest) : Stops rest := by
  intro c member
  rcases h c member with rfl | rfl | rfl <;> rfl

theorem Delimited.readFraction (h : Delimited rest) : readFraction rest = some ([], rest) := by
  cases rest with
  | nil => rfl
  | cons c more => rcases h c rfl with rfl | rfl | rfl <;> rfl

theorem Delimited.takeExponent (h : Delimited rest) : takeExponent rest = some (none, rest) := by
  cases rest with
  | nil => rfl
  | cons c more => rcases h c rfl with rfl | rfl | rfl <;> rfl

/-- Digits without a needless zero in front. -/
structure Whole (ds : List Char) : Prop where
  digits : ∀ c ∈ ds, isDigit c = true
  nonempty : ds ≠ []
  plain : ds.head? = some '0' → ds.length = 1

theorem Whole.zero : Whole ['0'] :=
  ⟨List.forall_mem_singleton.mpr rfl, List.cons_ne_nil _ _, fun _ => rfl⟩

theorem Whole.digitChars (n : Nat) : Whole (digitChars n) where
  digits _ member := Numeral.isDigit_of_mem_digitChars member
  nonempty := Numeral.digitChars_ne_nil n
  plain zero := by
    by_cases none : n = 0
    · rw [none]
      rfl
    · exact absurd zero (Numeral.head?_digitChars_ne none)

theorem Whole.readWhole (h : Whole ds) (stops : Stops rest) :
    readWhole (ds ++ rest) = some (ds, rest) := by
  have plain : ¬(ds.head? = some '0' ∧ 1 < ds.length) := fun ⟨zero, long⟩ =>
    absurd (h.plain zero) long.ne'
  simp only [Json.readWhole, takeDigits_of_stops h.digits stops]
  rw [if_neg]
  simpa [h.nonempty] using plain

/-- A number begins with a digit. -/
theorem exists_digit_of_readNumber {cs : List Char} {found : Value × List Char}
    (h : readNumber negative cs = some found) : ∃ d more, cs = d :: more ∧ isDigit d = true := by
  match cs with
  | [] => cases h
  | d :: more =>
      refine ⟨d, more, rfl, ?_⟩
      cases digit : isDigit d with
      | true => rfl
      | false =>
          have none : Json.readWhole (d :: more) = none := by
            simp [Json.readWhole, Numeral.takeDigits, digit]
          simp [readNumber, none] at h

theorem readLeaf_digit {d : Char} (digit : isDigit d = true) (more : List Char) :
    readLeaf (d :: more) = readNumber false (d :: more) := by
  rw [readLeaf.eq_def]
  split <;> first
    | (rename_i shape; rw [(List.cons.inj shape).1] at digit; exact absurd digit (by decide))
    | rfl

theorem readLeaf_minus_digit {d : Char} (digit : isDigit d = true) (more : List Char) :
    readLeaf ('-' :: d :: more) = readNumber true (d :: more) := by
  have other : d ≠ 'I' := by
    rintro rfl
    exact absurd digit (by decide)
  rw [readLeaf.eq_def]
  simp [other]

theorem readLeaf_of_readNumber {cs : List Char} {found : Value × List Char}
    (h : readNumber false cs = some found) : readLeaf cs = some found := by
  obtain ⟨d, more, rfl, digit⟩ := exists_digit_of_readNumber h
  rw [readLeaf_digit digit, h]

theorem readLeaf_minus_of_readNumber {cs : List Char} {found : Value × List Char}
    (h : readNumber true cs = some found) : readLeaf ('-' :: cs) = some found := by
  obtain ⟨d, more, rfl, digit⟩ := exists_digit_of_readNumber h
  rw [readLeaf_minus_digit digit, h]

theorem readNumber_int (whole : Whole ds) (short : ds.length + negative.toNat ≤ mostDigits)
    (delimited : Delimited rest) :
    readNumber negative (ds ++ rest) =
      some (.int (Binary64.negated negative (Numeral.value ds)), rest) := by
  simp only [readNumber, whole.readWhole delimited.stops, delimited.readFraction,
    delimited.takeExponent, bind, Option.bind, if_neg (not_lt.mpr short)]

/-- Only so many digits are read. -/
theorem Whole.short_of_readNumber {found : Value × List Char} (whole : Whole ds)
    (stops : Stops rest) (h : readNumber negative (ds ++ rest) = some found) :
    ds.length + negative.toNat ≤ mostDigits := by
  rcases Nat.lt_or_ge mostDigits (ds.length + negative.toNat) with long | short
  · simp [readNumber, whole.readWhole stops, long] at h
  · exact short

theorem readNumber_fraction (negative : Bool) {exponent : Option Int} (whole : Whole ds)
    (short : ds.length + negative.toNat ≤ mostDigits) (digits : ∀ c ∈ fs, isDigit c = true)
    (nonempty : fs ≠ []) (stops : Stops tail) (ends : takeExponent tail = some (exponent, rest)) :
    readNumber negative (ds ++ '.' :: (fs ++ tail)) =
      some (.real (toReal negative ds fs (exponent.getD 0)), rest) := by
  have point : Stops ('.' :: (fs ++ tail)) := by
    intro c member
    cases member
    rfl
  have fraction : readFraction ('.' :: (fs ++ tail)) = some (fs, tail) := by
    simp [readFraction, takeDigits_of_stops digits stops, nonempty]
  simp only [readNumber, whole.readWhole point, fraction, ends, bind, Option.bind,
    if_neg (not_lt.mpr short)]
  cases fs with
  | nil => exact absurd rfl nonempty
  | cons => rfl

theorem readNumber_exponent (negative : Bool) {k : Int} (whole : Whole ds)
    (short : ds.length + negative.toNat ≤ mostDigits) (stops : Stops tail)
    (none : readFraction tail = some ([], tail))
    (ends : takeExponent tail = some (some k, rest)) :
    readNumber negative (ds ++ tail) = some (.real (toReal negative ds [] k), rest) := by
  simp only [readNumber, whole.readWhole stops, none, ends, bind, Option.bind,
    if_neg (not_lt.mpr short), Option.getD_some]

theorem readLeaf_int {n : Int} (short : (Printed.intChars n).length ≤ mostDigits)
    (delimited : Delimited rest) : readLeaf (Printed.intChars n ++ rest) = some (.int n, rest) := by
  have whole := Whole.digitChars n.natAbs
  simp only [Printed.intChars] at short ⊢
  split at short
  next below =>
    rw [if_pos below]
    refine readLeaf_minus_of_readNumber ?_
    refine (readNumber_int whole (by simpa using short) delimited).trans ?_
    rw [Numeral.value_digitChars, Binary64.negated, if_pos rfl]
    congr 3
    omega
  next above =>
    rw [if_neg above]
    refine readLeaf_of_readNumber ((readNumber_int whole (by simpa using short) delimited).trans ?_)
    rw [Numeral.value_digitChars, Binary64.negated, if_neg Bool.false_ne_true]
    congr 3
    omega

/-- Integers of at most 4300 characters, the sign included. -/
def IntReadable (n : Int) : Prop := (Printed.intChars n).length ≤ mostDigits

instance (n : Int) : Decidable (IntReadable n) :=
  inferInstanceAs (Decidable ((Printed.intChars n).length ≤ mostDigits))

/-- These are the integers whose text is read as the integer itself. -/
theorem intReadable_iff {n : Int} :
    IntReadable n ↔ readLeaf (Printed.intChars n) = some (.int n, []) := by
  constructor
  · intro short
    have read := readLeaf_int short Delimited.nil
    rwa [List.append_nil] at read
  · intro h
    have whole := Whole.digitChars n.natAbs
    obtain ⟨d, more, shape⟩ := List.exists_cons_of_ne_nil whole.nonempty
    have digit := whole.digits d (shape ▸ List.mem_cons_self)
    simp only [IntReadable, Printed.intChars] at h ⊢
    split at h
    next below =>
      rw [shape, readLeaf_minus_digit digit, ← shape, ← List.append_nil (digitChars _)] at h
      rw [if_pos below]
      exact whole.short_of_readNumber Delimited.nil.stops h
    next above =>
      rw [shape, readLeaf_digit digit, ← shape, ← List.append_nil (digitChars _)] at h
      rw [if_neg above]
      exact whole.short_of_readNumber Delimited.nil.stops h

/-- A number with digits on both sides of its point. -/
structure Pointed (front fraction : List Char) (s : ShortDecimal) : Prop where
  whole : Whole front
  short : front.length ≤ 16
  digits : ∀ c ∈ fraction, isDigit c = true
  nonempty : fraction ≠ []
  value : (Numeral.value (front ++ fraction) * 10 ^ (-(fraction.length : Int)) : ℚ) = s.value

theorem pointed_before {s : ShortDecimal} (below : s.point ≤ 0) :
    Pointed ['0'] (List.replicate (-s.point).toNat '0' ++ digitChars s.digits) s where
  whole := Whole.zero
  short := by decide
  digits c member := by
    rcases List.mem_append.mp member with zero | digit
    · rw [(List.mem_replicate.mp zero).2]
      rfl
    · exact Numeral.isDigit_of_mem_digitChars digit
  nonempty := by simp [Numeral.digitChars_ne_nil]
  value := by
    have zero : Numeral.value ['0'] = 0 := rfl
    rw [Numeral.value_append, zero, Numeral.value_append, Numeral.value_zeros,
      Numeral.value_digitChars, Nat.zero_mul, Nat.zero_mul, Nat.zero_add, Nat.zero_add,
      List.length_append, List.length_replicate]
    simp only [ShortDecimal.value]
    congr 2
    have size : Binary64.decimalLength s.digits = (digitChars s.digits).length := rfl
    omega

theorem pointed_inside {s : ShortDecimal} (pos : s.digits ≠ 0) (above : 0 < s.point)
    (most : s.point ≤ 16) (inside : s.point.toNat < (digitChars s.digits).length) :
    Pointed ((digitChars s.digits).take s.point.toNat) ((digitChars s.digits).drop s.point.toNat)
      s where
  whole := by
    refine ⟨fun c member => Numeral.isDigit_of_mem_digitChars (List.mem_of_mem_take member), ?_, ?_⟩
    · rw [Ne, List.take_eq_nil_iff]
      rintro (zero | none)
      · omega
      · exact Numeral.digitChars_ne_nil s.digits none
    · intro zero
      rw [List.head?_take, if_neg (by omega)] at zero
      exact absurd zero (Numeral.head?_digitChars_ne pos)
  short := by
    rw [List.length_take]
    omega
  digits c member := Numeral.isDigit_of_mem_digitChars (List.mem_of_mem_drop member)
  nonempty := by
    rw [Ne, List.drop_eq_nil_iff]
    omega
  value := by
    rw [List.take_append_drop, Numeral.value_digitChars, List.length_drop]
    simp only [ShortDecimal.value]
    congr 2
    have size : Binary64.decimalLength s.digits = (digitChars s.digits).length := rfl
    omega

theorem pointed_after {s : ShortDecimal} (pos : s.digits ≠ 0) (most : s.point ≤ 16)
    (after : (digitChars s.digits).length ≤ s.point.toNat) :
    Pointed (digitChars s.digits ++
      List.replicate (s.point.toNat - (digitChars s.digits).length) '0') ['0'] s where
  whole := by
    refine ⟨fun c member => ?_, by simp [Numeral.digitChars_ne_nil], fun zero => ?_⟩
    · rcases List.mem_append.mp member with digit | zero
      · exact Numeral.isDigit_of_mem_digitChars digit
      · rw [(List.mem_replicate.mp zero).2]
        rfl
    · rw [List.head?_append_of_ne_nil _ (Numeral.digitChars_ne_nil _)] at zero
      exact absurd zero (Numeral.head?_digitChars_ne pos)
  short := by
    rw [List.length_append, List.length_replicate]
    omega
  digits := Whole.zero.digits
  nonempty := Whole.zero.nonempty
  value := by
    have zero : Numeral.value ['0'] = 0 := rfl
    have size : Binary64.decimalLength s.digits = (digitChars s.digits).length := rfl
    have ten : (10 : ℚ) ≠ 0 := by norm_num
    have long : 0 < (digitChars s.digits).length := Nat.length_toDigits_pos
    rw [Numeral.value_append, zero, Numeral.value_append, Numeral.value_zeros,
      Numeral.value_digitChars, List.length_replicate]
    simp only [ShortDecimal.value, List.length_singleton, Nat.add_zero]
    push_cast [cast_tenTo]
    rw [mul_assoc, mul_assoc, ← zpow_natCast, ← zpow_natCast, ← zpow_add₀ ten, ← zpow_add₀ ten]
    congr 2
    omega

theorem exists_pointed {s : ShortDecimal} (pos : s.digits ≠ 0) (most : s.point ≤ 16) :
    ∃ front fraction, RealLayout.positional (digitChars s.digits) s.point =
      front ++ '.' :: fraction ∧ Pointed front fraction s := by
  simp only [RealLayout.positional]
  split
  next below =>
    refine ⟨_, _, ?_, pointed_before below⟩
    simp
  split
  next inside => exact ⟨_, _, rfl, pointed_inside pos (by omega) most inside⟩
  next after =>
    refine ⟨_, _, ?_, pointed_after pos most (by omega)⟩
    simp

theorem readNumber_positional {s : ShortDecimal} (pos : s.digits ≠ 0) (most : s.point ≤ 16)
    (delimited : Delimited rest) : ∃ (digits : Nat) (exponent : Int),
      (digits * 10 ^ exponent : ℚ) = s.value ∧
      readNumber negative (RealLayout.positional (digitChars s.digits) s.point ++ rest) =
        some (.real (Binary64.ofDecimal negative digits exponent), rest) := by
  obtain ⟨front, fraction, shape, pointed⟩ := exists_pointed pos most
  have sign : negative.toNat ≤ 1 := Bool.toNat_le negative
  have short := pointed.short
  have read := readNumber_fraction negative pointed.whole
    (by simp only [mostDigits]; omega) pointed.digits pointed.nonempty delimited.stops
    delimited.takeExponent
  refine ⟨_, _, pointed.value, ?_⟩
  rw [shape, List.append_assoc, List.cons_append, read]
  simp only [toReal, Option.getD_none, zero_sub]

theorem takeExponent_exponentText (width : Nat) (k : Int) (stops : Stops rest) :
    takeExponent ('e' :: (RealLayout.exponentText width k ++ rest)) = some (some k, rest) := by
  have padded : ∀ c ∈ RealLayout.padLeft width (digitChars k.natAbs), isDigit c = true :=
    fun c member => Numeral.isDigit_of_mem_padLeft member
  have digits := takeDigits_of_stops padded stops
  have value := Numeral.value_padLeft width k.natAbs
  simp only [takeExponent, RealLayout.exponentText, List.cons_append, true_or, if_true]
  obtain ⟨d, more, shape⟩ := List.exists_cons_of_ne_nil
    (show RealLayout.padLeft width (digitChars k.natAbs) ≠ [] by
      simp [RealLayout.padLeft, Numeral.digitChars_ne_nil])
  rw [shape] at digits value ⊢
  by_cases below : k < 0
  · simp only [below, if_true, Numeral.takeSign, digits, value, Binary64.negated]
    congr 3
    omega
  · simp only [below, if_false, Numeral.takeSign, digits, value, Binary64.negated,
      Bool.false_eq_true]
    congr 3
    omega

theorem readNumber_scientific {s : ShortDecimal} (layout : RealLayout)
    (delimited : Delimited rest) : ∃ (digits : Nat) (exponent : Int),
      (digits * 10 ^ exponent : ℚ) = s.value ∧
      readNumber negative (layout.scientific (digitChars s.digits) s.point ++ rest) =
        some (.real (Binary64.ofDecimal negative digits exponent), rest) := by
  have size : Binary64.decimalLength s.digits = (digitChars s.digits).length := rfl
  have value := Numeral.value_digitChars s.digits
  have sign : negative.toNat ≤ 1 := Bool.toNat_le negative
  have ends := takeExponent_exponentText layout.exponentDigits (s.point - 1) delimited.stops
  have digits := fun c member => Numeral.isDigit_of_mem_digitChars (n := s.digits) (c := c) member
  have stops :
      Stops ('e' :: (RealLayout.exponentText layout.exponentDigits (s.point - 1) ++ rest)) := by
    intro c member
    cases member
    rfl
  simp only [RealLayout.scientific, ShortDecimal.value]
  generalize digitChars s.digits = ds at size value digits ⊢
  cases ds with
  | nil => exact absurd size (Binary64.decimalLength_pos s.digits).ne'
  | cons d tail =>
      cases tail with
      | nil =>
          have whole : Whole [d] := ⟨digits, List.cons_ne_nil _ _, fun _ => rfl⟩
          have read := readNumber_exponent negative whole
            (by simp only [List.length_singleton, mostDigits]; omega) stops rfl ends
          refine ⟨s.digits, s.point - 1, by rw [size]; rfl, ?_⟩
          rw [toReal, List.append_nil, value] at read
          simpa using read
      | cons e more =>
          have whole : Whole [d] :=
            ⟨fun c member => digits c (List.mem_cons.mpr (.inl (List.mem_singleton.mp member))),
              List.cons_ne_nil _ _, fun _ => rfl⟩
          have read := readNumber_fraction negative whole
            (by simp only [List.length_singleton, mostDigits]; omega)
            (fun c member => digits c (List.mem_cons_of_mem d member)) (List.cons_ne_nil e more)
            stops ends
          refine ⟨s.digits, s.point - 1 - (e :: more).length, ?_, ?_⟩
          · rw [size]
            congr 2
            simp only [List.length_cons]
            omega
          · have all : Numeral.value ([d] ++ e :: more) = s.digits := value
            rw [toReal, all] at read
            simpa using read

theorem readNumber_write (negative : Bool) {s : ShortDecimal} (pos : s.digits ≠ 0)
    (delimited : Delimited rest) :
    ∃ (digits : Nat) (exponent : Int), (digits * 10 ^ exponent : ℚ) = s.value ∧
      readNumber negative (RealLayout.json.write s ++ rest) =
        some (.real (Binary64.ofDecimal negative digits exponent), rest) := by
  simp only [RealLayout.write]
  split
  next bounds =>
    have most := bounds.2
    simp only [RealLayout.json] at most
    exact readNumber_positional pos (by omega) delimited
  next => exact readNumber_scientific RealLayout.json delimited

theorem readNumber_magnitude {m : Nat} {e : Int}
    (canonical : (Binary64.finite negative m e).Canonical) (delimited : Delimited rest) :
    readNumber negative ((if m = 0 then ['0', '.', '0'] else
      RealLayout.json.write (ShortDecimal.ofDouble m e)) ++ rest) =
        some (.real (.finite negative m e), rest) := by
  have sign : negative.toNat ≤ 1 := Bool.toNat_le negative
  split
  next zero =>
    have least : e = -1074 := by
      rcases canonical.2.2.2 with normal | least
      · rw [zero] at normal
        exact absurd normal (Nat.not_le.mpr (twoTo_pos 52))
      · exact least
    have read := readNumber_fraction negative Whole.zero
      (by simp only [List.length_singleton, mostDigits]; omega) Whole.zero.digits
      Whole.zero.nonempty delimited.stops delimited.takeExponent
    rw [zero, least]
    exact read
  next pos =>
    have rounds := ShortDecimal.ofDouble_rounds pos canonical.1 e
    have significant : (ShortDecimal.ofDouble m e).digits ≠ 0 := by
      intro zero
      have range := (rounds.range canonical pos).1
      rw [ShortDecimal.value, zero, Nat.cast_zero, zero_mul] at range
      exact absurd range (not_lt.mpr (by positivity))
    obtain ⟨digits, exponent, value, read⟩ := readNumber_write negative significant delimited
    rw [read, Binary64.ofDecimal_of_rounds canonical pos (value ▸ rounds)]

theorem readLeaf_real {m : Nat} {e : Int} (canonical : (Binary64.finite negative m e).Canonical)
    (delimited : Delimited rest) :
    readLeaf (writeReal (.finite negative m e) ++ rest) =
      some (.real (.finite negative m e), rest) := by
  have read := readNumber_magnitude canonical delimited
  simp only [writeReal, Binary64.write]
  cases negative with
  | true => exact readLeaf_minus_of_readNumber read
  | false => exact readLeaf_of_readNumber read

end ClientRegistry.Json
