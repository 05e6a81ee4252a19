import ClientRegistry.Proofs.Uri.Rules
import ClientRegistry.Uri.Address
import Mathlib.Data.List.GetD
import Mathlib.Tactic.IntervalCases

/-! Addresses in brackets. What passes the checks of an address of version 4, or of an address of
version 6 without a zone, is derived from the rule of this name. -/

open scoped Computability

namespace ClientRegistry.Uri

namespace Grammar

variable {w : List Char}

theorem mem_decOctet : w ∈ decOctet ↔
    (∃ a, isDigit a = true ∧ w = [a]) ∨
    (∃ a b, ('1' ≤ a ∧ a ≤ '9') ∧ isDigit b = true ∧ w = [a, b]) ∨
    (∃ b c, isDigit b = true ∧ isDigit c = true ∧ w = ['1', b, c]) ∨
    (∃ b c, ('0' ≤ b ∧ b ≤ '4') ∧ isDigit c = true ∧ w = ['2', b, c]) ∨
    ∃ c, ('0' ≤ c ∧ c ≤ '5') ∧ w = ['2', '5', c] := by
  simp only [decOctet, digit_eq, Language.mem_add, pow_two, or_assoc]
  refine or_congr Iff.rfl (or_congr ?_ (or_congr ?_ (or_congr ?_ ?_)))
  · constructor
    · rintro ⟨_, ⟨a, low, high, rfl⟩, _, ⟨b, hb, rfl⟩, rfl⟩
      exact ⟨a, b, ⟨low, high⟩, hb, rfl⟩
    · rintro ⟨a, b, ⟨low, high⟩, hb, rfl⟩
      exact ⟨[a], ⟨a, low, high, rfl⟩, [b], ⟨b, hb, rfl⟩, rfl⟩
  · constructor
    · rintro ⟨_, rfl, _, ⟨_, ⟨b, hb, rfl⟩, _, ⟨c, hc, rfl⟩, rfl⟩, rfl⟩
      exact ⟨b, c, hb, hc, rfl⟩
    · rintro ⟨b, c, hb, hc, rfl⟩
      exact ⟨['1'], rfl, [b, c], ⟨[b], ⟨b, hb, rfl⟩, [c], ⟨c, hc, rfl⟩, rfl⟩, rfl⟩
  · constructor
    · rintro ⟨_, ⟨_, rfl, _, ⟨b, low, high, rfl⟩, rfl⟩, _, ⟨c, hc, rfl⟩, rfl⟩
      exact ⟨b, c, ⟨low, high⟩, hc, rfl⟩
    · rintro ⟨b, c, ⟨low, high⟩, hc, rfl⟩
      exact ⟨['2', b], ⟨['2'], rfl, [b], ⟨b, low, high, rfl⟩, rfl⟩, [c], ⟨c, hc, rfl⟩, rfl⟩
  · constructor
    · rintro ⟨_, rfl, _, ⟨c, low, high, rfl⟩, rfl⟩
      exact ⟨c, ⟨low, high⟩, rfl⟩
    · rintro ⟨c, ⟨low, high⟩, rfl⟩
      exact ⟨['2', '5'], rfl, [c], ⟨c, low, high, rfl⟩, rfl⟩

/-- A number of at most 255 is one of the five alternatives of the rule. -/
theorem isOctet_iff : isOctet w = true ↔ w ∈ decOctet := by
  rw [mem_decOctet]
  match w with
  | [] => simp [isOctet]
  | [a] =>
      have one : isOctet [a] = true ↔ isDigit a = true := by
        simp [isOctet, Numeral.value, isDigit, le_iff_toNat_le, eq_iff_toNat_eq]
        omega
      simp [one]
  | [a, b] =>
      have two : isOctet [a, b] = true ↔ ('1' ≤ a ∧ a ≤ '9') ∧ isDigit b = true := by
        simp [isOctet, Numeral.value, isDigit, le_iff_toNat_le, eq_iff_toNat_eq]
        omega
      simp [two]
  | [a, b, c] =>
      have three : isOctet [a, b, c] = true ↔
          isDigit b = true ∧ isDigit c = true ∧ a = '1' ∨
          ('0' ≤ b ∧ b ≤ '4') ∧ isDigit c = true ∧ a = '2' ∨
          ('0' ≤ c ∧ c ≤ '5') ∧ a = '2' ∧ b = '5' := by
        simp [isOctet, Numeral.value, isDigit, le_iff_toNat_le, eq_iff_toNat_eq]
        omega
      simp [three]
  | a :: b :: c :: d :: rest => simp [isOctet]

theorem ipv4_sound (h : isIpv4 w = true) : w ∈ ipv4Address := by
  simp only [isIpv4, Bool.and_eq_true, beq_iff_eq, List.all_eq_true] at h
  obtain ⟨four, octets⟩ := h
  have joined := Text.join_splitAll '.' w
  match parts : Text.splitAll '.' w, four with
  | [a, b, c, d], _ =>
      simp only [parts, List.forall_mem_cons, isOctet_iff] at octets
      obtain ⟨ha, hb, hc, hd, _⟩ := octets
      rw [parts] at joined
      rw [← joined, ipv4Address]
      have dot : ['.'] ∈ word ['.'] := rfl
      have derived := Language.append_mem_mul (Language.append_mem_mul (Language.append_mem_mul
        (Language.append_mem_mul (Language.append_mem_mul (Language.append_mem_mul ha dot) hb) dot)
        hc) dot) hd
      simpa [List.intercalate_cons_cons] using derived

theorem flatten_mem_atMost {l : Language Char} {pieces : List (List Char)} {n : Nat}
    (each : ∀ piece ∈ pieces, piece ∈ l) (few : pieces.length ≤ n) :
    pieces.flatten ∈ atMost n l := by
  induction n generalizing pieces with
  | zero =>
      rw [List.length_eq_zero_iff.mp (Nat.le_zero.mp few)]
      exact Language.nil_mem_one
  | succ n ih =>
      rw [atMost, pow_succ']
      cases pieces with
      | nil =>
          have rest : [].flatten ∈ atMost n l := ih each (Nat.zero_le n)
          exact Language.append_mem_mul (mem_optional.mpr (.inl rfl)) rest
      | cons piece rest =>
          rw [List.forall_mem_cons] at each
          exact Language.append_mem_mul (mem_optional.mpr (.inr each.1))
            (ih each.2 (Nat.le_of_succ_le_succ few))

theorem flatten_mem_pow {l : Language Char} {pieces : List (List Char)}
    (each : ∀ piece ∈ pieces, piece ∈ l) : pieces.flatten ∈ l ^ pieces.length :=
  Language.mem_pow.mpr ⟨pieces, rfl, rfl, each⟩

theorem hextet_sound (h : isHextet w = true) : w ∈ h16 := by
  simp only [isHextet, Bool.and_eq_true, Bool.not_eq_true', List.all_eq_true, decide_eq_true_eq] at h
  obtain ⟨⟨ne, digits⟩, few⟩ := h
  cases w with
  | nil => cases ne
  | cons c rest =>
      rw [List.forall_mem_cons] at digits
      rw [h16, hexdig_eq]
      have one : [c] ∈ single isHexDigit := ⟨c, digits.1, rfl⟩
      have short : (rest.map fun d => [d]).length ≤ 3 := by
        rw [List.length_map]
        exact Nat.le_of_succ_le_succ few
      have pieces : (rest.map fun d => [d]).flatten ∈ atMost 3 (single isHexDigit) := by
        refine flatten_mem_atMost ?_ short
        intro piece member
        obtain ⟨d, hd, rfl⟩ := List.mem_map.mp member
        exact ⟨d, digits.2 d hd, rfl⟩
      have same : (rest.map fun d => [d]).flatten = rest := by simp [← List.flatMap_def]
      rw [same] at pieces
      exact Language.append_mem_mul one pieces

/-- At most so many groups in front of a double colon. -/
def leading : Nat → Language Char
  | 0 => 1
  | n + 1 => optional (atMost n h16Colon * h16)

/-- So many groups at the end of an address; an address of version 4 counts as two. -/
def trailing : Nat → Language Char
  | 0 => 1
  | 1 => h16
  | n + 2 => h16Colon ^ n * ls32

/-- The nine alternatives: eight groups, or no more than seven around a double colon. -/
theorem ipv6Address_eq : ipv6Address = trailing 8
    + leading 0 * word [':', ':'] * trailing 7 + leading 1 * word [':', ':'] * trailing 6
    + leading 2 * word [':', ':'] * trailing 5 + leading 3 * word [':', ':'] * trailing 4
    + leading 4 * word [':', ':'] * trailing 3 + leading 5 * word [':', ':'] * trailing 2
    + leading 6 * word [':', ':'] * trailing 1 + leading 7 * word [':', ':'] * trailing 0 := by
  simp only [ipv6Address, leading, trailing, mul_assoc, one_mul, mul_one, pow_one, pow_zero,
    atMost]

theorem mem_ipv6Address_of_groups {n : Nat} (few : n ≤ 7)
    (h : w ∈ leading (7 - n) * word [':', ':'] * trailing n) : w ∈ ipv6Address := by
  rw [ipv6Address_eq]
  simp only [Language.mem_add]
  interval_cases n <;> simp only [Nat.reduceSub, tsub_zero] at h <;> simp only [h, true_or, or_true]

/-- Parts joined by colons. -/
abbrev join (parts : List (List Char)) : List Char := [':'].intercalate parts

theorem join_append {a b : List (List Char)} (ha : a ≠ []) (hb : b ≠ []) :
    join (a ++ b) = join a ++ ':' :: join b := by
  induction a with
  | nil => exact absurd rfl ha
  | cons part rest ih =>
      cases rest with
      | nil =>
          cases b with
          | nil => exact absurd rfl hb
          | cons other more => simp [join, List.intercalate_cons_cons]
      | cons next rest =>
          have tail := ih (by simp)
          simp only [join, List.cons_append, List.intercalate_cons_cons] at tail ⊢
          rw [tail]
          simp

/-- An empty part between two others is a double colon. -/
theorem join_around {a b : List (List Char)} (ha : a ≠ []) (hb : b ≠ []) :
    join (a ++ [] :: b) = join a ++ [':', ':'] ++ join b := by
  have empty : join ([] :: b) = ':' :: join b := join_append (a := [[]]) (by simp) hb
  rw [join_append ha (by simp), empty, List.append_assoc]
  rfl

theorem join_concat (parts : List (List Char)) (final : List Char) :
    join (parts ++ [final]) = (parts.map (· ++ [':'])).flatten ++ final := by
  induction parts with
  | nil => simp [join]
  | cons part rest ih =>
      have apart := join_append (a := [part]) (b := rest ++ [final]) (by simp) (by simp)
      rw [List.singleton_append] at apart
      rw [List.cons_append, apart, ih]
      simp [join]

variable {parts : List (List Char)}

theorem colons_mem (groups : ∀ part ∈ parts, isHextet part = true) :
    ∀ piece ∈ parts.map (· ++ [':']), piece ∈ h16Colon := by
  intro piece member
  obtain ⟨part, hp, rfl⟩ := List.mem_map.mp member
  exact Language.append_mem_mul (hextet_sound (groups part hp)) (mem_word.mpr rfl)

theorem join_mem_leading {n : Nat} (groups : ∀ part ∈ parts, isHextet part = true)
    (few : parts.length ≤ n) : join parts ∈ leading n := by
  rcases List.eq_nil_or_concat' parts with rfl | ⟨init, final, rfl⟩
  · cases n with
    | zero => exact Language.nil_mem_one
    | succ n => exact mem_optional.mpr (.inl rfl)
  · rw [List.length_append, List.length_singleton] at few
    rw [List.forall_mem_append, List.forall_mem_singleton] at groups
    cases n with
    | zero => omega
    | succ n =>
        rw [join_concat]
        have colons := flatten_mem_atMost (n := n) (colons_mem groups.1) (by simpa using few)
        exact mem_optional.mpr (.inr (Language.append_mem_mul colons (hextet_sound groups.2)))

theorem join_mem_trailing_of_final {final : List Char} {n : Nat}
    (groups : ∀ part ∈ parts, isHextet part = true) (size : parts.length = n)
    (last : final ∈ ls32) : (parts.map (· ++ [':'])).flatten ++ final ∈ trailing (n + 2) := by
  have colons := flatten_mem_pow (colons_mem groups)
  rw [List.length_map, size] at colons
  exact Language.append_mem_mul colons last

theorem join_mem_trailing (groups : ∀ part ∈ parts, isHextet part = true) :
    join parts ∈ trailing parts.length := by
  rcases List.eq_nil_or_concat' parts with rfl | ⟨others, final, rfl⟩
  · exact Language.nil_mem_one
  · rw [List.forall_mem_append, List.forall_mem_singleton] at groups
    rcases List.eq_nil_or_concat' others with rfl | ⟨init, prior, rfl⟩
    · rw [List.nil_append, join, List.intercalate_singleton]
      exact hextet_sound groups.2
    · rw [List.forall_mem_append, List.forall_mem_singleton] at groups
      have pair : prior ++ [':'] ++ final ∈ ls32 := by
        refine (Language.mem_add _ _ _).mpr (.inl ?_)
        exact Language.append_mem_mul (Language.append_mem_mul (hextet_sound groups.1.2)
          (mem_word.mpr rfl)) (hextet_sound groups.2)
      have derived := join_mem_trailing_of_final groups.1.1 rfl pair
      rw [join_concat]
      simpa using derived

theorem join_mem_trailing_ipv4 {final : List Char}
    (groups : ∀ part ∈ parts, isHextet part = true) (last : isIpv4 final = true) :
    join (parts ++ [final]) ∈ trailing (parts.length + 2) := by
  rw [join_concat]
  exact join_mem_trailing_of_final groups rfl ((Language.mem_add _ _ _).mpr (.inr (ipv4_sound last)))

/-- Parts as they are spelled and as they are counted: an address of version 4 at the end counts
as two groups. -/
inductive Counted : List (List Char) → List (List Char) → Prop
  | groups (parts : List (List Char)) : Counted parts parts
  | ipv4 (parts : List (List Char)) {final : List Char} (last : isIpv4 final = true) :
      Counted (parts ++ [final]) (parts ++ [['0'], ['0']])

theorem counted_of_expandIpv4 {counted : List (List Char)}
    (h : expandIpv4 parts = some counted) : Counted parts counted := by
  rcases List.eq_nil_or_concat' parts with rfl | ⟨init, final, rfl⟩
  · cases h
    exact .groups []
  · simp only [expandIpv4, List.getLast?_concat, List.dropLast_concat] at h
    split at h
    · split at h
      · next last =>
          cases h
          exact .ipv4 init last
      · cases h
    · cases h
      exact .groups _

theorem Counted.join_mem {counted : List (List Char)} (h : Counted parts counted)
    (hextets : ∀ part ∈ counted, isHextet part = true) : join parts ∈ trailing counted.length := by
  cases h with
  | groups => exact join_mem_trailing hextets
  | ipv4 init last =>
      rw [List.forall_mem_append] at hextets
      rw [List.length_append]
      exact join_mem_trailing_ipv4 hextets.1 last

/-- The parts after a double colon. -/
theorem Counted.join_side {counted after : List (List Char)} (h : Counted parts counted)
    (sided : side counted = some after) : join parts ∈ trailing after.length := by
  simp only [side] at sided
  split at sided
  · next single =>
      cases sided
      rw [beq_iff_eq] at single
      cases h with
      | groups =>
          rw [single]
          exact Language.nil_mem_one
      | ipv4 init last => simpa using congrArg List.length single
  · split at sided
    · next hextets =>
        cases sided
        exact h.join_mem (List.all_eq_true.mp hextets)
    · cases sided

theorem join_leading_of_side {before : List (List Char)} {n : Nat}
    (sided : side parts = some before) (few : before.length ≤ n) : join parts ∈ leading n := by
  simp only [side] at sided
  split at sided
  · next single =>
      rw [beq_iff_eq] at single
      have empty : join [] ∈ leading n := join_mem_leading (by simp) (Nat.zero_le n)
      rw [single]
      exact empty
  · split at sided
    · next hextets =>
        cases sided
        exact join_mem_leading (List.all_eq_true.mp hextets) few
    · cases sided

theorem eq_take_append {i : Nat} (inside : i < parts.length) (empty : parts.getD i [] = []) :
    parts = parts.take i ++ [] :: parts.drop (i + 1) := by
  have here : parts[i] = [] := by rwa [List.getD_eq_getElem _ _ inside] at empty
  conv_lhs => rw [← List.take_append_drop i parts, List.drop_eq_getElem_cons inside, here]

/-- An empty part between the ends splits the parts as it splits their counted form. -/
theorem Counted.split {counted : List (List Char)} (h : Counted parts counted) {i : Nat}
    (inside : i + 1 < counted.length) (empty : counted.getD i [] = []) :
    ∃ after, parts = counted.take i ++ [] :: after ∧ after ≠ [] ∧
      Counted after (counted.drop (i + 1)) := by
  cases h with
  | groups =>
      refine ⟨parts.drop (i + 1), eq_take_append (Nat.lt_of_succ_lt inside) empty, ?_, .groups _⟩
      exact fun none => absurd (List.drop_eq_nil_iff.mp none) (by omega)
  | ipv4 init last =>
      have early : i < init.length := by
        by_contra late
        rw [List.length_append] at inside
        simp only [List.length_cons, List.length_nil] at inside
        have first : i = init.length := by omega
        rw [first, List.getD_append_right _ _ _ _ (Nat.le_refl _), Nat.sub_self] at empty
        cases empty
      rw [List.getD_append _ _ _ _ early] at empty
      rw [List.take_append_of_le_length early.le, List.drop_append_of_le_length early]
      refine ⟨init.drop (i + 1) ++ [_], ?_, by simp, .ipv4 _ last⟩
      conv_lhs => rw [eq_take_append early empty]
      simp

theorem skipIndex_eq_some {i : Nat} (h : skipIndex parts = some (some i)) :
    1 ≤ i ∧ i + 1 < parts.length ∧ parts.getD i [] = [] := by
  simp only [skipIndex] at h
  split at h
  · cases h
  · next inner =>
      cases h
      have member : i ∈ (List.range parts.length).filter fun i =>
          1 ≤ i && i + 1 < parts.length && (parts.getD i []).isEmpty := by
        rw [inner]
        exact List.mem_singleton_self i
      rw [List.mem_filter] at member
      simpa [and_assoc] using member.2
  · cases h

/-- Without a zone. -/
theorem ipv6_sound (h : isIpv6 w = true) (absent : '%' ∉ w) : w ∈ ipv6Address := by
  simp only [isIpv6, Text.cut_of_notMem absent, Bool.and_eq_true] at h
  obtain ⟨_, counted⟩ := h
  rw [← Text.join_splitAll ':' w]
  generalize Text.splitAll ':' w = parts at counted ⊢
  split at counted
  · next ps expanded =>
      have spelled := counted_of_expandIpv4 expanded
      rw [Bool.and_eq_true] at counted
      have valid := counted.2
      simp only [isIpv6Parts] at valid
      split at valid
      · cases valid
      · rw [Bool.and_eq_true, beq_iff_eq] at valid
        have eight := spelled.join_mem (List.all_eq_true.mp valid.2)
        rw [valid.1] at eight
        rw [ipv6Address_eq]
        simp only [Language.mem_add, eight, true_or]
      · next i skip =>
          obtain ⟨low, inside, empty⟩ := skipIndex_eq_some skip
          obtain ⟨after, shape, ne, counted'⟩ := spelled.split inside empty
          split at valid
          · next before behind sided sided' =>
              have few : before.length + behind.length ≤ 7 := of_decide_eq_true valid
              have first : ps.take i ≠ [] := by
                rw [Ne, List.take_eq_nil_iff]
                rintro (none | none)
                · omega
                · simp [none] at inside
              have joined := join_around first ne
              rw [← shape, join] at joined
              rw [joined]
              refine mem_ipv6Address_of_groups (n := behind.length) (by omega) ?_
              have left := join_leading_of_side (n := 7 - behind.length) sided (by omega)
              have right := counted'.join_side sided'
              exact Language.append_mem_mul (Language.append_mem_mul left (mem_word.mpr rfl)) right
          · cases valid
  · cases counted

theorem future_sound (h : isFutureAddress w = true) (chars : ∀ c ∈ w, isAtom [':'] c = true) :
    w ∈ ipvFuture := by
  unfold isFutureAddress at h
  split at h
  · next rest =>
      simp only [Bool.and_eq_true, Bool.not_eq_true', List.isEmpty_eq_false_iff] at h
      obtain ⟨some, final⟩ := h
      generalize digits : rest.takeWhile isHexDigit = version at some final
      split at final
      · next c more tail =>
          have shape : rest = version ++ '.' :: c :: more := by
            rw [← tail, ← digits]
            exact (List.prefix_iff_eq_append.mp (List.takeWhile_prefix isHexDigit)).symm
          have hex : ∀ d ∈ version, isHexDigit d = true := by
            rw [← digits]
            exact List.all_eq_true.mp List.all_takeWhile
          have numbered : version ∈ oneOrMore hexdig := by
            rw [hexdig_eq, mem_oneOrMore (by simp [mem_single])]
            exact ⟨mem_single_star.mpr hex, some⟩
          have named : c :: more ∈ oneOrMore (unreserved + subDelims + word [':']) := by
            rw [unreserved_eq, subDelims_eq, word_eq, single_add, single_add,
              mem_oneOrMore (by simp [mem_single]), mem_single_star]
            refine ⟨fun d member => chars d ?_, by simp⟩
            rw [shape]
            simp only [List.mem_cons, List.mem_append] at member ⊢
            exact .inr (.inr (.inr member))
          have letter : ['v'] ∈ anyOf ['v', 'V'] := ⟨'v', by simp, rfl⟩
          have derived := Language.append_mem_mul (Language.append_mem_mul
            (Language.append_mem_mul letter numbered) (mem_word (v := ['.']).mpr rfl)) named
          rw [shape]
          simpa [ipvFuture] using derived
      · cases final
  · cases h

theorem literal_sound (h : isAddressLiteral w = true) (chars : ∀ c ∈ w, isAtom [':'] c = true) :
    w ∈ ipv6Address + ipvFuture := by
  simp only [isAddressLiteral] at h
  split at h
  · exact (Language.mem_add _ _ _).mpr (.inr (future_sound h chars))
  · have absent : '%' ∉ w := fun member =>
      absurd (chars '%' member) (by rw [isAtom_percent (by decide)]; decide)
    exact (Language.mem_add _ _ _).mpr (.inl (ipv6_sound h absent))

theorem within_hexdig : Within (isAtom [':']) hexdig := by
  rw [hexdig_eq]
  exact within_single fun _ => isAtom_of_isHexDigit [':']

theorem within_decOctet : Within (isAtom [':']) decOctet := by
  intro w h c member
  have octet := isOctet_iff.mpr h
  simp only [isOctet, Bool.and_eq_true, List.all_eq_true] at octet
  obtain ⟨⟨⟨⟨_, digits⟩, _⟩, _⟩, _⟩ := octet
  refine isAtom_of_isHexDigit [':'] ?_
  simp only [isHexDigit, digits c member, Bool.true_or]

theorem within_ipv4Address : Within (isAtom [':']) ipv4Address := by
  have dot : Within (isAtom [':']) (word ['.']) := within_word (by decide)
  exact within_mul (within_mul (within_mul (within_mul (within_mul (within_mul within_decOctet dot)
    within_decOctet) dot) within_decOctet) dot) within_decOctet

theorem within_h16 : Within (isAtom [':']) h16 :=
  within_mul within_hexdig (within_atMost within_hexdig 3)

theorem within_h16Colon : Within (isAtom [':']) h16Colon :=
  within_mul within_h16 (within_word (by decide))

theorem within_ls32 : Within (isAtom [':']) ls32 :=
  within_add (within_mul within_h16Colon within_h16) within_ipv4Address

theorem within_leading (n : Nat) : Within (isAtom [':']) (leading n) := by
  cases n with
  | zero => exact within_one
  | succ n => exact within_optional (within_mul (within_atMost within_h16Colon n) within_h16)

theorem within_trailing (n : Nat) : Within (isAtom [':']) (trailing n) := by
  match n with
  | 0 => exact within_one
  | 1 => exact within_h16
  | n + 2 => exact within_mul (within_pow within_h16Colon n) within_ls32

theorem within_ipv6Address : Within (isAtom [':']) ipv6Address := by
  have around : ∀ m n, Within (isAtom [':']) (leading m * word [':', ':'] * trailing n) :=
    fun m n => within_mul (within_mul (within_leading m) (within_word (by decide)))
      (within_trailing n)
  rw [ipv6Address_eq]
  repeat' apply within_add
  all_goals first
    | exact within_trailing _
    | exact around _ _

theorem within_ipvFuture : Within (isAtom [':']) ipvFuture := by
  have letter : Within (isAtom [':']) (anyOf ['v', 'V']) := by
    rw [anyOf_eq]
    exact within_single (by simp; decide)
  have named : Within (isAtom [':']) (unreserved + subDelims + word [':']) := by
    rw [unreserved_eq, subDelims_eq, word_eq, single_add, single_add]
    exact within_single fun _ h => h
  exact within_mul (within_mul (within_mul letter (within_oneOrMore within_hexdig))
    (within_word (by decide))) (within_oneOrMore named)

end Grammar

end ClientRegistry.Uri
