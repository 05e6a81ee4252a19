import ClientRegistry.Proofs.Uri.Address

/-! Every address that the grammar derives passes the checks, with two departures of the checks
in mind: an address of a future version is spelled with a small letter, and an address of version
6 has no zone. -/

open scoped Computability

namespace ClientRegistry.Uri

namespace Grammar

variable {l : Language Char} {w : List Char} {parts counted : List (List Char)}

theorem notMem_join {d : Char} (plain : d ≠ ':') (absent : ∀ part ∈ parts, d ∉ part) :
    d ∉ join parts := by
  induction parts with
  | nil => simp [join]
  | cons part rest ih =>
      rw [List.forall_mem_cons] at absent
      cases rest with
      | nil => simpa [join] using absent.1
      | cons next more =>
          have tail := ih absent.2
          rw [join, List.intercalate_cons_cons]
          simp only [List.mem_append, List.mem_singleton, not_or]
          exact ⟨⟨absent.1, plain⟩, tail⟩

theorem forall_isDigit_of_mem_decOctet (h : w ∈ decOctet) : ∀ c ∈ w, isDigit c = true := by
  have octet := isOctet_iff.mpr h
  simp only [isOctet, Bool.and_eq_true, List.all_eq_true] at octet
  exact octet.1.1.1.2

theorem ipv4_complete (h : w ∈ ipv4Address) : isIpv4 w = true := by
  obtain ⟨_, ⟨_, ⟨_, ⟨_, ⟨_, ⟨a, ha, _, rfl, rfl⟩, b, hb, rfl⟩, _, rfl, rfl⟩, c, hc, rfl⟩, _, rfl,
    rfl⟩, d, hd, rfl⟩ := h
  have octets : ∀ part ∈ [a, b, c, d], part ∈ decOctet := by
    simp only [List.forall_mem_cons]
    exact ⟨ha, hb, hc, hd, by simp⟩
  have absent : ∀ part ∈ [a, b, c, d], '.' ∉ part := by
    intro part member dot
    exact absurd (forall_isDigit_of_mem_decOctet (octets part member) '.' dot) (by decide)
  have joined : ['.'].intercalate [a, b, c, d] =
      a ++ ['.'] ++ b ++ ['.'] ++ c ++ ['.'] ++ d := by
    simp [List.intercalate_cons_cons]
  have split : Text.splitAll '.' (['.'].intercalate [a, b, c, d]) = [a, b, c, d] :=
    Text.splitAll_join (by simp) absent
  rw [joined] at split
  change isIpv4 (a ++ ['.'] ++ b ++ ['.'] ++ c ++ ['.'] ++ d) = true
  simp only [isIpv4, split, Bool.and_eq_true, List.all_eq_true, isOctet_iff]
  exact ⟨rfl, octets⟩

theorem dot_mem_of_isIpv4 (h : isIpv4 w = true) : '.' ∈ w := by
  by_contra absent
  simp [isIpv4, Text.splitAll_of_notMem absent] at h

/-- The characters of an address of version 4. -/
theorem notMem_of_isIpv4 (h : isIpv4 w = true) {d : Char} (plain : d ≠ '.')
    (other : isDigit d = false) : d ∉ w := by
  have digits : Within isDigit decOctet := fun _ derived => forall_isDigit_of_mem_decOctet derived
  have octet : Within (fun c => isDigit c || c == '.') decOctet :=
    within_mono digits fun c hc => by simp [hc]
  have dot : Within (fun c => isDigit c || c == '.') (word ['.']) := within_word (by decide)
  have address : Within (fun c => isDigit c || c == '.') ipv4Address :=
    within_mul (within_mul (within_mul (within_mul (within_mul (within_mul octet dot) octet) dot)
      octet) dot) octet
  exact notMem_of_within address (ipv4_sound h) (by simp [plain, other])

theorem exists_pieces_of_mem_atMost {n : Nat} (h : w ∈ atMost n l) :
    ∃ pieces : List (List Char), w = pieces.flatten ∧ pieces.length ≤ n ∧
      ∀ piece ∈ pieces, piece ∈ l := by
  induction n generalizing w with
  | zero => exact ⟨[], by simpa [atMost] using h, Nat.le_refl 0, by simp⟩
  | succ n ih =>
      rw [atMost, pow_succ'] at h
      obtain ⟨first, opening, rest, more, rfl⟩ := Language.mem_mul.mp h
      obtain ⟨pieces, rfl, few, each⟩ := ih more
      rcases mem_optional.mp opening with rfl | piece
      · exact ⟨pieces, rfl, Nat.le_succ_of_le few, each⟩
      · exact ⟨first :: pieces, rfl, Nat.succ_le_succ few, List.forall_mem_cons.mpr ⟨piece, each⟩⟩

theorem hextet_complete (h : w ∈ h16) : isHextet w = true := by
  rw [h16, hexdig_eq] at h
  obtain ⟨_, ⟨c, hc, rfl⟩, rest, more, rfl⟩ := h
  obtain ⟨pieces, rfl, few, each⟩ := exists_pieces_of_mem_atMost more
  have ones : pieces = pieces.flatten.map fun d => [d] := by
    clear few more
    induction pieces with
    | nil => rfl
    | cons piece others ih =>
        rw [List.forall_mem_cons] at each
        obtain ⟨d, _, rfl⟩ := each.1
        simpa using ih each.2
  have digits : ∀ d ∈ pieces.flatten, isHexDigit d = true := by
    intro d member
    have piece : [d] ∈ pieces := by
      rw [ones]
      exact List.mem_map.mpr ⟨d, member, rfl⟩
    obtain ⟨e, he, same⟩ := each _ piece
    cases same
    exact he
  have short : pieces.flatten.length ≤ 3 := by
    rw [ones, List.length_map] at few
    exact few
  simp only [isHextet, Bool.and_eq_true, List.all_eq_true, decide_eq_true_eq]
  refine ⟨⟨rfl, ?_⟩, ?_⟩
  · simpa [hc] using digits
  · exact Nat.succ_le_succ short

theorem notMem_of_isHextet (h : isHextet w = true) {d : Char} (other : isHexDigit d = false) :
    d ∉ w := by
  simp only [isHextet, Bool.and_eq_true, List.all_eq_true] at h
  intro member
  rw [h.1.2 d member] at other
  cases other

theorem ne_nil_of_isHextet (h : isHextet w = true) : w ≠ [] := by
  rintro rfl
  cases h

theorem exists_groups_of_colons {pieces : List (List Char)}
    (each : ∀ piece ∈ pieces, piece ∈ h16Colon) :
    ∃ groups : List (List Char), pieces = groups.map (· ++ [':']) ∧
      ∀ group ∈ groups, isHextet group = true := by
  induction pieces with
  | nil => exact ⟨[], rfl, by simp⟩
  | cons piece rest ih =>
      rw [List.forall_mem_cons] at each
      obtain ⟨group, derived, _, rfl, rfl⟩ := each.1
      obtain ⟨groups, rfl, hextets⟩ := ih each.2
      exact ⟨group :: groups, rfl, List.forall_mem_cons.mpr ⟨hextet_complete derived, hextets⟩⟩

theorem exists_parts_of_mem_leading {n : Nat} (h : w ∈ leading n) :
    ∃ groups, w = join groups ∧ groups.length ≤ n ∧ ∀ group ∈ groups, isHextet group = true := by
  cases n with
  | zero => exact ⟨[], by simpa [leading, join] using h, Nat.le_refl 0, by simp⟩
  | succ n =>
      rcases mem_optional.mp h with rfl | ⟨_, more, final, last, rfl⟩
      · exact ⟨[], rfl, Nat.zero_le _, by simp⟩
      · obtain ⟨pieces, rfl, few, each⟩ := exists_pieces_of_mem_atMost more
        obtain ⟨groups, rfl, hextets⟩ := exists_groups_of_colons each
        refine ⟨groups ++ [final], (join_concat groups final).symm, by simpa using few, ?_⟩
        exact List.forall_mem_append.mpr ⟨hextets, by simpa using hextet_complete last⟩

theorem exists_parts_of_mem_trailing {n : Nat} (h : w ∈ trailing n) :
    ∃ parts counted, w = join parts ∧ Counted parts counted ∧ counted.length = n ∧
      ∀ part ∈ counted, isHextet part = true := by
  match n with
  | 0 => exact ⟨[], [], by simpa [trailing, join] using h, .groups [], rfl, by simp⟩
  | 1 => exact ⟨[w], [w], by simp [join], .groups _, rfl, by simpa using hextet_complete h⟩
  | n + 2 =>
      obtain ⟨front, more, final, last, rfl⟩ := Language.mem_mul.mp h
      obtain ⟨pieces, rfl, size, each⟩ := Language.mem_pow.mp more
      obtain ⟨groups, rfl, hextets⟩ := exists_groups_of_colons each
      rw [List.length_map] at size
      rcases (Language.mem_add _ _ _).mp last with ⟨_, ⟨a, ha, _, rfl, rfl⟩, b, hb, rfl⟩ | address
      · refine ⟨groups ++ [a, b], groups ++ [a, b], ?_, .groups _, by simp [size], ?_⟩
        · have joined := join_concat (groups ++ [a]) b
          simpa using joined.symm
        · refine List.forall_mem_append.mpr ⟨hextets, ?_⟩
          simpa using ⟨hextet_complete ha, hextet_complete hb⟩
      · refine ⟨groups ++ [final], groups ++ [['0'], ['0']], (join_concat groups final).symm,
          .ipv4 groups (ipv4_complete address), by simp [size], ?_⟩
        exact List.forall_mem_append.mpr ⟨hextets, by simpa using (by decide : isHextet ['0'] = true)⟩

/-- The parts of one side of a double colon: an empty side is one empty part. -/
def sideParts (parts : List (List Char)) : List (List Char) :=
  if parts = [] then [[]] else parts

theorem sideParts_ne_nil (parts : List (List Char)) : sideParts parts ≠ [] := by
  unfold sideParts
  split
  · simp
  · assumption

theorem join_sideParts (parts : List (List Char)) : join (sideParts parts) = join parts := by
  unfold sideParts
  split
  · next empty => simp [empty, join]
  · rfl

theorem length_sideParts (parts : List (List Char)) :
    (sideParts parts).length = max 1 parts.length := by
  unfold sideParts
  split
  · next empty => simp [empty]
  · next some =>
      have size := List.length_pos_iff.mpr some
      omega

theorem side_sideParts (hextets : ∀ part ∈ counted, isHextet part = true) :
    side (sideParts counted) = some counted := by
  unfold sideParts
  split
  · next empty => simp [empty, side]
  · have ne : ¬(counted == [[]]) = true := by
      intro same
      rw [eq_of_beq same] at hextets
      exact ne_nil_of_isHextet (hextets [] (by simp)) rfl
    simp only [side, ne, List.all_eq_true.mpr hextets, if_true, if_false, Bool.false_eq_true]

/-- Only the part at one end of a side can be empty, and then it is the whole side. -/
theorem getD_sideParts_ne_nil (hextets : ∀ part ∈ counted, isHextet part = true) {i : Nat}
    (inside : i < counted.length) : (sideParts counted).getD i [] ≠ [] := by
  have some : counted ≠ [] := List.ne_nil_of_length_pos (Nat.zero_lt_of_lt inside)
  rw [sideParts, if_neg some, List.getD_eq_getElem _ _ inside]
  exact ne_nil_of_isHextet (hextets _ (List.getElem_mem inside))

theorem Counted.sides (h : Counted parts counted) :
    Counted (sideParts parts) (sideParts counted) := by
  cases h with
  | groups => exact .groups _
  | ipv4 init last => simpa [sideParts] using Counted.ipv4 init last

theorem Counted.append (front : List (List Char)) (h : Counted parts counted) :
    Counted (front ++ parts) (front ++ counted) := by
  cases h with
  | groups => exact .groups _
  | ipv4 init last => simpa using Counted.ipv4 (front ++ init) last

theorem Counted.length_le (h : Counted parts counted) :
    parts.length ≤ counted.length ∧ counted.length ≤ parts.length + 1 := by
  cases h with
  | groups => omega
  | ipv4 init last => simp

/-- No part holds a colon or a letter that is no digit. -/
theorem Counted.notMem (h : Counted parts counted)
    (groups : ∀ part ∈ counted, part = [] ∨ isHextet part = true) {d : Char} (plain : d ≠ '.')
    (other : isHexDigit d = false) : ∀ part ∈ parts, d ∉ part := by
  have apart : ∀ part, part = [] ∨ isHextet part = true → d ∉ part := by
    rintro part (rfl | hextet)
    · simp
    · exact notMem_of_isHextet hextet other
  cases h with
  | groups => exact fun part member => apart part (groups part member)
  | ipv4 init last =>
      have digit : isDigit d = false := by
        simp only [isHexDigit, Bool.or_eq_false_iff] at other
        exact other.1.1
      rw [List.forall_mem_append] at groups ⊢
      exact ⟨fun part member => apart part (groups.1 part member),
        by simpa using notMem_of_isIpv4 last plain digit⟩

theorem Counted.expandIpv4 (h : Counted parts counted)
    (groups : ∀ part ∈ counted, part = [] ∨ isHextet part = true) :
    Uri.expandIpv4 parts = some counted := by
  cases h with
  | groups =>
      rcases List.eq_nil_or_concat' parts with rfl | ⟨init, final, rfl⟩
      · rfl
      · have plain : '.' ∉ final := by
          rcases groups final (by simp) with rfl | hextet
          · simp
          · exact notMem_of_isHextet hextet (by decide)
        simp [Uri.expandIpv4, plain]
  | ipv4 init last => simp [Uri.expandIpv4, dot_mem_of_isIpv4 last, last]

theorem isIpv6_of_parts (h : Counted parts counted)
    (groups : ∀ part ∈ counted, part = [] ∨ isHextet part = true) (many : 3 ≤ parts.length)
    (few : counted.length ≤ 9) (valid : isIpv6Parts counted = true) : isIpv6 (join parts) = true := by
  have some : parts ≠ [] := List.ne_nil_of_length_pos (by omega)
  have percent : '%' ∉ join parts :=
    notMem_join (by decide) (h.notMem groups (by decide) (by decide))
  have split : Text.splitAll ':' (join parts) = parts :=
    Text.splitAll_join some (h.notMem groups (by decide) (by decide))
  simp only [isIpv6, Text.cut_of_notMem percent, split, h.expandIpv4 groups, valid, many, few,
    decide_true, Bool.and_self]

theorem skipIndex_of_hextets (hextets : ∀ part ∈ counted, isHextet part = true) :
    skipIndex counted = some none := by
  have none : (List.range counted.length).filter (fun i =>
      1 ≤ i && i + 1 < counted.length && (counted.getD i []).isEmpty) = [] := by
    rw [List.filter_eq_nil_iff]
    intro i member
    have inside := List.mem_range.mp member
    have ne := ne_nil_of_isHextet (hextets _ (List.getElem_mem inside))
    rw [List.getD_eq_getElem _ _ inside]
    simp [ne]
  simp only [skipIndex, none]

/-- One number of a range alone has a property. -/
theorem filter_range_eq_singleton {n i : Nat} {p : Nat → Bool} (inside : i < n) (here : p i = true)
    (only : ∀ j < n, p j = true → j = i) : (List.range n).filter p = [i] := by
  have same : (List.range n).filter p = (List.range n).filter (· == i) := by
    refine List.filter_congr fun j member => ?_
    rw [Bool.eq_iff_iff, beq_iff_eq]
    exact ⟨only j (List.mem_range.mp member), fun eq => eq ▸ here⟩
  rw [same, List.filter_beq, List.count_eq_one_of_mem List.nodup_range (List.mem_range.mpr inside)]
  rfl

theorem skipIndex_around {before after : List (List Char)}
    (first : ∀ part ∈ before, isHextet part = true) (last : ∀ part ∈ after, isHextet part = true) :
    skipIndex (sideParts before ++ [] :: sideParts after) =
      some (some (sideParts before).length) := by
  have sizes := And.intro (length_sideParts before) (length_sideParts after)
  have single : (List.range (sideParts before ++ [] :: sideParts after).length).filter (fun i =>
      1 ≤ i && i + 1 < (sideParts before ++ [] :: sideParts after).length &&
        ((sideParts before ++ [] :: sideParts after).getD i []).isEmpty) =
      [(sideParts before).length] := by
    refine filter_range_eq_singleton ?_ ?_ ?_
    · simp
    · have lengths := sizes
      simp
      omega
    · intro i inside empty
      simp only [Bool.and_eq_true, decide_eq_true_eq, List.isEmpty_iff, List.length_append,
        List.length_cons] at inside empty
      obtain ⟨⟨low, high⟩, empty⟩ := empty
      rcases Nat.lt_trichotomy i (sideParts before).length with left | here | right
      · rw [List.getD_append _ _ _ _ left] at empty
        exact absurd empty (getD_sideParts_ne_nil first (by omega))
      · exact here
      · rw [List.getD_append_right _ _ _ _ right.le] at empty
        obtain ⟨j, place⟩ := Nat.exists_eq_add_of_lt right
        have offset : i - (sideParts before).length = j + 1 := by omega
        rw [offset, List.getD_cons_succ] at empty
        exact absurd empty (getD_sideParts_ne_nil last (by omega))
  simp only [skipIndex, single]

theorem isIpv6Parts_around {before after : List (List Char)}
    (first : ∀ part ∈ before, isHextet part = true) (last : ∀ part ∈ after, isHextet part = true)
    (few : before.length + after.length ≤ 7) :
    isIpv6Parts (sideParts before ++ [] :: sideParts after) = true := by
  have front : (sideParts before ++ [] :: sideParts after).take (sideParts before).length =
      sideParts before := by simp
  have back : (sideParts before ++ [] :: sideParts after).drop ((sideParts before).length + 1) =
      sideParts after := by simp
  simp only [isIpv6Parts, skipIndex_around first last, front, back, side_sideParts first,
    side_sideParts last, few, decide_true]

theorem exists_groups_of_mem_ipv6Address (h : w ∈ ipv6Address) :
    w ∈ trailing 8 ∨ ∃ n ≤ 7, w ∈ leading (7 - n) * word [':', ':'] * trailing n := by
  rw [ipv6Address_eq] at h
  simp only [Language.mem_add] at h
  rcases h with (((((((h | h) | h) | h) | h) | h) | h) | h) | h
  · exact .inl h
  · exact .inr ⟨7, by omega, h⟩
  · exact .inr ⟨6, by omega, h⟩
  · exact .inr ⟨5, by omega, h⟩
  · exact .inr ⟨4, by omega, h⟩
  · exact .inr ⟨3, by omega, h⟩
  · exact .inr ⟨2, by omega, h⟩
  · exact .inr ⟨1, by omega, h⟩
  · exact .inr ⟨0, by omega, h⟩

/-- An address of version 6 is its parts joined, which pass the checks; none begins with a `v`. -/
theorem ipv6_complete (h : w ∈ ipv6Address) : isIpv6 w = true ∧ 'v' ∉ w := by
  rcases exists_groups_of_mem_ipv6Address h with eight | ⟨n, small, around⟩
  · obtain ⟨parts, counted, rfl, spelled, size, hextets⟩ := exists_parts_of_mem_trailing eight
    have lengths := spelled.length_le
    have groups : ∀ part ∈ counted, part = [] ∨ isHextet part = true :=
      fun part member => .inr (hextets part member)
    refine ⟨isIpv6_of_parts spelled groups (by omega) (by omega) ?_,
      notMem_join (by decide) (spelled.notMem groups (by decide) (by decide))⟩
    simp only [isIpv6Parts, skipIndex_of_hextets hextets, size, List.all_eq_true.mpr hextets,
      BEq.rfl, Bool.and_self]
  · obtain ⟨_, ⟨front, lead, _, rfl, rfl⟩, back, trail, rfl⟩ := around
    obtain ⟨before, rfl, few, first⟩ := exists_parts_of_mem_leading lead
    obtain ⟨parts, after, rfl, spelled, size, last⟩ := exists_parts_of_mem_trailing trail
    have whole : Counted (sideParts before ++ [] :: sideParts parts)
        (sideParts before ++ [] :: sideParts after) :=
      (spelled.sides.append [[]]).append (sideParts before)
    have groups : ∀ part ∈ sideParts before ++ [] :: sideParts after,
        part = [] ∨ isHextet part = true := by
      have sided : ∀ {xs : List (List Char)}, (∀ part ∈ xs, isHextet part = true) →
          ∀ part ∈ sideParts xs, part = [] ∨ isHextet part = true := by
        intro xs hextets part member
        unfold sideParts at member
        split at member
        · exact .inl (List.mem_singleton.mp member)
        · exact .inr (hextets part member)
      exact List.forall_mem_append.mpr ⟨sided first, List.forall_mem_cons.mpr ⟨.inl rfl, sided last⟩⟩
    have joined : join (sideParts before ++ [] :: sideParts parts) =
        join before ++ [':', ':'] ++ join parts := by
      rw [join_around (sideParts_ne_nil before) (sideParts_ne_nil parts), join_sideParts,
        join_sideParts]
    have sizes := And.intro (length_sideParts before)
      (And.intro (length_sideParts after) (length_sideParts parts))
    change isIpv6 (join before ++ [':', ':'] ++ join parts) = true ∧
      'v' ∉ join before ++ [':', ':'] ++ join parts
    rw [← joined]
    refine ⟨isIpv6_of_parts whole groups ?_ ?_ (isIpv6Parts_around first last (by omega)),
      notMem_join (by decide) (whole.notMem groups (by decide) (by decide))⟩
    · simp only [List.length_append, List.length_cons]
      omega
    · simp only [List.length_append, List.length_cons]
      omega

theorem future_complete (h : w ∈ ipvFuture) (lower : w.head? = some 'v') :
    isFutureAddress w = true := by
  rw [ipvFuture, hexdig_eq] at h
  obtain ⟨_, ⟨_, ⟨_, ⟨letter, _, rfl⟩, version, numbered, rfl⟩, _, rfl, rfl⟩, name, named, rfl⟩ := h
  have none : [] ∉ single isHexDigit := by simp [mem_single]
  obtain ⟨digits, some⟩ := (mem_oneOrMore none).mp numbered
  have nonempty : name ≠ [] := by
    rintro rfl
    refine ((mem_oneOrMore ?_).mp named).2 rfl
    rw [unreserved_eq, subDelims_eq, word_eq, single_add, single_add]
    simp [mem_single]
  obtain ⟨c, more, rfl⟩ := List.exists_cons_of_ne_nil nonempty
  have letter : letter = 'v' := by simpa using lower
  subst letter
  have shape : ['v'] ++ version ++ ['.'] ++ c :: more = 'v' :: (version ++ '.' :: c :: more) := by
    simp
  have taken : (version ++ '.' :: c :: more).takeWhile isHexDigit = version := by
    rw [List.takeWhile_append_of_pos (mem_single_star.mp digits)]
    simp [show isHexDigit '.' = false from by decide]
  change isFutureAddress (['v'] ++ version ++ ['.'] ++ c :: more) = true
  rw [shape, isFutureAddress]
  simp only [taken, List.drop_left, Bool.and_true, Bool.not_eq_true', List.isEmpty_eq_false_iff]
  exact some

/-- Literals that can be told from a zone or a capital letter. -/
theorem literal_complete (h : w ∈ ipv6Address ∨ w ∈ ipvFuture ∧ w.head? = some 'v') :
    isAddressLiteral w = true := by
  rcases h with address | ⟨future, lower⟩
  · obtain ⟨valid, plain⟩ := ipv6_complete address
    have head : ¬(w.head? == some 'v') = true := by
      intro same
      exact plain (List.mem_of_mem_head? (beq_iff_eq.mp same))
    rw [isAddressLiteral, if_neg head]
    exact valid
  · rw [isAddressLiteral, if_pos (beq_iff_eq.mpr lower)]
    exact future_complete future lower

end Grammar

end ClientRegistry.Uri
