import ClientRegistry.Proofs.Text.Split
import ClientRegistry.Proofs.Uri.Encoded

/-! What the rules for names, ports, paths and queries derive, in terms of classes of characters
and of complete escapes. -/

open scoped Computability

namespace ClientRegistry.Uri

namespace Grammar

variable {l : Language Char} {p : Char → Bool} {w : List Char}

theorem le_iff_toNat_le {a b : Char} : a ≤ b ↔ a.toNat ≤ b.toNat := Iff.rfl

theorem eq_iff_toNat_eq {a b : Char} : a = b ↔ a.toNat = b.toNat :=
  ⟨congrArg _, Char.toNat_inj.mp⟩

theorem isAtom_of_isHexDigit (extra : List Char) {c : Char} (h : isHexDigit c = true) :
    isAtom extra c = true := by
  have unreserved : isUnreserved c = true := by
    simp only [isHexDigit, isDigit, isUnreserved, isLetter, Bool.or_eq_true, Bool.and_eq_true,
      decide_eq_true_eq] at h ⊢
    rcases h with (digit | lower) | upper
    · exact .inl (.inr digit)
    · exact .inl (.inl (.inl ⟨lower.1, Char.le_trans lower.2 (show 'f' ≤ 'z' by decide)⟩))
    · exact .inl (.inl (.inr ⟨upper.1, Char.le_trans upper.2 (show 'F' ≤ 'Z' by decide)⟩))
  simp only [isAtom, isUnreservedOrVisible, unreserved, Bool.true_or]

theorem isAtom_percent {extra : List Char} (absent : '%' ∉ extra) : isAtom extra '%' = false := by
  have base : (isUnreservedOrVisible '%' || isSubDelim '%') = false := by decide
  rw [isAtom, base, Bool.false_or, ← Bool.not_eq_true, List.contains_iff_mem]
  exact absent

theorem mem_atoms {extra : List Char} (absent : '%' ∉ extra) :
    w ∈ (single (isAtom extra) + pctEncoded)∗ ↔ Encoded (isAtom extra) w :=
  mem_encoded_star (fun _ => isAtom_of_isHexDigit extra) (isAtom_percent absent)

theorem mem_oneOrMore (empty : [] ∉ l) : w ∈ oneOrMore l ↔ w ∈ l∗ ∧ w ≠ [] := by
  constructor
  · rintro ⟨a, ha, b, hb, rfl⟩
    refine ⟨append_mem_kstar ha hb, fun none => empty ?_⟩
    rw [← (List.append_eq_nil_iff.mp none).1]
    exact ha
  · rintro ⟨h, ne⟩
    rw [← Language.one_add_self_mul_kstar_eq_kstar, Language.mem_add, Language.mem_one] at h
    exact h.resolve_left ne

theorem nil_notMem_atoms (p : Char → Bool) : [] ∉ single p + pctEncoded := by
  rintro (⟨c, _, same⟩ | escape)
  · cases same
  · obtain ⟨a, b, _, _, same⟩ := mem_pctEncoded.mp escape
    cases same

theorem mem_single_star : w ∈ (single p)∗ ↔ ∀ c ∈ w, p c = true := by
  constructor
  · intro h
    exact within_star (within_single fun _ valid => valid) w h
  · intro h
    induction w with
    | nil => exact Language.nil_mem_kstar _
    | cons c rest ih =>
        rw [List.forall_mem_cons] at h
        have one : [c] ∈ single p := ⟨c, h.1, rfl⟩
        exact append_mem_kstar one (ih h.2)

theorem mem_regName : w ∈ regName ↔ Encoded (isAtom []) w := by
  rw [regName, regNameChar_eq, mem_atoms (by decide)]

theorem mem_userinfo : w ∈ userinfo ↔ Encoded (isAtom [':']) w := by
  rw [userinfo, userinfoChar_eq, mem_atoms (by decide)]

theorem mem_port : w ∈ port ↔ ∀ c ∈ w, isDigit c = true := by
  rw [port, digit_eq, mem_single_star]

theorem mem_scheme : w ∈ scheme ↔ ∃ c rest, w = c :: rest ∧ isLetter c = true ∧
    ∀ d ∈ rest, isSchemeChar d = true := by
  rw [scheme, schemeChar_eq, alpha_eq]
  constructor
  · rintro ⟨_, ⟨c, hc, rfl⟩, rest, hr, rfl⟩
    exact ⟨c, rest, rfl, hc, mem_single_star.mp hr⟩
  · rintro ⟨c, rest, rfl, hc, hr⟩
    have one : [c] ∈ single isLetter := ⟨c, hc, rfl⟩
    exact Language.append_mem_mul one (mem_single_star.mpr hr)

theorem mem_query : w ∈ query ↔ Encoded (isAtom [':', '@', '/', '?']) w := by
  rw [query, queryChar_eq, mem_atoms (by decide)]

theorem mem_segment : w ∈ segment ↔ Encoded (isAtom [':', '@']) w := by
  rw [segment, pchar_eq, mem_atoms (by decide)]

theorem mem_segmentNz : w ∈ segmentNz ↔ Encoded (isAtom [':', '@']) w ∧ w ≠ [] := by
  rw [segmentNz, pchar_eq, mem_oneOrMore (nil_notMem_atoms _), mem_atoms (by decide)]

theorem mem_segmentNzNc : w ∈ segmentNzNc ↔ Encoded (isAtom ['@']) w ∧ w ≠ [] := by
  rw [segmentNzNc, segmentNcChar_eq, mem_oneOrMore (nil_notMem_atoms _), mem_atoms (by decide)]

theorem isAtom_iff {extra : List Char} {c : Char} : isAtom extra c = true ↔
    (isUnreservedOrVisible c || isSubDelim c) = true ∨ c ∈ extra := by
  rw [isAtom, Bool.or_eq_true, List.contains_iff_mem]

theorem isAtom_mono {extra more : List Char} (sub : extra ⊆ more) {c : Char}
    (h : isAtom extra c = true) : isAtom more c = true := by
  rw [isAtom_iff] at h ⊢
  exact h.imp_right (@sub c)

/-- Fewer delimiters are enough for a text that does not hold the others. -/
theorem narrow {extra less : List Char} (h : Encoded (isAtom extra) w)
    (sub : ∀ c ∈ w, c ∈ extra → c ∈ less) : Encoded (isAtom less) w := by
  refine h.mono ?_
  intro c member atom
  rw [isAtom_iff] at atom ⊢
  exact atom.imp_right (sub c member)

/-- Without its slashes a path is a segment. -/
theorem encoded_segment (h : Encoded (isAtom [':', '@', '/']) w) (absent : '/' ∉ w) :
    Encoded (isAtom [':', '@']) w := by
  refine narrow h ?_
  intro c member delimiter
  have ne : c ≠ '/' := fun same => absent (same ▸ member)
  simpa [ne] using delimiter

/-- Nothing, or a slash and more. -/
def AtSlash (w : List Char) : Prop := w = [] ∨ ∃ rest, w = '/' :: rest

theorem encoded_append {a b : List Char} (ha : Encoded (isAtom [':', '@', '/']) a)
    (hb : Encoded (isAtom [':', '@', '/']) b) (slash : AtSlash b) :
    Encoded (isAtom [':', '@', '/']) (a ++ b) := by
  rcases slash with rfl | ⟨rest, rfl⟩
  · rw [List.append_nil]
    exact ha
  · rw [Encoded.append_iff (by decide) (by decide)]
    have split := (Encoded.append_iff (a := []) (by decide) (by decide)).mp hb
    exact ⟨ha, split.2⟩

/-- A path is a segment and what follows it from the next slash on. -/
theorem exists_segment (h : Encoded (isAtom [':', '@', '/']) w) :
    ∃ rest, w = (Text.cut '/' w).1 ++ rest ∧ Encoded (isAtom [':', '@']) (Text.cut '/' w).1 ∧
      Encoded (isAtom [':', '@', '/']) rest ∧ AtSlash rest := by
  rcases Text.cut_cases '/' w with ⟨absent, cut⟩ | ⟨a, b, shape, absent, cut⟩
  · rw [cut]
    exact ⟨[], (List.append_nil w).symm, encoded_segment h absent, .nil, .inl rfl⟩
  · rw [shape, Encoded.append_iff (by decide) (by decide)] at h
    rw [cut]
    have rest : Encoded (isAtom [':', '@', '/']) ([] ++ '/' :: b) :=
      (Encoded.append_iff (by decide) (by decide)).mpr ⟨.nil, h.2⟩
    exact ⟨'/' :: b, shape, encoded_segment h.1 absent, rest, .inr ⟨b, rfl⟩⟩

theorem encoded_of_mem_segments (h : w ∈ (word ['/'] * segment)∗) :
    Encoded (isAtom [':', '@', '/']) w ∧ AtSlash w := by
  obtain ⟨pieces, rfl, each⟩ := Language.mem_kstar.mp h
  clear h
  induction pieces with
  | nil => exact ⟨.nil, .inl rfl⟩
  | cons piece others ih =>
      rw [List.forall_mem_cons] at each
      obtain ⟨_, rfl, segment, derived, rfl⟩ := each.1
      obtain ⟨tail, slash⟩ := ih each.2
      refine ⟨?_, .inr ⟨segment ++ others.flatten, rfl⟩⟩
      have head : Encoded (isAtom [':', '@', '/']) segment :=
        (mem_segment.mp derived).mono fun c _ => isAtom_mono (by simp)
      exact (Encoded.append_iff (a := []) (by decide) (by decide)).mpr
        ⟨.nil, by decide, encoded_append head tail slash⟩

theorem mem_segments_of_encoded (encoded : Encoded (isAtom [':', '@', '/']) w)
    (slash : AtSlash w) : w ∈ (word ['/'] * segment)∗ := by
  induction size : w.length using Nat.strong_induction_on generalizing w with
  | _ n ih =>
      rcases slash with rfl | ⟨path, rfl⟩
      · exact Language.nil_mem_kstar _
      · have inner := ((Encoded.append_iff (a := []) (by decide) (by decide)).mp encoded).2.2
        obtain ⟨rest, shape, segment, tail, slash⟩ := exists_segment inner
        have shorter : rest.length < n := by
          have lengths := congrArg List.length shape
          rw [List.length_append] at lengths
          rw [← size, List.length_cons]
          omega
        have step : '/' :: (Text.cut '/' path).1 ∈ word ['/'] * Grammar.segment :=
          Language.append_mem_mul (mem_word.mpr rfl) (mem_segment.mpr segment)
        have whole := append_mem_kstar step (ih rest.length shorter tail slash rfl)
        rw [List.cons_append, ← shape] at whole
        exact whole

theorem mem_segments : w ∈ (word ['/'] * segment)∗ ↔
    Encoded (isAtom [':', '@', '/']) w ∧ AtSlash w :=
  ⟨encoded_of_mem_segments, fun h => mem_segments_of_encoded h.1 h.2⟩

theorem notMem_of_encoded {p : Char → Bool} {d : Char} (h : Encoded p w) (other : p d = false)
    (plain : d ≠ '%') : d ∉ w := by
  intro member
  rcases h.1 d member with atom | percent
  · rw [other] at atom
    cases atom
  · exact plain percent

theorem cut_segment {segment rest : List Char} (absent : '/' ∉ segment) (slash : AtSlash rest) :
    (Text.cut '/' (segment ++ rest)).1 = segment := by
  rcases slash with rfl | ⟨more, rfl⟩
  · rw [List.append_nil, Text.cut_of_notMem absent]
  · rw [Text.cut_append absent]

theorem mem_pathRootless : w ∈ pathRootless ↔
    Encoded (isAtom [':', '@', '/']) w ∧ ¬AtSlash w := by
  constructor
  · rintro ⟨segment, derived, rest, tail, rfl⟩
    obtain ⟨encoded, ne⟩ := mem_segmentNz.mp derived
    obtain ⟨encoded', slash⟩ := mem_segments.mp tail
    refine ⟨encoded_append (encoded.mono fun c _ => isAtom_mono (by simp)) encoded' slash, ?_⟩
    have absent : '/' ∉ segment := notMem_of_encoded encoded (by decide) (by decide)
    cases segment with
    | nil => exact absurd rfl ne
    | cons c more =>
        rintro (none | ⟨_, same⟩)
        · cases none
        · exact absent ((List.cons.inj same).1 ▸ List.mem_cons_self)
  · rintro ⟨encoded, other⟩
    obtain ⟨rest, shape, segment, tail, slash⟩ := exists_segment encoded
    have ne : (Text.cut '/' w).1 ≠ [] := by
      intro empty
      rw [empty, List.nil_append] at shape
      exact other (shape ▸ slash)
    rw [shape]
    exact Language.append_mem_mul (mem_segmentNz.mpr ⟨segment, ne⟩) (mem_segments.mpr ⟨tail, slash⟩)

/-- Without a scheme the first segment has no colon. -/
theorem mem_pathNoscheme : w ∈ pathNoscheme ↔
    w ∈ pathRootless ∧ ':' ∉ (Text.cut '/' w).1 := by
  constructor
  · rintro ⟨segment, derived, rest, tail, rfl⟩
    obtain ⟨encoded, ne⟩ := mem_segmentNzNc.mp derived
    have absent : '/' ∉ segment := notMem_of_encoded encoded (by decide) (by decide)
    rw [cut_segment absent (mem_segments.mp tail).2]
    refine ⟨Language.append_mem_mul (mem_segmentNz.mpr ⟨?_, ne⟩) tail,
      notMem_of_encoded encoded (by decide) (by decide)⟩
    exact encoded.mono fun c _ => isAtom_mono (by simp)
  · rintro ⟨derived, absent⟩
    obtain ⟨segment, nz, rest, tail, rfl⟩ := derived
    obtain ⟨encoded, ne⟩ := mem_segmentNz.mp nz
    rw [cut_segment (notMem_of_encoded encoded (by decide) (by decide)) (mem_segments.mp tail).2]
      at absent
    refine Language.append_mem_mul (mem_segmentNzNc.mpr ⟨narrow encoded ?_, ne⟩) tail
    intro c member delimiter
    have plain : c ≠ ':' := fun same => absent (same ▸ member)
    simpa [plain] using delimiter

theorem mem_pathAbsolute : w ∈ pathAbsolute ↔
    ∃ rest, w = '/' :: rest ∧ (rest = [] ∨ rest ∈ pathRootless) := by
  constructor
  · rintro ⟨_, rfl, rest, more, rfl⟩
    exact ⟨rest, rfl, mem_optional.mp more⟩
  · rintro ⟨rest, rfl, more⟩
    exact Language.append_mem_mul (mem_word.mpr rfl) (mem_optional.mpr more)

end Grammar

end ClientRegistry.Uri
