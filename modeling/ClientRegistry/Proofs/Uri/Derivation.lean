import ClientRegistry.Proofs.Uri.Authority

/-! Which accepted redirect URIs the grammar derives: those whose authority is regular. A text
that is accepted is cut where the grammar cuts it, and all its parts but the authority are always
derived from their rules. -/

open scoped Computability

namespace ClientRegistry.Uri

open Grammar

variable {text rest a tail path : List Char}

/-- The authority of a text, and what follows it. -/
def cutAuthority (text : List Char) : List Char × List Char := splitAuthority (splitScheme text).2

/-- What an accepted text satisfies, told of the parts that it is cut into. -/
structure Admitted (text : List Char) : Prop where
  encoded : Encoded (isAtom genDelims) text
  fragment : '#' ∉ text
  brackets : bracketsOk (cutAuthority text).1 = true
  port : portOk (cutAuthority text).1 = true
  path : hasBracket (Text.cut '?' (cutAuthority text).2).1 = false
  query : hasBracket ((Text.cut '?' (cutAuthority text).2).2.getD []) = false
  colon : (splitScheme text).1 = [] → (cutAuthority text).1 = [] →
    ':' ∉ (Text.cut '/' (Text.cut '?' (cutAuthority text).2).1).1

theorem subset_splitScheme (text : List Char) : (splitScheme text).2 ⊆ text := by
  have schemed := splitScheme_schemed text
  generalize splitScheme text = cut at schemed
  cases schemed with
  | absolute derived shape =>
      rw [shape]
      exact fun c member => List.mem_append_right _ (List.mem_cons_of_mem _ member)
  | relative none => exact List.Subset.refl text

theorem subset_splitAuthority (text : List Char) : (splitAuthority text).2 ⊆ text := by
  have authorized := splitAuthority_authorized text
  generalize splitAuthority text = cut at authorized
  cases authorized with
  | slashes plain stop shape =>
      rw [shape]
      exact fun c member => List.mem_cons_of_mem _ (List.mem_cons_of_mem _
        (List.mem_append_right _ member))
  | bare none => exact List.Subset.refl text

theorem of?_eq (kept : cleaned text = text) (absent : '#' ∉ (cutAuthority text).2) :
    Parts.of? text =
      if bracketsOk (cutAuthority text).1 && plainlyDelimited (cutAuthority text).1 then
        some ⟨(splitScheme text).1, (cutAuthority text).1, (Text.cut '?' (cutAuthority text).2).1,
          (Text.cut '?' (cutAuthority text).2).2.getD [], []⟩
      else none := by
  rw [cutAuthority] at absent
  simp only [Parts.of?, kept, cutAuthority, Text.cut_of_notMem absent]
  rfl

theorem admitted_of_isRedirect (h : isRedirect text = true) : Admitted text := by
  simp only [isRedirect, isWellFormed, Bool.and_eq_true, Bool.not_eq_true'] at h
  obtain ⟨⟨chars, parts⟩, fragment⟩ := h
  have absent : '#' ∉ text := by simpa using fragment
  have tail : '#' ∉ (cutAuthority text).2 := fun member =>
    absent (subset_splitScheme text (subset_splitAuthority _ member))
  rw [of?_eq (cleaned_of_uriChars (List.all_eq_true.mp chars.1)) tail] at parts
  split at parts
  · cases parts
  · next found read =>
      split at read
      · next delimited =>
          cases read
          simp only [Bool.and_eq_true, Bool.not_eq_true', List.append_nil] at parts delimited
          obtain ⟨⟨⟨port, brackets⟩, scheme⟩, _⟩ := parts
          have apart := hasBracket_eq_false.mp brackets
          simp only [List.mem_append, not_or] at apart
          refine ⟨encoded_iff.mp chars, absent, delimited.1, port,
            hasBracket_eq_false.mpr ⟨apart.1.1, apart.2.1⟩,
            hasBracket_eq_false.mpr ⟨apart.1.2, apart.2.2⟩, fun none empty => ?_⟩
          simpa [schemeOk, none, empty] using scheme
      · cases read

/-- A path and a query. -/
theorem tail_sound (encoded : Encoded (isAtom genDelims) tail) (fragment : '#' ∉ tail)
    (bracket : hasBracket (Text.cut '?' tail).1 = false)
    (bracket' : hasBracket ((Text.cut '?' tail).2.getD []) = false) :
    ∃ suffix ∈ optional (word ['?'] * query), tail = (Text.cut '?' tail).1 ++ suffix ∧
      Encoded (isAtom [':', '@', '/']) (Text.cut '?' tail).1 := by
  obtain ⟨opening, closing⟩ := hasBracket_eq_false.mp bracket
  obtain ⟨opening', closing'⟩ := hasBracket_eq_false.mp bracket'
  rcases Text.cut_cases '?' tail with ⟨absent, cut⟩ | ⟨path, rest, shape, absent, cut⟩
  · rw [cut] at opening closing ⊢
    refine ⟨[], mem_optional.mpr (.inl rfl), (List.append_nil tail).symm, narrow encoded ?_⟩
    simp only [genDelims]
    grind
  · rw [cut] at opening closing opening' closing' ⊢
    rw [shape, Encoded.append_iff (by decide) (by decide)] at encoded
    rw [shape] at fragment
    have derived : rest ∈ query := mem_query.mpr (narrow encoded.2.2 (by
      simp only [genDelims]
      grind))
    refine ⟨'?' :: rest, mem_optional.mpr (.inr ?_), shape, narrow encoded.1 ?_⟩
    · exact Language.append_mem_mul (mem_word.mpr rfl) derived
    · simp only [genDelims]
      grind

theorem isAuthorityEnd_cases {c : Char} (h : isAuthorityEnd c = true) :
    c = '/' ∨ c = '?' ∨ c = '#' := by
  simpa [isAuthorityEnd, or_assoc] using h

/-- An escape does not reach across the end of an authority. -/
theorem encoded_of_append {p : Char → Bool} (h : Encoded p (a ++ tail)) (stop : AtEnd tail) :
    Encoded p a ∧ Encoded p tail := by
  rcases stop with rfl | ⟨c, rest, rfl, ends⟩
  · rw [List.append_nil] at h
    exact ⟨h, .nil⟩
  · have plain : c ≠ '%' := by
      rintro rfl
      exact absurd ends (by decide)
    have other : isHexDigit c = false := by
      rcases isAuthorityEnd_cases ends with rfl | rfl | rfl <;> decide
    obtain ⟨first, delimiter, more⟩ := (Encoded.append_iff plain other).mp h
    exact ⟨first, (Encoded.append_iff (a := []) plain other).mpr ⟨.nil, delimiter, more⟩⟩

theorem encoded_of_cons {p : Char → Bool} {d : Char} (h : Encoded p (d :: rest)) (plain : d ≠ '%')
    (other : isHexDigit d = false) : Encoded p rest :=
  ((Encoded.append_iff (a := []) plain other).mp h).2.2

/-- After an authority a path begins with a slash, unless it is empty. -/
theorem atSlash_path (stop : AtEnd tail) (fragment : '#' ∉ tail) :
    AtSlash (Text.cut '?' tail).1 := by
  rcases stop with rfl | ⟨c, rest, rfl, ends⟩
  · exact .inl rfl
  · rcases isAuthorityEnd_cases ends with rfl | rfl | rfl
    · exact .inr ⟨(Text.cut '?' rest).1, by simp [Text.cut]⟩
    · exact .inl (by simp [Text.cut])
    · exact absurd List.mem_cons_self fragment

/-- A path that begins with no double slash is of one of the other three forms. -/
theorem path_cases (encoded : Encoded (isAtom [':', '@', '/']) path)
    (none : ∀ more, path ≠ '/' :: '/' :: more) :
    path ∈ pathAbsolute ∨ path ∈ pathRootless ∨ path ∈ pathEmpty := by
  by_cases slash : AtSlash path
  · rcases slash with rfl | ⟨rest, rfl⟩
    · exact .inr (.inr rfl)
    · refine .inl (mem_pathAbsolute.mpr ⟨rest, rfl, ?_⟩)
      have inner := encoded_of_cons encoded (by decide) (by decide)
      by_cases again : AtSlash rest
      · rcases again with empty | ⟨more, rfl⟩
        · exact .inl empty
        · exact absurd rfl (none more)
      · exact .inr (mem_pathRootless.mpr ⟨inner, again⟩)
  · exact .inr (.inl (mem_pathRootless.mpr ⟨encoded, slash⟩))

theorem cut_authority_sound (encoded : Encoded (isAtom genDelims) a)
    (plain : ∀ c ∈ a, isAuthorityEnd c = false) (brackets : bracketsOk a = true)
    (port : portOk a = true) (regular : isRegular a = true) : a ∈ Grammar.authority := by
  refine authority_sound (narrow encoded ?_) brackets port regular
  intro c member delimiter
  have inside := plain c member
  simp only [isAuthorityEnd, Bool.or_eq_false_iff, beq_eq_false_iff_ne] at inside
  simp only [genDelims, List.mem_cons, List.not_mem_nil, or_false] at delimiter ⊢
  tauto

/-- What stands between the scheme and the query of an accepted text: an authority and a path,
or only a path. -/
inductive Hierarchy (text : List Char) : List Char → Prop
  | slashes {w : List Char} (derived : w ∈ word ['/', '/'] * Grammar.authority * pathAbempty) :
      Hierarchy text w
  | bare {w : List Char} (empty : (cutAuthority text).1 = [])
      (path : w = (Text.cut '?' (cutAuthority text).2).1)
      (encoded : Encoded (isAtom [':', '@', '/']) w) (none : ∀ more, w ≠ '/' :: '/' :: more) :
      Hierarchy text w

theorem exists_hierarchy (h : Admitted text) (regular : isRegular (cutAuthority text).1 = true)
    (encoded : Encoded (isAtom genDelims) (splitScheme text).2) :
    ∃ w, ∃ suffix ∈ optional (word ['?'] * query), (splitScheme text).2 = w ++ suffix ∧
      Hierarchy text w := by
  have fragment : '#' ∉ (cutAuthority text).2 := fun member =>
    h.fragment (subset_splitScheme text (subset_splitAuthority _ member))
  have authorized : Authorized (splitScheme text).2 (cutAuthority text) :=
    splitAuthority_authorized (splitScheme text).2
  -- The cut is about to be generalized, and `Hierarchy` speaks of it.
  have bare : ∀ {w}, (cutAuthority text).1 = [] →
      w = (Text.cut '?' (cutAuthority text).2).1 → Encoded (isAtom [':', '@', '/']) w →
      (∀ more, w ≠ '/' :: '/' :: more) → Hierarchy text w := .bare
  have brackets := h.brackets
  have port := h.port
  have path := h.path
  have query := h.query
  generalize cutAuthority text = cut at *
  cases authorized with
  | @slashes a tail plain stop shape =>
      rw [shape] at encoded
      have inner := encoded_of_cons (encoded_of_cons encoded (by decide) (by decide)) (by decide)
        (by decide)
      obtain ⟨first, second⟩ := encoded_of_append inner stop
      obtain ⟨suffix, derived, tailShape, pathEncoded⟩ := tail_sound second fragment path query
      have authority := cut_authority_sound first plain brackets port regular
      have abempty : (Text.cut '?' tail).1 ∈ pathAbempty :=
        mem_segments.mpr ⟨pathEncoded, atSlash_path stop fragment⟩
      refine ⟨'/' :: '/' :: (a ++ (Text.cut '?' tail).1), suffix, derived, ?_, .slashes ?_⟩
      · rw [shape]
        simp only [List.cons_append, List.append_assoc, ← tailShape]
      · exact Language.append_mem_mul (Language.append_mem_mul (mem_word (v := ['/', '/']).mpr rfl)
          authority) abempty
  | bare none =>
      obtain ⟨suffix, derived, tailShape, pathEncoded⟩ := tail_sound encoded fragment path query
      refine ⟨_, suffix, derived, tailShape, bare rfl rfl pathEncoded ?_⟩
      intro more shape
      rw [shape] at tailShape
      exact none (more ++ suffix) tailShape

theorem mem_hierPart {w : List Char} : w ∈ hierPart ↔
    w ∈ word ['/', '/'] * Grammar.authority * pathAbempty ∨
      w ∈ pathAbsolute ∨ w ∈ pathRootless ∨ w ∈ pathEmpty := by
  simp only [hierPart, Language.mem_add, or_assoc]

theorem mem_relativePart {w : List Char} : w ∈ relativePart ↔
    w ∈ word ['/', '/'] * Grammar.authority * pathAbempty ∨
      w ∈ pathAbsolute ∨ w ∈ pathNoscheme ∨ w ∈ pathEmpty := by
  simp only [relativePart, Language.mem_add, or_assoc]

theorem Hierarchy.mem_hierPart {w : List Char} (h : Hierarchy text w) : w ∈ hierPart := by
  rw [Uri.mem_hierPart]
  cases h with
  | slashes derived => exact .inl derived
  | bare _ _ encoded none => exact .inr (path_cases encoded none)

/-- Without a scheme the path must not pass for one that has a scheme. -/
theorem Hierarchy.mem_relativePart {w : List Char} (h : Hierarchy text w)
    (colon : (cutAuthority text).1 = [] →
      ':' ∉ (Text.cut '/' (Text.cut '?' (cutAuthority text).2).1).1) : w ∈ relativePart := by
  rw [Uri.mem_relativePart]
  cases h with
  | slashes derived => exact .inl derived
  | bare empty path encoded none =>
      have noColon : ':' ∉ (Text.cut '/' w).1 := path ▸ colon empty
      have noscheme : w ∈ pathRootless → w ∈ pathNoscheme := by
        intro rootless
        exact mem_pathNoscheme.mpr ⟨rootless, noColon⟩
      exact .inr ((path_cases encoded none).imp_right (Or.imp_left noscheme))

theorem derived_of_regular (accepted : isRedirect text = true)
    (regular : isRegular (cutAuthority text).1 = true) : text ∈ uriReference := by
  have h := admitted_of_isRedirect accepted
  have schemed := splitScheme_schemed text
  have colon := h.colon
  have hierarchy := exists_hierarchy h regular
  generalize splitScheme text = cut at schemed colon hierarchy
  cases schemed with
  | @absolute s rest derived shape =>
      have encoded : Encoded (isAtom genDelims) rest := by
        have whole := h.encoded
        rw [shape, Encoded.append_iff (by decide) (by decide)] at whole
        exact whole.2.2
      obtain ⟨w, suffix, query, (restShape : rest = w ++ suffix), middle⟩ := hierarchy encoded
      have uri := Language.append_mem_mul (Language.append_mem_mul (Language.append_mem_mul derived
        (mem_word (v := [':']).mpr rfl)) middle.mem_hierPart) query
      have same : text = s ++ [':'] ++ w ++ suffix := by
        rw [shape, restShape]
        simp
      rw [same]
      exact (Language.mem_add _ _ _).mpr (.inl uri)
  | relative none =>
      obtain ⟨w, suffix, query, (shape : text = w ++ suffix), middle⟩ := hierarchy h.encoded
      have relative : w ++ suffix ∈ relativeRef :=
        Language.append_mem_mul (middle.mem_relativePart (colon rfl)) query
      rw [← shape] at relative
      exact (Language.mem_add _ _ _).mpr (.inr relative)

theorem query_cases {suffix : List Char} (h : suffix ∈ optional (word ['?'] * query)) :
    suffix = [] ∨ ∃ rest, suffix = '?' :: rest := by
  rcases mem_optional.mp h with rfl | marked
  · exact .inl rfl
  · obtain ⟨_, rfl, rest, _, rfl⟩ := Language.mem_mul.mp marked
    exact .inr ⟨rest, rfl⟩

theorem atEnd_append {suffix : List Char} (slash : AtSlash path)
    (h : suffix ∈ optional (word ['?'] * query)) : AtEnd (path ++ suffix) := by
  rcases slash with rfl | ⟨rest, rfl⟩
  · rcases query_cases h with rfl | ⟨rest, rfl⟩
    · exact .inl rfl
    · exact .inr ⟨'?', rest, rfl, by decide⟩
  · exact .inr ⟨'/', rest ++ suffix, rfl, by decide⟩

theorem not_double_slash {suffix : List Char}
    (form : path ∈ pathAbsolute ∨ path ∈ pathRootless ∨ path ∈ pathEmpty)
    (h : suffix ∈ optional (word ['?'] * query)) :
    ∀ more, path ++ suffix ≠ '/' :: '/' :: more := by
  have apart : ∀ {rest more : List Char}, ¬AtSlash rest → rest ++ suffix ≠ '/' :: more := by
    intro rest more other same
    cases rest with
    | nil => exact other (.inl rfl)
    | cons c rest => exact other (.inr ⟨rest, by rw [(List.cons.inj same).1]⟩)
  have alone : ∀ more, suffix ≠ '/' :: more := by
    rcases query_cases h with rfl | ⟨rest, rfl⟩ <;> simp
  intro more same
  rcases form with absolute | rootless | rfl
  · obtain ⟨rest, rfl, empty | derived⟩ := mem_pathAbsolute.mp absolute
    · rw [empty] at same
      exact alone more (List.cons.inj same).2
    · exact apart (mem_pathRootless.mp derived).2 (List.cons.inj same).2
  · exact apart (mem_pathRootless.mp rootless).2 same
  · exact alone _ same

theorem regular_of_hierarchy {w suffix : List Char}
    (form : w ∈ word ['/', '/'] * Grammar.authority * pathAbempty ∨
      w ∈ pathAbsolute ∨ w ∈ pathRootless ∨ w ∈ pathEmpty)
    (h : suffix ∈ optional (word ['?'] * query)) :
    isRegular (splitAuthority (w ++ suffix)).1 = true := by
  rcases form with slashes | bare
  · obtain ⟨front, front', path, hp, rfl⟩ := Language.mem_mul.mp slashes
    obtain ⟨_, rfl, a, ha, rfl⟩ := Language.mem_mul.mp front'
    have plain : ∀ c ∈ a, isAuthorityEnd c = false := fun c member => by
      simpa using within_authority a ha c member
    have stop := atEnd_append (mem_segments.mp hp).2 h
    have shape : ['/', '/'] ++ a ++ path ++ suffix = '/' :: '/' :: (a ++ (path ++ suffix)) := by simp
    rw [shape, splitAuthority_slashes plain stop]
    exact regular_of_mem ha
  · rw [splitAuthority_bare (not_double_slash bare h)]
    rfl

/-- What a relative reference begins with is no scheme. -/
theorem relative_no_scheme {w suffix : List Char} (part : w ∈ relativePart)
    (h : suffix ∈ optional (word ['?'] * query)) :
    ∀ s rest, w ++ suffix = s ++ ':' :: rest → s ∉ scheme := by
  intro s rest shape derived
  have head : ∀ d more, isLetter d = false → w ++ suffix ≠ d :: more := by
    intro d more other same
    obtain ⟨c, tail, rfl, letter, _⟩ := mem_scheme.mp derived
    rw [shape] at same
    rw [(List.cons.inj same).1, other] at letter
    cases letter
  rcases mem_relativePart.mp part with slashes | absolute | noscheme | rfl
  · obtain ⟨_, front, path, _, rfl⟩ := Language.mem_mul.mp slashes
    obtain ⟨_, rfl, a, _, rfl⟩ := Language.mem_mul.mp front
    exact head '/' _ (by decide) rfl
  · obtain ⟨more, rfl, _⟩ := mem_pathAbsolute.mp absolute
    exact head '/' _ (by decide) rfl
  · have noColon := (mem_pathNoscheme.mp noscheme).2
    have slash : '/' ∉ s := notMem_scheme derived (by decide)
    have mark : '?' ∉ s := notMem_scheme derived (by decide)
    -- The colon would stand in the first segment, or the scheme would reach into the query.
    rcases List.append_eq_append_iff.mp shape with ⟨more, rfl, query⟩ | ⟨more, rfl, colon⟩
    · rcases query_cases h with rfl | ⟨tail, rfl⟩
      · simp at query
      · cases more with
        | nil => cases query
        | cons c more =>
            rw [← (List.cons.inj query).1] at mark
            simp at mark
    · rw [Text.cut_append_fst slash] at noColon
      cases more with
      | nil =>
          rcases query_cases h with rfl | ⟨tail, rfl⟩
          · cases colon
          · cases colon
      | cons c more =>
          rw [← (List.cons.inj colon).1] at noColon
          simp [Text.cut] at noColon
  · rcases query_cases h with rfl | ⟨more, rfl⟩
    · simp at shape
    · exact head '?' _ (by decide) rfl

theorem regular_of_derived (derived : text ∈ uriReference) :
    isRegular (cutAuthority text).1 = true := by
  rcases (Language.mem_add _ _ _).mp derived with uri | relative
  · obtain ⟨front, inner, suffix, query, rfl⟩ := Language.mem_mul.mp uri
    obtain ⟨start, opening, hier, hh, rfl⟩ := Language.mem_mul.mp inner
    obtain ⟨s, hs, _, rfl, rfl⟩ := Language.mem_mul.mp opening
    have shape : s ++ [':'] ++ hier ++ suffix = s ++ ':' :: (hier ++ suffix) := by simp
    rw [shape, cutAuthority, splitScheme_absolute hs]
    exact regular_of_hierarchy (mem_hierPart.mp hh) query
  · obtain ⟨w, part, suffix, query, rfl⟩ := Language.mem_mul.mp relative
    rw [cutAuthority, splitScheme_relative (relative_no_scheme part query)]
    have rootless : w ∈ pathNoscheme → w ∈ pathRootless := by
      intro noscheme
      exact (mem_pathNoscheme.mp noscheme).1
    refine regular_of_hierarchy ?_ query
    exact (mem_relativePart.mp part).imp_right (Or.imp_right (Or.imp_left rootless))

/-- An accepted redirect URI is derived from the grammar exactly if its authority is regular. -/
theorem derived_iff_regular {s : String} (accepted : isRedirect s.toList = true) :
    s.toList ∈ uriReference ↔ isRegular (cutAuthority s.toList).1 = true :=
  ⟨regular_of_derived, derived_of_regular accepted⟩

theorem userinfo_literal_port_derived :
    isRedirect "http://u:p@[::ffff:10.0.0.1]:80/cb?x=%41".toList = true ∧
      "http://u:p@[::ffff:10.0.0.1]:80/cb?x=%41".toList ∈ uriReference :=
  ⟨by decide +kernel, (derived_iff_regular (by decide +kernel)).mpr (by decide +kernel)⟩

/-- A second at sign is accepted, and no rule derives it. -/
theorem two_at_signs_not_derived :
    isRedirect "//a@b@c".toList = true ∧ "//a@b@c".toList ∉ uriReference := by
  refine ⟨by decide +kernel, fun derived => ?_⟩
  exact absurd (regular_of_derived derived) (by decide +kernel)

end ClientRegistry.Uri
