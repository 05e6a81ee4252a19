import ClientRegistry.Proofs.Text.Spelling
import ClientRegistry.Proofs.Uri.Rules
import ClientRegistry.Uri.Redirect

/-! How a text of URI characters is cut apart. Nothing is stripped or removed, and each cut is
the one that the grammar makes: a scheme is all in front of the first colon, an authority all
from a double slash to the next delimiter. -/

namespace ClientRegistry.Uri

open Grammar

/-- The delimiters between the parts of a URI. -/
def genDelims : List Char := [':', '/', '?', '#', '[', ']', '@']

theorem isUriChar_iff {c : Char} : isUriChar c = true ↔ isAtom genDelims c = true ∨ c = '%' := by
  simp only [isUriChar, isAtom, isUnreservedOrVisible, isGenDelim, genDelims, Bool.or_eq_true,
    beq_iff_eq]
  tauto

theorem encoded_iff {text : List Char} :
    text.all isUriChar = true ∧ escapesComplete text = true ↔ Encoded (isAtom genDelims) text := by
  simp only [Encoded, List.all_eq_true, isUriChar_iff]

/-- No space and no control character is a URI character. -/
theorem lt_toNat_of_isUriChar {c : Char} (h : isUriChar c = true) : 0x20 < c.toNat := by
  simp [isUriChar, isUnreserved, isLetter, isDigit, isGenDelim, isSubDelim, isVisibleOther,
    le_iff_toNat_le, eq_iff_toNat_eq] at h
  omega

theorem cleaned_of_uriChars {text : List Char} (h : ∀ c ∈ text, isUriChar c = true) :
    cleaned text = text := by
  have kept : text.dropWhile isLeadingJunk = text := by
    cases text with
    | nil => rfl
    | cons c rest =>
        have low := lt_toNat_of_isUriChar (h c List.mem_cons_self)
        rw [List.dropWhile_cons_of_neg]
        simp only [isLeadingJunk, decide_eq_true_eq]
        omega
  rw [cleaned, kept, List.filter_eq_self]
  intro c member
  have low := lt_toNat_of_isUriChar (h c member)
  simp only [isLineBreakOrTab, Bool.not_eq_true', Bool.or_eq_false_iff, beq_eq_false_iff_ne]
  refine ⟨⟨?_, ?_⟩, ?_⟩ <;> rintro rfl <;> exact absurd low (by decide)

variable {text s rest a tail : List Char}

theorem notMem_scheme (h : s ∈ scheme) {d : Char} (other : isSchemeChar d = false) : d ∉ s := by
  obtain ⟨c, more, rfl, letter, chars⟩ := mem_scheme.mp h
  rw [List.mem_cons, not_or]
  constructor
  · rintro rfl
    simp [isSchemeChar, letter] at other
  · intro member
    rw [chars d member] at other
    cases other

theorem mem_scheme_iff :
    (match s with
      | c :: _ => isLetter c && s.all isSchemeChar
      | [] => false) = true ↔ s ∈ scheme := by
  rw [mem_scheme]
  cases s with
  | nil => simp
  | cons c more =>
      have letter : isLetter c = true → isSchemeChar c = true := fun h => by simp [isSchemeChar, h]
      simp only [List.all_cons, Bool.and_eq_true, List.all_eq_true, List.cons.injEq]
      constructor
      · rintro ⟨first, _, others⟩
        exact ⟨c, more, ⟨rfl, rfl⟩, first, others⟩
      · rintro ⟨_, _, ⟨rfl, rfl⟩, first, others⟩
        exact ⟨first, letter first, others⟩

/-- What a text is cut into at the end of its scheme, if it has one. -/
inductive Schemed (text : List Char) : List Char × List Char → Prop
  | absolute {s rest : List Char} (derived : s ∈ scheme) (shape : text = s ++ ':' :: rest) :
      Schemed text (s.map lowerAscii, rest)
  | relative (none : ∀ s rest, text = s ++ ':' :: rest → s ∉ scheme) : Schemed text ([], text)

theorem splitScheme_absolute (derived : s ∈ scheme) :
    splitScheme (s ++ ':' :: rest) = (s.map lowerAscii, rest) := by
  rw [splitScheme, Text.cut_append (notMem_scheme derived (by decide))]
  exact if_pos (mem_scheme_iff.mpr derived)

theorem splitScheme_relative (none : ∀ s rest, text = s ++ ':' :: rest → s ∉ scheme) :
    splitScheme text = ([], text) := by
  rcases Text.cut_cases ':' text with ⟨_, cut⟩ | ⟨a, b, shape, _, cut⟩
  · rw [splitScheme, cut]
  · rw [splitScheme, cut]
    exact if_neg fun valid => none a b shape (mem_scheme_iff.mp valid)

theorem splitScheme_schemed (text : List Char) : Schemed text (splitScheme text) := by
  by_cases absolute : ∃ s rest, text = s ++ ':' :: rest ∧ s ∈ scheme
  · obtain ⟨s, rest, rfl, derived⟩ := absolute
    rw [splitScheme_absolute derived]
    exact .absolute derived rfl
  · have none : ∀ s rest, text = s ++ ':' :: rest → s ∉ scheme :=
      fun s rest shape derived => absolute ⟨s, rest, shape, derived⟩
    rw [splitScheme_relative none]
    exact .relative none

/-- The length of the scheme tells where it ends. -/
theorem afterScheme_eq {parts : Parts} (h : parts.scheme = (splitScheme text).1) :
    afterScheme parts text = (splitScheme text).2 := by
  rw [afterScheme, h]
  have schemed := splitScheme_schemed text
  generalize splitScheme text = split at schemed
  cases schemed with
  | @absolute s rest derived shape =>
      obtain ⟨c, more, rfl, _⟩ := mem_scheme.mp derived
      rw [List.map_cons, List.isEmpty_cons, if_neg Bool.false_ne_true, shape, List.append_cons]
      exact List.drop_left' (by simp)
  | relative none => rfl

theorem lt_of_isSchemeChar {c : Char} (h : isSchemeChar c = true) : c.toNat < 0x80 := by
  simp [isSchemeChar, isLetter, isDigit, le_iff_toNat_le, eq_iff_toNat_eq] at h
  omega

theorem lowerAscii_eq (c : Char) : lowerAscii c = c.toLower := by
  have bounds : 'A' ≤ c ∧ c ≤ 'Z' ↔ 0x41 ≤ c.toNat ∧ c.toNat ≤ 0x5A := Iff.rfl
  unfold lowerAscii
  split
  · next capital =>
      rw [← Char.ofNat_toNat c.toLower, Text.toNat_toLower, if_pos (bounds.mp capital)]
  · next plain => exact (Text.toLower_of_not_capital (mt bounds.mpr plain)).symm

theorem lower_scheme (derived : s ∈ scheme) : Text.lower s = s.map lowerAscii := by
  obtain ⟨c, more, rfl, letter, chars⟩ := mem_scheme.mp derived
  have first : isSchemeChar c = true := by simp [isSchemeChar, letter]
  have ascii : ∀ d ∈ c :: more, d.toNat < 0x80 := by
    intro d member
    rcases List.mem_cons.mp member with rfl | later
    · exact lt_of_isSchemeChar first
    · exact lt_of_isSchemeChar (chars d later)
  rw [Text.lower_ascii ascii, funext lowerAscii_eq]

/-- Nothing, or a delimiter that ends an authority and more. -/
def AtEnd (w : List Char) : Prop := w = [] ∨ ∃ c rest, w = c :: rest ∧ isAuthorityEnd c = true

inductive Authorized (text : List Char) : List Char × List Char → Prop
  | slashes {a tail : List Char} (plain : ∀ c ∈ a, isAuthorityEnd c = false) (stop : AtEnd tail)
      (shape : text = '/' :: '/' :: (a ++ tail)) : Authorized text (a, tail)
  | bare (none : ∀ more, text ≠ '/' :: '/' :: more) : Authorized text ([], text)

theorem splitAuthority_slashes (plain : ∀ c ∈ a, isAuthorityEnd c = false) (stop : AtEnd tail) :
    splitAuthority ('/' :: '/' :: (a ++ tail)) = (a, tail) := by
  have inside : ∀ c ∈ a, (!isAuthorityEnd c) = true := fun c member => by rw [plain c member]; rfl
  rw [splitAuthority, List.takeWhile_append_of_pos inside, List.dropWhile_append_of_pos inside]
  rcases stop with rfl | ⟨c, rest, rfl, ends⟩
  · simp
  · simp [ends]

theorem splitAuthority_bare (none : ∀ more, text ≠ '/' :: '/' :: more) :
    splitAuthority text = ([], text) := by
  rw [splitAuthority]
  exact none

theorem splitAuthority_authorized (text : List Char) : Authorized text (splitAuthority text) := by
  by_cases slashes : ∃ more, text = '/' :: '/' :: more
  · obtain ⟨more, rfl⟩ := slashes
    have shape := List.takeWhile_append_dropWhile (p := fun c => !isAuthorityEnd c) (l := more)
    refine .slashes (fun c member => ?_) ?_ (by rw [shape])
    · have all := List.all_takeWhile (p := fun c => !isAuthorityEnd c) (l := more)
      simpa using List.all_eq_true.mp all c member
    · cases rest : more.dropWhile fun c => !isAuthorityEnd c with
      | nil => exact .inl rfl
      | cons c tail =>
          have head := List.head?_dropWhile_not (fun c => !isAuthorityEnd c) more
          rw [rest] at head
          exact .inr ⟨c, tail, rfl, by simpa using head⟩
  · have none : ∀ more, text ≠ '/' :: '/' :: more := fun more shape => slashes ⟨more, shape⟩
    rw [splitAuthority_bare none]
    exact .bare none

/-- A part stands behind its mark. Without the mark there is no part. -/
inductive Marked (mark part : List Char) : List Char → Prop
  | present : Marked mark part (mark ++ part)
  | absent (none : part = []) : Marked mark part []

theorem cut_marked (d : Char) (text : List Char) :
    d ∉ (Text.cut d text).1 ∧
      ∃ w, Marked [d] ((Text.cut d text).2.getD []) w ∧ text = (Text.cut d text).1 ++ w := by
  rcases Text.cut_cases d text with ⟨absent, cut⟩ | ⟨a, b, shape, absent, cut⟩
  · rw [cut]
    exact ⟨absent, [], .absent rfl, by simp⟩
  · rw [cut]
    exact ⟨absent, d :: b, .present, shape⟩

/-- A text laid out in parts, in their order: the authority behind two slashes, the path, the
query behind its mark and the fragment behind its mark. -/
structure Parts.LaidOut (parts : Parts) (text a q f : List Char) : Prop where
  shape : text = a ++ parts.path ++ q ++ f
  slashes : Marked ['/', '/'] parts.authority a
  query : Marked ['?'] parts.query q
  fragment : Marked ['#'] parts.fragment f
  -- Two slashes always begin an authority, and a path behind one begins with a slash.
  bare : a = [] → ∀ more, text ≠ '/' :: '/' :: more
  rooted : a ≠ [] → parts.path = [] ∨ ∃ more, parts.path = '/' :: more
  authorityPlain : '/' ∉ parts.authority ∧ '?' ∉ parts.authority ∧ '#' ∉ parts.authority
  pathPlain : '?' ∉ parts.path ∧ '#' ∉ parts.path
  queryPlain : '#' ∉ parts.query

theorem Marked.notMem {mark part w : List Char} (marked : Marked mark part w) {d : Char}
    (absent : d ∉ w) : d ∉ part := by
  cases marked with
  | present => exact fun member => absent (List.mem_append_right _ member)
  | absent none => exact none ▸ List.not_mem_nil

theorem rooted_of_atEnd {path behind : List Char} (ends : AtEnd (path ++ behind))
    (plain : '?' ∉ path ∧ '#' ∉ path) : path = [] ∨ ∃ more, path = '/' :: more := by
  cases path with
  | nil => exact .inl rfl
  | cons c more =>
      right
      rcases ends with none | ⟨d, rest, same, delimiter⟩
      · cases none
      · rw [List.cons_append, List.cons.injEq] at same
        rw [← same.1] at delimiter
        simp only [isAuthorityEnd, Bool.or_eq_true, beq_iff_eq] at delimiter
        simp only [List.mem_cons, not_or] at plain
        rcases delimiter with (slash | question) | hash
        · exact ⟨more, by rw [slash]⟩
        · exact absurd question.symm plain.1.1
        · exact absurd hash.symm plain.2.1

theorem notMem_of_plain (plain : ∀ c ∈ a, isAuthorityEnd c = false) {d : Char}
    (delimiter : isAuthorityEnd d = true) : d ∉ a := by
  intro member
  rw [plain d member] at delimiter
  cases delimiter

/-- The parts of what is left after the scheme. -/
def Parts.ofRest (scheme rest : List Char) : Parts :=
  let cut := splitAuthority rest
  let whole := Text.cut '#' cut.2
  let front := Text.cut '?' whole.1
  ⟨scheme, cut.1, front.1, front.2.getD [], whole.2.getD []⟩

theorem Parts.eq_ofRest {parts : Parts} (read : Parts.of? text = some parts) :
    parts = .ofRest (splitScheme (cleaned text)).1 (splitScheme (cleaned text)).2 := by
  unfold Parts.of? at read
  exact (Option.some.inj (Option.ite_none_right_eq_some.mp read).2).symm

theorem Parts.ofRest_laidOut (scheme rest : List Char) :
    ∃ a q f, (Parts.ofRest scheme rest).LaidOut rest a q f := by
  have authorized := splitAuthority_authorized rest
  unfold Parts.ofRest
  generalize splitAuthority rest = cut at authorized
  obtain ⟨hash, f, fragment, whole⟩ := cut_marked '#' cut.2
  obtain ⟨question, q, query, front⟩ := cut_marked '?' (Text.cut '#' cut.2).1
  rw [front, List.mem_append, not_or] at hash
  have behind : cut.2 = (Text.cut '?' (Text.cut '#' cut.2).1).1 ++ (q ++ f) := by
    rw [← List.append_assoc, ← front, ← whole]
  have pathPlain := And.intro question hash.1
  have queryPlain := query.notMem hash.2
  cases authorized with
  | @slashes authority tail plain stop shape =>
      have plain' : ∀ {d}, isAuthorityEnd d = true → d ∉ authority := notMem_of_plain plain
      refine ⟨'/' :: '/' :: authority, q, f, ?_⟩
      exact {
        slashes := .present, query, fragment, pathPlain, queryPlain
        authorityPlain := ⟨plain' rfl, plain' rfl, plain' rfl⟩
        bare := nofun
        shape := by
          rw [shape, List.append_assoc, List.append_assoc, ← behind]
          rfl
        rooted := by
          intro _
          have stop' : AtEnd (authority, tail).2 := stop
          rw [behind] at stop'
          exact rooted_of_atEnd stop' pathPlain }
  | bare none =>
      refine ⟨[], q, f, ?_⟩
      exact {
        slashes := .absent rfl, query, fragment, pathPlain, queryPlain
        authorityPlain := ⟨List.not_mem_nil, List.not_mem_nil, List.not_mem_nil⟩
        bare := fun _ => none
        shape := by
          rw [List.append_assoc, List.append_assoc, ← behind]
          rfl
        rooted := fun some => absurd rfl some }

/-- Of a text of URI characters nothing is lost. A scheme is what stands in front of the first
colon, in lower case, and the other parts are what the text behind it is laid out in; without a
scheme they are the whole text. -/
theorem parts_partition {parts : Parts} (chars : text.all isUriChar = true)
    (read : Parts.of? text = some parts) :
    cleaned text = text ∧
    (parts.scheme ≠ [] →
      ∃ s ∈ scheme, Text.lower s = parts.scheme ∧ text = s ++ ':' :: afterScheme parts text) ∧
    (parts.scheme = [] →
      (∀ s rest, text = s ++ ':' :: rest → s ∉ scheme) ∧ afterScheme parts text = text) ∧
    ∃ a q f, parts.LaidOut (afterScheme parts text) a q f := by
  have clean := cleaned_of_uriChars (List.all_eq_true.mp chars)
  have cut := Parts.eq_ofRest read
  rw [clean] at cut
  have named : parts.scheme = (splitScheme text).1 := by
    rw [cut]
    rfl
  have laidOut := Parts.ofRest_laidOut (splitScheme text).1 (splitScheme text).2
  rw [← cut] at laidOut
  rw [afterScheme_eq named]
  have schemed := splitScheme_schemed text
  generalize splitScheme text = split at schemed named laidOut
  cases schemed with
  | @absolute s rest derived shape =>
      refine ⟨clean, ?_, ?_, laidOut⟩
      · intro _
        exact ⟨s, derived, (lower_scheme derived).trans named.symm, shape⟩
      · obtain ⟨c, more, rfl, _⟩ := mem_scheme.mp derived
        intro none
        rw [named] at none
        cases none
  | relative none =>
      refine ⟨clean, ?_, ?_, laidOut⟩
      · exact fun some => absurd named some
      · exact fun _ => ⟨none, rfl⟩

/-- Every part is there, and each but the scheme holds the mark of another one. -/
def crowded : List Char := "HTTPS://u:@host:1/a:b//c?x=?/é#/?f".toList

def crowdedParts : Parts :=
  ⟨"https".toList, "u:@host:1".toList, "/a:b//c".toList, "x=?/é".toList, "/?f".toList⟩

theorem crowded_partition :
    crowded.all isUriChar = true ∧ Parts.of? crowded = some crowdedParts ∧
    (∃ s ∈ scheme, Text.lower s = "https".toList ∧
      crowded = s ++ ':' :: afterScheme crowdedParts crowded) ∧
    ∃ a q f, crowdedParts.LaidOut (afterScheme crowdedParts crowded) a q f := by
  have chars : crowded.all isUriChar = true := by decide +kernel
  have read : Parts.of? crowded = some crowdedParts := by rfl
  have partition := parts_partition chars read
  exact ⟨chars, read, partition.2.1 (by decide), partition.2.2.2⟩

end ClientRegistry.Uri
