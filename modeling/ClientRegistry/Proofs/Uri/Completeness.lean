import ClientRegistry.Proofs.Uri.Derivation
import ClientRegistry.Proofs.Uri.Readable

/-! No reference that the grammar derives is turned away, if it is in ASCII, if its authority can
be read, and if more than a scheme or a double slash is left of it. Every part of a derivation is
carried through the cut and through each check. -/

open scoped Computability

namespace ClientRegistry.Uri

theorem escapesComplete_append_of_complete {a b : List Char} (ha : escapesComplete a = true)
    (hb : escapesComplete b = true) : escapesComplete (a ++ b) = true := by
  induction a using escapesComplete.induct with
  | case1 => exact hb
  | case2 x y rest ih =>
      rw [escapesComplete, Bool.and_eq_true] at ha
      change (isHexDigit x && isHexDigit y && escapesComplete (x :: y :: rest ++ b)) = true
      rw [ha.1, ih ha.2]
      rfl
  | case3 rest short =>
      rw [escapesComplete] at ha
      · cases ha
      · exact short
  | case4 c rest _ ne ih =>
      rw [escapesComplete_cons ne] at ha
      rw [List.cons_append, escapesComplete_cons ne]
      exact ih ha

theorem Encoded.append {p : Char → Bool} {a b : List Char} (ha : Encoded p a) (hb : Encoded p b) :
    Encoded p (a ++ b) :=
  ⟨List.forall_mem_append.mpr ⟨ha.1, hb.1⟩, escapesComplete_append_of_complete ha.2 hb.2⟩

namespace Grammar

variable {l m : Language Char} {p q : Char → Bool} {w : List Char}

/-- All texts of a language are made of characters of a class and of complete escapes. -/
def EncodedIn (p : Char → Bool) (l : Language Char) : Prop := ∀ w ∈ l, Encoded p w

theorem encodedIn_add (hl : EncodedIn p l) (hm : EncodedIn p m) : EncodedIn p (l + m) :=
  fun w h => ((Language.mem_add _ _ _).mp h).elim (hl w) (hm w)

theorem encodedIn_mul (hl : EncodedIn p l) (hm : EncodedIn p m) : EncodedIn p (l * m) := by
  rintro _ ⟨a, ha, b, hb, rfl⟩
  exact (hl a ha).append (hm b hb)

theorem encodedIn_one : EncodedIn p 1 := by
  rintro _ rfl
  exact .nil

theorem encodedIn_optional (h : EncodedIn p l) : EncodedIn p (optional l) :=
  encodedIn_add encodedIn_one h

theorem encodedIn_mono (h : EncodedIn p l) (sub : ∀ c, p c = true → q c = true) : EncodedIn q l :=
  fun w derived => (h w derived).mono fun c _ => sub c

theorem encodedIn_of_within (h : Within p l) (percent : p '%' = false) : EncodedIn p l := by
  intro w derived
  have absent : '%' ∉ w := notMem_of_within h derived percent
  refine ⟨fun c member => .inl (h w derived c member), ?_⟩
  clear derived
  induction w with
  | nil => rfl
  | cons c rest ih =>
      rw [List.mem_cons, not_or] at absent
      rw [escapesComplete_cons (Ne.symm absent.1)]
      exact ih absent.2

/-- The delimiters of a reference without a fragment. -/
def delims : List Char := [':', '/', '?', '[', ']', '@']

theorem encodedIn_word {v : List Char} (h : v.all (isAtom delims) = true) :
    EncodedIn (isAtom delims) (word v) :=
  encodedIn_of_within (within_word h) (by decide)

theorem encodedIn_authority : EncodedIn (isAtom delims) authority := by
  have some : ∀ {extra}, extra ⊆ delims → ∀ c, isAtom extra c = true → isAtom delims c = true :=
    fun sub _ => isAtom_mono sub
  have user : EncodedIn (isAtom delims) userinfo := fun w derived =>
    (mem_userinfo.mp derived).mono fun c _ => some (by decide) c
  have name : EncodedIn (isAtom delims) regName := fun w derived =>
    (mem_regName.mp derived).mono fun c _ => some (by decide) c
  have literal : EncodedIn (isAtom delims) (ipv6Address + ipvFuture) :=
    encodedIn_mono (encodedIn_of_within within_literal (by decide)) (some (by decide))
  have address : EncodedIn (isAtom delims) ipv4Address :=
    encodedIn_mono (encodedIn_of_within within_ipv4Address (by decide)) (some (by decide))
  have number : EncodedIn (isAtom delims) port := by
    rw [port, digit_eq]
    refine encodedIn_of_within (within_star (within_single fun c h => ?_)) (by decide)
    exact isAtom_of_isHexDigit delims (by simp only [isHexDigit, h, Bool.true_or])
  have bracketed : EncodedIn (isAtom delims) ipLiteral :=
    encodedIn_mul (encodedIn_mul (encodedIn_word (by decide)) literal) (encodedIn_word (by decide))
  exact encodedIn_mul (encodedIn_mul (encodedIn_optional (encodedIn_mul user
    (encodedIn_word (by decide)))) (encodedIn_add (encodedIn_add bracketed address) name))
    (encodedIn_optional (encodedIn_mul (encodedIn_word (by decide)) number))

theorem encoded_of_rootless (h : w ∈ pathRootless) : Encoded (isAtom [':', '@', '/']) w :=
  (mem_pathRootless.mp h).1

/-- A path of one of the forms that need no authority. -/
theorem encoded_of_bare (h : w ∈ pathAbsolute ∨ w ∈ pathRootless ∨ w ∈ pathEmpty) :
    Encoded (isAtom [':', '@', '/']) w := by
  rcases h with absolute | rootless | rfl
  · obtain ⟨rest, rfl, rfl | rootless⟩ := mem_pathAbsolute.mp absolute
    · exact (Encoded.append_iff (a := []) (by decide) (by decide)).mpr ⟨.nil, by decide, .nil⟩
    · exact (Encoded.append_iff (a := []) (by decide) (by decide)).mpr
        ⟨.nil, by decide, encoded_of_rootless rootless⟩
  · exact encoded_of_rootless rootless
  · exact .nil

theorem encodedIn_scheme : EncodedIn (isAtom delims) scheme := by
  have letters : Within isSchemeChar scheme := by
    rintro w derived c member
    obtain ⟨d, rest, rfl, letter, chars⟩ := mem_scheme.mp derived
    rcases List.mem_cons.mp member with rfl | inside
    · simp [isSchemeChar, letter]
    · exact chars c inside
  refine encodedIn_mono (encodedIn_of_within letters (by decide)) ?_
  intro c h
  simp only [isSchemeChar, isAtom, isUnreservedOrVisible, isUnreserved, isSubDelim, Bool.or_eq_true,
    List.contains_iff_mem, List.mem_cons, List.not_mem_nil, or_false] at h ⊢
  tauto

theorem encodedIn_query : EncodedIn (isAtom delims) (optional (word ['?'] * query)) :=
  encodedIn_optional (encodedIn_mul (encodedIn_word (by decide)) fun w derived =>
    (mem_query.mp derived).mono fun c _ => isAtom_mono (by decide))

/-- References with an authority from a language. -/
def withAuthority (l : Language Char) : Language Char :=
  optional (scheme * word [':']) * word ['/', '/'] * l * pathAbempty * optional (word ['?'] * query)

end Grammar

open Grammar

variable {text front a path suffix : List Char}

/-- A scheme and a colon, or nothing. -/
theorem front_cases (h : front ∈ optional (scheme * word [':'])) :
    front = [] ∨ ∃ s ∈ scheme, front = s ++ [':'] := by
  rcases mem_optional.mp h with rfl | ⟨s, derived, _, rfl, rfl⟩
  · exact .inl rfl
  · exact .inr ⟨s, derived, rfl⟩

/-- A reference without authority: its scheme, if it has one, its path and its query. -/
structure Bare (front path : List Char) : Prop where
  opening : front ∈ optional (scheme * word [':'])
  form : path ∈ pathAbsolute ∨ path ∈ pathRootless ∨ path ∈ pathEmpty
  relative : front = [] → path ∈ relativePart

theorem derived_cases (h : text ∈ uriReference) : text ∈ withAuthority Grammar.authority ∨
    ∃ front path, Bare front path ∧ ∃ suffix ∈ optional (word ['?'] * query),
      text = front ++ (path ++ suffix) := by
  rcases (Language.mem_add _ _ _).mp h with uri | relative
  · obtain ⟨_, ⟨front, opening, hier, middle, rfl⟩, suffix, query, rfl⟩ := Language.mem_mul.mp uri
    have named : front ∈ optional (scheme * word [':']) := mem_optional.mpr (.inr opening)
    rcases mem_hierPart.mp middle with slashes | bare
    · refine .inl (Language.append_mem_mul ?_ query)
      have whole := Language.append_mem_mul named slashes
      simpa only [mul_assoc] using whole
    · refine .inr ⟨front, hier, ⟨named, bare, fun none => ?_⟩, suffix, query, List.append_assoc ..⟩
      obtain ⟨s, _, _, rfl, rfl⟩ := opening
      simp at none
  · obtain ⟨hier, part, suffix, query, rfl⟩ := Language.mem_mul.mp relative
    have none : [] ∈ optional (scheme * word [':']) := mem_optional.mpr (.inl rfl)
    rcases mem_relativePart.mp part with slashes | bare
    · refine .inl (Language.append_mem_mul ?_ query)
      have whole := Language.append_mem_mul none slashes
      simpa only [mul_assoc, List.nil_append] using whole
    · refine .inr ⟨[], hier, ⟨none, ?_, fun _ => part⟩, suffix, query, rfl⟩
      exact bare.imp_right (Or.imp_left fun noscheme => (mem_pathNoscheme.mp noscheme).1)

/-- Nothing that begins with a slash has a scheme. -/
theorem splitScheme_slash (rest : List Char) : splitScheme ('/' :: rest) = ([], '/' :: rest) := by
  refine splitScheme_relative fun s more shape derived => ?_
  obtain ⟨c, tail, rfl, letter, _⟩ := mem_scheme.mp derived
  rw [← (List.cons.inj shape).1] at letter
  exact absurd letter (by decide)

theorem splitScheme_front (h : front ∈ optional (scheme * word [':'])) (rest : List Char) :
    (splitScheme (front ++ '/' :: rest)).2 = '/' :: rest := by
  rcases front_cases h with rfl | ⟨s, derived, rfl⟩
  · rw [List.nil_append, splitScheme_slash]
  · rw [List.append_assoc, List.singleton_append, splitScheme_absolute derived]

theorem Bare.cutAuthority (h : Bare front path) (query : suffix ∈ optional (word ['?'] * query)) :
    Uri.cutAuthority (front ++ (path ++ suffix)) = ([], path ++ suffix) := by
  have rest : (splitScheme (front ++ (path ++ suffix))).2 = path ++ suffix := by
    rcases front_cases h.opening with rfl | ⟨s, derived, rfl⟩
    · rw [List.nil_append, splitScheme_relative (relative_no_scheme (h.relative rfl) query)]
    · rw [List.append_assoc, List.singleton_append, splitScheme_absolute derived]
  rw [Uri.cutAuthority, rest, splitAuthority_bare (not_double_slash h.form query)]

/-- The query is cut off where the grammar begins it, and no part of the tail has a bracket. -/
theorem cut_tail (encoded : Encoded (isAtom [':', '@', '/']) path)
    (h : suffix ∈ optional (word ['?'] * query)) :
    (Text.cut '?' (path ++ suffix)).1 = path ∧ hasBracket path = false ∧
      hasBracket ((Text.cut '?' (path ++ suffix)).2.getD []) = false := by
  have mark : '?' ∉ path := notMem_of_encoded encoded (by decide) (by decide)
  have plain : hasBracket path = false := hasBracket_eq_false.mpr
    ⟨notMem_of_encoded encoded (by decide) (by decide),
      notMem_of_encoded encoded (by decide) (by decide)⟩
  rcases mem_optional.mp h with rfl | ⟨_, rfl, query, derived, rfl⟩
  · rw [List.append_nil, Text.cut_of_notMem mark]
    exact ⟨rfl, plain, rfl⟩
  · have inside := mem_query.mp derived
    change (Text.cut '?' (path ++ '?' :: query)).1 = path ∧ _ ∧
      hasBracket ((Text.cut '?' (path ++ '?' :: query)).2.getD []) = false
    rw [Text.cut_append mark]
    exact ⟨rfl, plain, hasBracket_eq_false.mpr
      ⟨notMem_of_encoded inside (by decide) (by decide),
        notMem_of_encoded inside (by decide) (by decide)⟩⟩

theorem admitted_of_encoded (encoded : Encoded (isAtom delims) text)
    (cut : cutAuthority text = (a, path ++ suffix))
    (brackets : bracketsOk a = true) (port : portOk a = true)
    (inside : Encoded (isAtom [':', '@', '/']) path)
    (query : suffix ∈ optional (word ['?'] * query))
    (colon : (splitScheme text).1 = [] → a = [] → ':' ∉ (Text.cut '/' path).1) :
    Admitted text := by
  obtain ⟨front, plain, plain'⟩ := cut_tail inside query
  exact {
    encoded := encoded.mono fun c _ => isAtom_mono (by decide)
    fragment := notMem_of_encoded encoded (by decide) (by decide)
    brackets := by rw [cut]; exact brackets
    port := by rw [cut]; exact port
    path := by rw [cut, front]; exact plain
    query := by rw [cut]; exact plain'
    colon := by rw [cut, front]; exact colon }

theorem Bare.admitted (h : Bare front path) (query : suffix ∈ optional (word ['?'] * query)) :
    Admitted (front ++ (path ++ suffix)) := by
  have inside := encoded_of_bare h.form
  have named : Encoded (isAtom delims) front :=
    encodedIn_optional (encodedIn_mul encodedIn_scheme (encodedIn_word (by decide))) front h.opening
  have encoded : Encoded (isAtom delims) (front ++ (path ++ suffix)) :=
    named.append ((inside.mono fun c _ => isAtom_mono (by decide)).append
      (encodedIn_query suffix query))
  refine admitted_of_encoded encoded (h.cutAuthority query) rfl rfl inside query fun none _ => ?_
  have relative : path ∈ relativePart := by
    refine h.relative ?_
    rcases front_cases h.opening with rfl | ⟨s, derived, rfl⟩
    · rfl
    · obtain ⟨c, more, rfl, _⟩ := mem_scheme.mp derived
      rw [List.append_assoc, List.singleton_append, splitScheme_absolute derived] at none
      cases none
  rcases mem_relativePart.mp relative with ⟨_, ⟨_, rfl, a, ha, rfl⟩, rest, _, rfl⟩ | absolute |
    noscheme | rfl
  · exact absurd rfl (not_double_slash h.form query (a ++ rest ++ suffix))
  · obtain ⟨rest, rfl, _⟩ := mem_pathAbsolute.mp absolute
    simp [Text.cut]
  · exact (mem_pathNoscheme.mp noscheme).2
  · simp [Text.cut]

theorem admitted_of_withAuthority (h : text ∈ withAuthority readableAuthority) : Admitted text := by
  obtain ⟨_, ⟨_, ⟨_, ⟨front, named, _, rfl, rfl⟩, a, readable, rfl⟩, path, abempty, rfl⟩, suffix,
    query, rfl⟩ := h
  have derived := readableAuthority_le readable
  obtain ⟨inside, slash⟩ := mem_segments.mp abempty
  have plain : ∀ c ∈ a, isAuthorityEnd c = false := fun c member => by
    simpa using within_authority a derived c member
  have shape : front ++ ['/', '/'] ++ a ++ path ++ suffix =
      front ++ '/' :: '/' :: (a ++ (path ++ suffix)) := by simp
  have encoded : Encoded (isAtom delims) (front ++ ['/', '/'] ++ a ++ path ++ suffix) := by
    have opening := encodedIn_optional (encodedIn_mul encodedIn_scheme
      (encodedIn_word (v := [':']) (by decide))) front named
    exact (((opening.append (encodedIn_word (v := ['/', '/']) (by decide) _ rfl)).append
      (encodedIn_authority a derived)).append (inside.mono fun c _ => isAtom_mono (by decide))).append
      (encodedIn_query suffix query)
  have cut : cutAuthority (front ++ ['/', '/'] ++ a ++ path ++ suffix) = (a, path ++ suffix) := by
    rw [shape, cutAuthority, splitScheme_front named,
      splitAuthority_slashes plain (atEnd_append slash query)]
  obtain ⟨brackets, port⟩ := authority_complete readable
  refine admitted_of_encoded encoded cut brackets port inside query fun _ _ => ?_
  rcases slash with rfl | ⟨rest, rfl⟩ <;> simp [Text.cut]

theorem plainlyDelimited_of_ascii {a : List Char} (ascii : ∀ c ∈ a, c.toNat < 0x80) :
    plainlyDelimited a = true := by
  have high : ∀ n ∈ disguised, 0x80 ≤ n := by decide
  simp only [plainlyDelimited, Bool.not_eq_true', List.any_eq_false, List.contains_iff_mem]
  intro c member disguise
  exact absurd (ascii c member) (Nat.not_lt.mpr (high _ disguise))

theorem subset_cutAuthority (text : List Char) : (cutAuthority text).1 ⊆ text := by
  refine List.Subset.trans ?_ (subset_splitScheme text)
  have authorized := splitAuthority_authorized (splitScheme text).2
  rw [cutAuthority]
  generalize splitAuthority (splitScheme text).2 = cut at authorized
  cases authorized with
  | slashes _ _ shape =>
      rw [shape]
      exact fun c member => List.mem_cons_of_mem _ (List.mem_cons_of_mem _
        (List.mem_append_left _ member))
  | bare none => exact List.nil_subset _

theorem splitScheme_snd_ne_nil (specific : text ∉ scheme * word [':'])
    (named : (splitScheme text).1 ≠ []) : (splitScheme text).2 ≠ [] := by
  have schemed := splitScheme_schemed text
  generalize splitScheme text = split at schemed named
  cases schemed with
  | absolute derived shape =>
      rintro rfl
      exact specific (shape ▸ Language.append_mem_mul derived (mem_word.mpr rfl))
  | relative none => exact absurd rfl named

theorem splitScheme_snd_ne_slashes (bare : text ∉ optional (scheme * word [':']) * word ['/', '/']) :
    (splitScheme text).2 ≠ ['/', '/'] := by
  have schemed := splitScheme_schemed text
  generalize splitScheme text = split at schemed
  cases schemed with
  | @absolute s rest derived shape =>
      rintro rfl
      refine bare (shape ▸ ?_)
      have opening : s ++ [':'] ∈ optional (scheme * word [':']) :=
        mem_optional.mpr (.inr (Language.append_mem_mul derived (mem_word.mpr rfl)))
      have whole := Language.append_mem_mul opening (mem_word (v := ['/', '/']).mpr rfl)
      simpa using whole
  | relative none =>
      rintro rfl
      exact bare (Language.append_mem_mul (mem_optional.mpr (.inl rfl)) (mem_word.mpr rfl))

theorem schemeOk_of_admitted (h : Admitted text) (specific : text ∉ scheme * word [':'])
    {parts : Parts} (named : parts.scheme = (splitScheme text).1)
    (authority : parts.authority = (cutAuthority text).1)
    (path : parts.path = (Text.cut '?' (cutAuthority text).2).1) : schemeOk parts text = true := by
  have fragment : '#' ∉ (splitScheme text).2 := fun member =>
    h.fragment (subset_splitScheme text member)
  rw [schemeOk, afterScheme_eq named, Text.cut_of_notMem fragment, named, authority, path]
  split
  next none =>
    have first := Decidable.imp_iff_not_or.mp (h.colon (List.isEmpty_iff.mp none))
    simpa using first
  next named =>
    have rest := splitScheme_snd_ne_nil specific (mt List.isEmpty_iff.mpr named)
    simpa using rest

/-- What an admitted text needs besides: something after its scheme, and more than two slashes. -/
theorem isRedirect_of_admitted (h : Admitted text)
    (delimited : plainlyDelimited (cutAuthority text).1 = true)
    (specific : text ∉ scheme * word [':'])
    (bare : text ∉ optional (scheme * word [':']) * word ['/', '/']) : isRedirect text = true := by
  have chars := encoded_iff.mpr h.encoded
  have tail : '#' ∉ (cutAuthority text).2 := fun member =>
    h.fragment (subset_splitScheme text (subset_splitAuthority _ member))
  have brackets : hasBracket ((Text.cut '?' (cutAuthority text).2).1 ++
      (Text.cut '?' (cutAuthority text).2).2.getD []) = false := by
    have left := hasBracket_eq_false.mp h.path
    have right := hasBracket_eq_false.mp h.query
    rw [hasBracket_eq_false]
    simp [left, right]
  have read := of?_eq (cleaned_of_uriChars (List.all_eq_true.mp chars.1)) tail
  rw [h.brackets, delimited, Bool.and_self, if_pos rfl] at read
  simp [isRedirect, isWellFormed, read, chars.1, chars.2, h.port, brackets, h.fragment,
    schemeOk_of_admitted h specific, afterScheme_eq, splitScheme_snd_ne_slashes bare]

/-- A reference in ASCII is accepted if its authority, should it have one, can be read, if its
scheme is not all of it, and if a double slash is not all that follows its scheme. -/
theorem isRedirect_of_derived {s : String} (derived : s.toList ∈ uriReference)
    (ascii : ∀ c ∈ s.toList, c.toNat < 0x80)
    (readable : s.toList ∈ withAuthority Grammar.authority →
      s.toList ∈ withAuthority readableAuthority)
    (specific : s.toList ∉ scheme * word [':'])
    (bare : s.toList ∉ optional (scheme * word [':']) * word ['/', '/']) :
    isRedirect s.toList = true := by
  have admitted : Admitted s.toList := by
    rcases derived_cases derived with slashes | ⟨front, path, form, suffix, query, shape⟩
    · exact admitted_of_withAuthority (readable slashes)
    · rw [shape]
      exact form.admitted query
  have delimited : plainlyDelimited (cutAuthority s.toList).1 = true :=
    plainlyDelimited_of_ascii fun c member => ascii c (subset_cutAuthority _ member)
  exact isRedirect_of_admitted admitted delimited specific bare

theorem encoded_of_all {p : Char → Bool} {w : List Char}
    (chars : (w.all fun c => p c || c == '%') = true) (escapes : escapesComplete w = true) :
    Encoded p w :=
  ⟨fun c member => by simpa using List.all_eq_true.mp chars c member, escapes⟩

/-- User information, an address of version 6 that ends in one of version 4, the greatest port,
colons and empty segments in the path, and delimiters in the query. -/
theorem literal_port_redirect :
    "x-y://a:b%40@[2001:db8::1.2.3.4]:65535/a:b//?q=/?".toList ∈ uriReference ∧
      isRedirect "x-y://a:b%40@[2001:db8::1.2.3.4]:65535/a:b//?q=/?".toList = true := by
  have opening : "x-y".toList ++ [':'] ∈ scheme * word [':'] :=
    Language.append_mem_mul
      (mem_scheme.mpr ⟨'x', ['-', 'y'], rfl, rfl, List.all_eq_true.mp rfl⟩) (mem_word.mpr rfl)
  have user : "a:b%40".toList ++ ['@'] ∈ optional (userinfo * word ['@']) :=
    mem_optional.mpr (.inr (Language.append_mem_mul
      (mem_userinfo.mpr (encoded_of_all (by decide +kernel) (by decide +kernel))) (mem_word.mpr rfl)))
  have address : "2001:db8::1.2.3.4".toList ∈ ipv6Address :=
    ipv6_sound (by decide +kernel) (by decide +kernel)
  have host : ['['] ++ "2001:db8::1.2.3.4".toList ++ [']'] ∈ readableHost :=
    .inl (.inl (Language.append_mem_mul (Language.append_mem_mul (mem_word.mpr rfl)
      ((Language.mem_add _ _ _).mpr (.inl address))) (mem_word.mpr rfl)))
  have port : ':' :: "65535".toList ∈ optional (word [':'] * smallPort) :=
    mem_optionalSmallPort.mpr (.inr ⟨_, rfl,
      mem_port.mpr (List.all_eq_true.mp (by decide +kernel)), by decide +kernel, by decide +kernel⟩)
  have readable : "a:b%40@[2001:db8::1.2.3.4]:65535".toList ∈ readableAuthority :=
    Language.append_mem_mul (Language.append_mem_mul user host) port
  have path : "/a:b//".toList ∈ pathAbempty :=
    mem_segments.mpr ⟨encoded_of_all (by decide +kernel) (by decide +kernel), .inr ⟨_, rfl⟩⟩
  have query : '?' :: "q=/?".toList ∈ optional (word ['?'] * Grammar.query) :=
    mem_optional.mpr (.inr (Language.append_mem_mul (mem_word.mpr rfl)
      (mem_query.mpr (encoded_of_all (by decide +kernel) (by decide +kernel)))))
  have slashes : ∀ {l : Language Char}, "a:b%40@[2001:db8::1.2.3.4]:65535".toList ∈ l →
      "x-y://a:b%40@[2001:db8::1.2.3.4]:65535/a:b//?q=/?".toList ∈ withAuthority l :=
    fun h => Language.append_mem_mul (Language.append_mem_mul (Language.append_mem_mul
      (Language.append_mem_mul (mem_optional.mpr (.inr opening)) (mem_word (v := ['/', '/']).mpr rfl))
      h) path) query
  have derived : "x-y://a:b%40@[2001:db8::1.2.3.4]:65535/a:b//?q=/?".toList ∈ uriReference :=
    (Language.mem_add _ _ _).mpr (.inl (Language.append_mem_mul (Language.append_mem_mul opening
      ((Language.mem_add _ _ _).mpr (.inl ((Language.mem_add _ _ _).mpr (.inl
        ((Language.mem_add _ _ _).mpr (.inl (Language.append_mem_mul (Language.append_mem_mul
          (mem_word (v := ['/', '/']).mpr rfl) (readableAuthority_le readable)) path)))))))) query))
  have low : ("x-y://a:b%40@[2001:db8::1.2.3.4]:65535/a:b//?q=/?".toList.all
      fun c => decide (c.toNat < 0x80)) = true := by decide +kernel
  have ascii := fun c member => of_decide_eq_true (List.all_eq_true.mp low c member)
  refine ⟨derived, isRedirect_of_derived derived ascii (fun _ => slashes readable) ?_ ?_⟩
  · rintro ⟨s, _, _, rfl, same⟩
    have last := congrArg List.getLast? same
    simp at last
  · rintro ⟨s, _, _, rfl, same⟩
    have last := congrArg List.getLast? same
    simp at last

end ClientRegistry.Uri
