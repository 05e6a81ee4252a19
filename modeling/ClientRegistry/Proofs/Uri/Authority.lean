import ClientRegistry.Proofs.Uri.Address
import ClientRegistry.Proofs.Uri.Parts

/-! Authorities. The checks let pass what the grammar derives, and more: several at signs,
brackets in the user information, and zones and brackets inside the brackets of a host. Without
these, an authority that passes the checks is derived from its rule. -/

open scoped Computability

namespace ClientRegistry.Uri

open Grammar

variable {authority user host inner behind : List Char}

/-- No bracket and no escape between the brackets of a host. -/
def isRegularHost (host : List Char) : Bool :=
  match Text.cut '[' host with
  | (_, some bracketed) => (Text.cut ']' bracketed).1.all fun c => c != '[' && c != '%'
  | (_, none) => true

/-- At most one at sign, no brackets in front of it, and a regular host. -/
def isRegular (authority : List Char) : Bool :=
  match Text.cut '@' authority with
  | (user, some host) => !hasBracket user && !host.contains '@' && isRegularHost host
  | (_, none) => isRegularHost authority

theorem ne_at_of_mem_reverse (absent : '@' ∉ host) : ∀ c ∈ host.reverse, (c != '@') = true := by
  intro c member
  rw [bne_iff_ne]
  rintro rfl
  exact absent (List.mem_reverse.mp member)

theorem hostPort_of_notMem (absent : '@' ∉ host) : hostPort host = host := by
  rw [hostPort, ← List.append_nil host.reverse,
    List.takeWhile_append_of_pos (ne_at_of_mem_reverse absent)]
  simp

/-- What follows the last at sign. -/
theorem hostPort_append (absent : '@' ∉ host) : hostPort (user ++ '@' :: host) = host := by
  rw [hostPort, List.reverse_append, List.reverse_cons, List.append_assoc,
    List.takeWhile_append_of_pos (ne_at_of_mem_reverse absent)]
  simp

theorem forall_ne_iff {w : List Char} {a b : Char} :
    (∀ c ∈ w, c ≠ a ∧ c ≠ b) ↔ a ∉ w ∧ b ∉ w := by
  constructor
  · intro h
    exact ⟨fun member => (h a member).1 rfl, fun member => (h b member).2 rfl⟩
  · rintro ⟨ha, hb⟩ c member
    constructor
    · rintro rfl
      exact ha member
    · rintro rfl
      exact hb member

theorem hasBracket_eq_false : hasBracket user = false ↔ '[' ∉ user ∧ ']' ∉ user := by
  simp only [hasBracket, List.any_eq_false, Bool.or_eq_true, beq_iff_eq, not_or]
  exact forall_ne_iff

/-- The rule for what follows the at sign. -/
def hostAndPort : Language Char := Grammar.host * optional (word [':'] * port)

theorem authority_eq :
    Grammar.authority = optional (userinfo * word ['@']) * hostAndPort := mul_assoc _ _ _

theorem portOk_digits (h : portOk authority = true) :
    ∀ c ∈ portText authority, isDigit c = true := by
  simp only [portOk, Bool.and_eq_true, List.all_eq_true] at h
  exact h.1.1

theorem mem_optionalPort {w : List Char} : w ∈ optional (word [':'] * port) ↔
    w = [] ∨ ∃ digits, w = ':' :: digits ∧ ∀ c ∈ digits, isDigit c = true := by
  rw [mem_optional]
  refine or_congr_right ⟨?_, ?_⟩
  · rintro ⟨_, rfl, digits, derived, rfl⟩
    exact ⟨digits, rfl, mem_port.mp derived⟩
  · rintro ⟨digits, rfl, each⟩
    exact Language.append_mem_mul (mem_word.mpr rfl) (mem_port.mpr each)

/-- A host without brackets is a name. -/
theorem name_sound (encoded : Encoded (isAtom [':']) host)
    (digits : ∀ c ∈ (Text.cut ':' host).2.getD [], isDigit c = true) : host ∈ hostAndPort := by
  rcases Text.cut_cases ':' host with ⟨absent, _⟩ | ⟨name, number, shape, absent, cut⟩
  · have name : host ∈ regName :=
      mem_regName.mpr (narrow encoded (by grind))
    rw [← List.append_nil host]
    exact Language.append_mem_mul ((Language.mem_add _ _ _).mpr (.inr name))
      (mem_optionalPort.mpr (.inl rfl))
  · rw [cut] at digits
    rw [shape, Encoded.append_iff (by decide) (by decide)] at encoded
    have derived : name ∈ regName :=
      mem_regName.mpr (narrow encoded.1 (by grind))
    rw [shape]
    exact Language.append_mem_mul ((Language.mem_add _ _ _).mpr (.inr derived))
      (mem_optionalPort.mpr (.inr ⟨number, rfl, digits⟩))

/-- Brackets around an address, and a port or nothing behind them. -/
theorem bracketed_sound (literal : isAddressLiteral inner = true)
    (chars : ∀ c ∈ inner, isAtom [':'] c = true) (port : behind ∈ optional (word [':'] * port)) :
    '[' :: (inner ++ ']' :: behind) ∈ hostAndPort := by
  have bracketed : ['['] ++ inner ++ [']'] ∈ ipLiteral :=
    Language.append_mem_mul (Language.append_mem_mul (mem_word.mpr rfl)
      (literal_sound literal chars)) (mem_word.mpr rfl)
  have derived : ['['] ++ inner ++ [']'] ++ behind ∈ hostAndPort :=
    Language.append_mem_mul ((Language.mem_add _ _ _).mpr (.inl ((Language.mem_add _ _ _).mpr
      (.inl bracketed)))) port
  simpa using derived

/-- The checks look past user information without brackets. -/
theorem bracketsOk_append (plain : hasBracket user = false) (absent : '@' ∉ host) :
    bracketsOk (user ++ '@' :: host) = bracketsOk host := by
  obtain ⟨opening, closing⟩ := hasBracket_eq_false.mp plain
  have first : (user ++ '@' :: host).contains '[' = host.contains '[' := by
    simp [opening]
  have final : (user ++ '@' :: host).contains ']' = host.contains ']' := by
    simp [closing]
  simp only [bracketsOk, literalHost?, first, final, hostPort_append absent,
    hostPort_of_notMem absent]

theorem portOk_append (absent : '@' ∉ host) : portOk (user ++ '@' :: host) = portOk host := by
  simp only [portOk, portText, hostPort_append absent, hostPort_of_notMem absent]

/-- Brackets stand nowhere, or around an address with which the host begins; a port may follow. -/
theorem bracketsOk_cases (absent : '@' ∉ host) (h : bracketsOk host = true) :
    ('[' ∉ host ∧ ']' ∉ host) ∨ ∃ inner behind, host = '[' :: (inner ++ ']' :: behind) ∧
      ']' ∉ inner ∧ isAddressLiteral inner = true ∧ (behind = [] ∨ ∃ n, behind = ':' :: n) := by
  simp only [bracketsOk, literalHost?, hostPort_of_notMem absent] at h
  cases opening : host.contains '[' with
  | false =>
      cases closing : host.contains ']' with
      | false => exact .inl ⟨by simpa using opening, by simpa using closing⟩
      | true => simp only [opening, closing, Bool.false_eq_true] at h
  | true =>
      cases closing : host.contains ']' with
      | false => simp only [opening, closing, Bool.false_eq_true] at h
      | true =>
          simp only [opening, closing] at h
          have opened : '[' ∈ host := by simpa using opening
          have closed : ']' ∈ host := by simpa using closing
          rcases Text.cut_cases '[' host with ⟨none, _⟩ | ⟨before, bracketed, shape, _, cut⟩
          · exact absurd opened none
          · cases before with
            | cons => simp [cut] at h
            | nil =>
                rw [List.nil_append] at shape
                rcases Text.cut_cases ']' bracketed with ⟨none, _⟩ | ⟨inner, behind, rfl, none, cut'⟩
                · rw [shape] at closed
                  simp [none] at closed
                · simp only [cut, cut', Option.getD_some] at h
                  refine .inr ⟨inner, behind, shape, none, ?_⟩
                  cases behind with
                  | nil => exact ⟨h, .inl rfl⟩
                  | cons c number =>
                      by_cases colon : c = ':'
                      · subst colon
                        exact ⟨h, .inr ⟨number, rfl⟩⟩
                      · simp [colon] at h

theorem portText_plain (absent : '@' ∉ host) (opening : '[' ∉ host) :
    portText host = (Text.cut ':' host).2.getD [] := by
  rw [portText, hostPort_of_notMem absent, Text.cut_of_notMem opening]

theorem portText_bracketed (absent : '@' ∉ '[' :: (inner ++ ']' :: behind)) (closing : ']' ∉ inner) :
    portText ('[' :: (inner ++ ']' :: behind)) = (Text.cut ':' behind).2.getD [] := by
  simp only [portText, hostPort_of_notMem absent, Text.cut, if_true, Text.cut_append closing,
    Option.getD_some]

theorem isRegularHost_bracketed (closing : ']' ∉ inner) :
    isRegularHost ('[' :: (inner ++ ']' :: behind)) = true ↔ '[' ∉ inner ∧ '%' ∉ inner := by
  simp only [isRegularHost, Text.cut, if_true, Text.cut_append closing, List.all_eq_true,
    Bool.and_eq_true, bne_iff_ne]
  exact forall_ne_iff

theorem host_sound (encoded : Encoded (isAtom [':', '[', ']']) host) (absent : '@' ∉ host)
    (brackets : bracketsOk host = true) (digits : portOk host = true)
    (regular : isRegularHost host = true) : host ∈ hostAndPort := by
  have numbers := portOk_digits digits
  rcases bracketsOk_cases absent brackets with
    ⟨opening, closing⟩ | ⟨inner, behind, rfl, closing, literal, colon⟩
  · rw [portText_plain absent opening] at numbers
    exact name_sound (narrow encoded (by grind)) numbers
  · rw [portText_bracketed absent closing] at numbers
    obtain ⟨opening, percent⟩ := (isRegularHost_bracketed closing).mp regular
    have chars : ∀ c ∈ inner, isAtom [':'] c = true := by
      intro c member
      have inside : c ∈ '[' :: (inner ++ ']' :: behind) := by simp [member]
      have plain : c ≠ '%' := fun same => percent (same ▸ member)
      have atom := (encoded.1 c inside).resolve_right plain
      rw [isAtom_iff] at atom ⊢
      exact atom.imp_right fun delimiter => by grind
    refine bracketed_sound literal chars (mem_optionalPort.mpr (colon.imp_right ?_))
    rintro ⟨number, rfl⟩
    simp only [Text.cut, if_true, Option.getD_some] at numbers
    exact ⟨number, rfl, numbers⟩

theorem authority_sound (encoded : Encoded (isAtom [':', '@', '[', ']']) authority)
    (brackets : bracketsOk authority = true) (digits : portOk authority = true)
    (regular : isRegular authority = true) : authority ∈ Grammar.authority := by
  simp only [isRegular] at regular
  rcases Text.cut_cases '@' authority with ⟨absent, cut⟩ | ⟨user, host, shape, absent, cut⟩
  · rw [cut] at regular
    have host : authority ∈ hostAndPort :=
      host_sound (narrow encoded (by grind)) absent brackets digits regular
    rw [authority_eq, ← List.nil_append authority]
    exact Language.append_mem_mul (mem_optional.mpr (.inl rfl)) host
  · rw [cut] at regular
    simp only [Bool.and_eq_true, Bool.not_eq_true'] at regular
    obtain ⟨⟨plain, single⟩, regularHost⟩ := regular
    have once : '@' ∉ host := by simpa using single
    rw [shape, Encoded.append_iff (by decide) (by decide)] at encoded
    rw [shape, bracketsOk_append plain once] at brackets
    rw [shape, portOk_append once] at digits
    obtain ⟨opening, closing⟩ := hasBracket_eq_false.mp plain
    have named : user ∈ userinfo := mem_userinfo.mpr (narrow encoded.1 (by grind))
    have derived : host ∈ hostAndPort :=
      host_sound (narrow encoded.2.2 (by grind)) once brackets digits
        regularHost
    have whole := Language.append_mem_mul (mem_optional.mpr (.inr
      (Language.append_mem_mul named (mem_word (v := ['@']).mpr rfl)))) derived
    rw [shape, authority_eq]
    simpa using whole

theorem within_literal : Within (isAtom [':']) (ipv6Address + ipvFuture) :=
  within_add within_ipv6Address within_ipvFuture

/-- A host that is no literal in brackets holds neither brackets nor at signs. -/
theorem plain_of_name {w : List Char} (derived : w ∈ ipv4Address ∨ w ∈ regName) :
    '[' ∉ w ∧ '@' ∉ w := by
  rcases derived with address | name
  · exact ⟨notMem_of_within within_ipv4Address address (by decide),
      notMem_of_within within_ipv4Address address (by decide)⟩
  · have encoded := mem_regName.mp name
    exact ⟨notMem_of_encoded encoded (by decide) (by decide),
      notMem_of_encoded encoded (by decide) (by decide)⟩

theorem plain_of_port {w : List Char} (derived : w ∈ optional (word [':'] * port)) :
    '[' ∉ w ∧ '@' ∉ w := by
  rcases mem_optionalPort.mp derived with rfl | ⟨digits, rfl, each⟩
  · simp
  · have opening : '[' ∉ digits := fun member => absurd (each _ member) (by decide)
    have mark : '@' ∉ digits := fun member => absurd (each _ member) (by decide)
    simp [opening, mark]

theorem regular_of_mem_hostAndPort {w : List Char} (derived : w ∈ hostAndPort) :
    '@' ∉ w ∧ isRegularHost w = true := by
  obtain ⟨host, named, suffix, behind, rfl⟩ := Language.mem_mul.mp derived
  obtain ⟨opening, mark⟩ := plain_of_port behind
  have alternatives : host ∈ ipLiteral ∨ host ∈ ipv4Address ∨ host ∈ regName := by
    simpa only [Grammar.host, Language.mem_add, or_assoc] using named
  rcases alternatives with ⟨_, ⟨_, rfl, inner, literal, rfl⟩, _, rfl, rfl⟩ | name
  · have absent : ∀ d, isAtom [':'] d = false → d ∉ inner :=
      fun d other => notMem_of_within within_literal literal other
    have shape : ['['] ++ inner ++ [']'] ++ suffix = '[' :: (inner ++ ']' :: suffix) := by simp
    change '@' ∉ ['['] ++ inner ++ [']'] ++ suffix ∧
      isRegularHost (['['] ++ inner ++ [']'] ++ suffix) = true
    rw [shape]
    constructor
    · simp [mark, absent '@' (by decide)]
    · exact (isRegularHost_bracketed (absent ']' (by decide))).mpr
        ⟨absent '[' (by decide), absent '%' (by decide)⟩
  · obtain ⟨opening', mark'⟩ := plain_of_name name
    have none : '[' ∉ host ++ suffix := by simp [opening, opening']
    refine ⟨by simp [mark, mark'], ?_⟩
    rw [isRegularHost, Text.cut_of_notMem none]

theorem regular_of_mem (derived : authority ∈ Grammar.authority) : isRegular authority = true := by
  rw [authority_eq] at derived
  obtain ⟨lead, named, host, derived', rfl⟩ := Language.mem_mul.mp derived
  obtain ⟨mark, regular⟩ := regular_of_mem_hostAndPort derived'
  rcases mem_optional.mp named with rfl | ⟨user, info, _, rfl, rfl⟩
  · change isRegular host = true
    rw [isRegular, Text.cut_of_notMem mark]
    exact regular
  · have encoded := mem_userinfo.mp info
    have absent : '@' ∉ user := notMem_of_encoded encoded (by decide) (by decide)
    have plain : hasBracket user = false := hasBracket_eq_false.mpr
      ⟨notMem_of_encoded encoded (by decide) (by decide),
        notMem_of_encoded encoded (by decide) (by decide)⟩
    change isRegular (user ++ ['@'] ++ host) = true
    rw [List.append_assoc, List.singleton_append, isRegular, Text.cut_append absent]
    simp [plain, mark, regular]

/-- No delimiter that ends an authority is part of one. -/
theorem within_authority : Within (fun c => !isAuthorityEnd c) Grammar.authority := by
  have atom : ∀ c, isAtom [':', '@', '[', ']'] c = true → (!isAuthorityEnd c) = true := by
    intro c h
    cases ends : isAuthorityEnd c with
    | false => rfl
    | true =>
        simp only [isAuthorityEnd, Bool.or_eq_true, beq_iff_eq] at ends
        rcases ends with (rfl | rfl) | rfl <;> exact absurd h (by decide)
  have some : ∀ {extra}, extra ⊆ [':', '@', '[', ']'] → ∀ c, isAtom extra c = true →
      (!isAuthorityEnd c) = true := fun sub c h => atom c (isAtom_mono sub h)
  have escape : Within (fun c => !isAuthorityEnd c) pctEncoded :=
    within_pctEncoded rfl fun c h => some (List.nil_subset _) c (isAtom_of_isHexDigit [] h)
  have literal : Within (fun c => !isAuthorityEnd c) ipLiteral :=
    within_mul (within_mul (within_word (by decide)) (within_mono within_literal (some (by simp))))
      (within_word (by decide))
  have name : Within (fun c => !isAuthorityEnd c) regName := by
    rw [regName, regNameChar_eq]
    exact within_star (within_add (within_single (some (by simp))) escape)
  have user : Within (fun c => !isAuthorityEnd c) userinfo := by
    rw [userinfo, userinfoChar_eq]
    exact within_star (within_add (within_single (some (by simp))) escape)
  have number : Within (fun c => !isAuthorityEnd c) port := by
    rw [port, digit_eq]
    refine within_star (within_single fun c h => some (List.nil_subset _) c ?_)
    exact isAtom_of_isHexDigit [] (by simp only [isHexDigit, h, Bool.true_or])
  have host : Within (fun c => !isAuthorityEnd c) Grammar.host :=
    within_add (within_add literal (within_mono within_ipv4Address (some (by simp)))) name
  exact within_mul (within_mul (within_optional (within_mul user (within_word (by decide)))) host)
    (within_optional (within_mul (within_word (by decide)) number))

end ClientRegistry.Uri
