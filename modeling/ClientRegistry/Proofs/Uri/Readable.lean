import ClientRegistry.Proofs.Uri.Authority
import ClientRegistry.Proofs.Uri.Literal

/-! Authorities that can be read: those of the grammar whose port is a number that ports can be,
and whose host, if it stands in brackets, is no address of a future version with a capital letter.
They pass the checks of brackets and ports. -/

open scoped Computability

namespace ClientRegistry.Uri

namespace Grammar

/-- At most five digits, and a value of at most 65535. -/
def smallPort : Language Char := {w | w ∈ port ∧ w.length ≤ 5 ∧ Numeral.value w ≤ 65535}

def lowerFuture : Language Char := {w | w ∈ ipvFuture ∧ w.head? = some 'v'}

def readableHost : Language Char :=
  word ['['] * (ipv6Address + lowerFuture) * word [']'] + ipv4Address + regName

def readableAuthority : Language Char :=
  optional (userinfo * word ['@']) * readableHost * optional (word [':'] * smallPort)

end Grammar

open Grammar

variable {authority user host inner behind : List Char}

theorem mem_optionalSmallPort {w : List Char} : w ∈ optional (word [':'] * smallPort) ↔
    w = [] ∨ ∃ digits, w = ':' :: digits ∧ digits ∈ smallPort := by
  rw [mem_optional]
  refine or_congr_right ⟨?_, ?_⟩
  · rintro ⟨_, rfl, digits, derived, rfl⟩
    exact ⟨digits, rfl, derived⟩
  · rintro ⟨digits, rfl, derived⟩
    exact Language.append_mem_mul (mem_word.mpr rfl) derived

/-- No delimiter but the colon is part of a port. -/
theorem notMem_of_smallPort (h : behind ∈ optional (word [':'] * smallPort)) {d : Char}
    (plain : d ≠ ':') (other : isDigit d = false) : d ∉ behind := by
  rcases mem_optionalSmallPort.mp h with rfl | ⟨digits, rfl, derived, _⟩
  · simp
  · rw [List.mem_cons, not_or]
    refine ⟨plain, fun member => ?_⟩
    rw [mem_port.mp derived d member] at other
    cases other

/-- No delimiter is part of a name. -/
theorem notMem_of_name (h : host ∈ ipv4Address ∨ host ∈ regName) {d : Char} (plain : d ≠ '%')
    (dot : d ≠ '.') (digit : isDigit d = false) (other : isAtom [] d = false) : d ∉ host := by
  rcases h with address | name
  · exact notMem_of_isIpv4 (ipv4_complete address) dot digit
  · exact notMem_of_encoded (mem_regName.mp name) other plain

theorem portOk_of_smallPort {digits : List Char} (h : digits ∈ smallPort)
    (text : portText host = digits) : portOk host = true := by
  obtain ⟨derived, short, small⟩ := h
  simp only [portOk, text, Bool.and_eq_true, List.all_eq_true, decide_eq_true_eq]
  exact ⟨⟨mem_port.mp derived, by omega⟩, small⟩

theorem nil_mem_smallPort : [] ∈ smallPort :=
  ⟨mem_port.mpr (by simp), by simp, by simp [Numeral.value]⟩

/-- The text after the first colon of a port that may be absent. -/
theorem exists_port (h : behind ∈ optional (word [':'] * smallPort)) :
    ∃ digits ∈ smallPort, (Text.cut ':' behind).2.getD [] = digits := by
  rcases mem_optionalSmallPort.mp h with rfl | ⟨digits, rfl, derived⟩
  · exact ⟨[], nil_mem_smallPort, rfl⟩
  · exact ⟨digits, derived, by simp [Text.cut]⟩

theorem name_complete (named : host ∈ ipv4Address ∨ host ∈ regName)
    (port : behind ∈ optional (word [':'] * smallPort)) :
    '@' ∉ host ++ behind ∧ bracketsOk (host ++ behind) = true ∧ portOk (host ++ behind) = true := by
  have absent : ∀ {d : Char}, d ∉ host → d ∉ behind → d ∉ host ++ behind := fun left right =>
    List.mem_append.not.mpr (not_or.mpr ⟨left, right⟩)
  have mark : '@' ∉ host ++ behind :=
    absent (notMem_of_name named (by decide) (by decide) rfl (by decide))
      (notMem_of_smallPort port (by decide) rfl)
  have opening : '[' ∉ host ++ behind :=
    absent (notMem_of_name named (by decide) (by decide) rfl (by decide))
      (notMem_of_smallPort port (by decide) rfl)
  have closing : ']' ∉ host ++ behind :=
    absent (notMem_of_name named (by decide) (by decide) rfl (by decide))
      (notMem_of_smallPort port (by decide) rfl)
  refine ⟨mark, ?_, ?_⟩
  · simp only [bracketsOk, List.contains_eq_mem, opening, closing, decide_false]
  · have colon : ':' ∉ host := notMem_of_name named (by decide) (by decide) rfl (by decide)
    obtain ⟨digits, derived, text⟩ := exists_port port
    refine portOk_of_smallPort derived ?_
    rw [portText_plain mark opening, ← text]
    rcases mem_optionalSmallPort.mp port with rfl | ⟨digits, rfl, _⟩
    · rw [List.append_nil, Text.cut_of_notMem colon]
      rfl
    · rw [Text.cut_append colon]
      simp [Text.cut]

theorem bracketed_complete (literal : inner ∈ ipv6Address + lowerFuture)
    (port : behind ∈ optional (word [':'] * smallPort)) :
    '@' ∉ '[' :: (inner ++ ']' :: behind) ∧ bracketsOk ('[' :: (inner ++ ']' :: behind)) = true ∧
      portOk ('[' :: (inner ++ ']' :: behind)) = true := by
  have derived : inner ∈ ipv6Address + ipvFuture :=
    ((Language.mem_add _ _ _).mp literal).imp_right And.left
  have closing : ']' ∉ inner := notMem_of_within within_literal derived (by decide)
  have mark : '@' ∉ '[' :: (inner ++ ']' :: behind) := by
    have left : '@' ∉ inner := notMem_of_within within_literal derived (by decide)
    have right : '@' ∉ behind := notMem_of_smallPort port (by decide) rfl
    simp [left, right]
  refine ⟨mark, ?_, ?_⟩
  · have host : literalHost? ('[' :: (inner ++ ']' :: behind)) = some inner := by
      simp only [literalHost?, hostPort_of_notMem mark, Text.cut, if_true, Text.cut_append closing,
        Option.getD_some]
      rcases mem_optionalSmallPort.mp port with rfl | ⟨digits, rfl, _⟩ <;> rfl
    simp [bracketsOk, host, literal_complete ((Language.mem_add _ _ _).mp literal)]
  · obtain ⟨digits, number, text⟩ := exists_port port
    exact portOk_of_smallPort number ((portText_bracketed mark closing).trans text)

theorem readableHost_cases (h : host ∈ readableHost) :
    (∃ inner ∈ ipv6Address + lowerFuture, host = '[' :: (inner ++ [']'])) ∨
      host ∈ ipv4Address ∨ host ∈ regName := by
  rcases h with (⟨_, ⟨_, rfl, inner, literal, rfl⟩, _, rfl, rfl⟩ | address) | name
  · exact .inl ⟨inner, literal, by simp⟩
  · exact .inr (.inl address)
  · exact .inr (.inr name)

theorem host_complete (named : host ∈ readableHost)
    (port : behind ∈ optional (word [':'] * smallPort)) :
    '@' ∉ host ++ behind ∧ bracketsOk (host ++ behind) = true ∧ portOk (host ++ behind) = true := by
  rcases readableHost_cases named with ⟨inner, literal, rfl⟩ | name
  · have shape : '[' :: (inner ++ [']']) ++ behind = '[' :: (inner ++ ']' :: behind) := by simp
    rw [shape]
    exact bracketed_complete literal port
  · exact name_complete name port

theorem authority_complete (h : authority ∈ readableAuthority) :
    bracketsOk authority = true ∧ portOk authority = true := by
  rw [readableAuthority, mul_assoc] at h
  obtain ⟨lead, info, _, ⟨host, named, behind, port, rfl⟩, rfl⟩ := Language.mem_mul.mp h
  obtain ⟨mark, brackets, digits⟩ := host_complete named port
  rcases mem_optional.mp info with rfl | ⟨user, derived, _, rfl, rfl⟩
  · exact ⟨brackets, digits⟩
  · have encoded := mem_userinfo.mp derived
    have plain : hasBracket user = false := hasBracket_eq_false.mpr
      ⟨notMem_of_encoded encoded (by decide) (by decide),
        notMem_of_encoded encoded (by decide) (by decide)⟩
    have shape : user ++ ['@'] ++ (host ++ behind) = user ++ '@' :: (host ++ behind) := by simp
    change bracketsOk (user ++ ['@'] ++ (host ++ behind)) = true ∧
      portOk (user ++ ['@'] ++ (host ++ behind)) = true
    rw [shape, bracketsOk_append plain mark, portOk_append mark]
    exact ⟨brackets, digits⟩

/-- What can be read is derived from the grammar. -/
theorem readableAuthority_le (h : authority ∈ readableAuthority) :
    authority ∈ Grammar.authority := by
  obtain ⟨front, ⟨lead, info, host, named, rfl⟩, behind, port, rfl⟩ := Language.mem_mul.mp h
  refine Language.append_mem_mul (Language.append_mem_mul info ?_) ?_
  · rcases readableHost_cases named with ⟨inner, literal, rfl⟩ | address | name
    · have derived : inner ∈ ipv6Address + ipvFuture :=
        ((Language.mem_add _ _ _).mp literal).imp_right And.left
      have shape : '[' :: (inner ++ [']']) = ['['] ++ inner ++ [']'] := by simp
      rw [shape]
      exact .inl (.inl (Language.append_mem_mul (Language.append_mem_mul (mem_word.mpr rfl) derived)
        (mem_word.mpr rfl)))
    · exact .inl (.inr address)
    · exact .inr name
  · refine mem_optionalPort.mpr ((mem_optionalSmallPort.mp port).imp_right ?_)
    rintro ⟨digits, rfl, derived, _⟩
    exact ⟨digits, rfl, mem_port.mp derived⟩

end ClientRegistry.Uri
