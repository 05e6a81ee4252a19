import ClientRegistry.Proofs.Uri.Grammar

/-! The rules that repeat single characters and escapes. A text is derived from such a rule
exactly if its characters are of the rule's class, percent signs excepted, and if every percent
sign begins an escape. -/

open scoped Computability

namespace ClientRegistry.Uri

namespace Grammar

variable {l m : Language Char} {p q : Char → Bool} {w : List Char}

@[simp] theorem mem_word {v : List Char} : w ∈ word v ↔ w = v := Iff.rfl

theorem mem_optional : w ∈ optional l ↔ w = [] ∨ w ∈ l := by
  rw [optional, Language.mem_add, Language.mem_one]

/-- One character of a class. -/
def single (p : Char → Bool) : Language Char := {w | ∃ c, p c = true ∧ w = [c]}

theorem mem_single : w ∈ single p ↔ ∃ c, p c = true ∧ w = [c] := Iff.rfl

theorem single_add : single p + single q = single fun c => p c || q c := by
  ext w
  simp only [Language.mem_add, mem_single, Bool.or_eq_true, or_and_right, exists_or]

theorem anyOf_eq (cs : List Char) : anyOf cs = single cs.contains := by
  ext w
  simp only [mem_single, List.contains_iff_mem]
  exact Iff.rfl

theorem word_eq (c : Char) : word [c] = single [c].contains := by
  ext w
  simp [mem_single]

theorem range_eq (a b : Char) : range a b = single fun c => a ≤ c && c ≤ b := by
  ext w
  simp only [mem_single, Bool.and_eq_true, decide_eq_true_eq, and_assoc]
  exact Iff.rfl

theorem alpha_eq : alpha = single isLetter := by
  rw [alpha, range_eq, range_eq, single_add]
  rfl

theorem digit_eq : digit = single isDigit := by
  rw [digit, range_eq]
  rfl

theorem hexdig_eq : hexdig = single isHexDigit := by
  rw [hexdig, digit_eq, range_eq, range_eq, single_add, single_add]
  rfl

theorem schemeChar_eq : alpha + digit + anyOf ['+', '-', '.'] = single isSchemeChar := by
  rw [alpha_eq, digit_eq, anyOf_eq, single_add, single_add]
  rfl

def isUnreservedOrVisible (c : Char) : Bool :=
  isUnreserved c || isVisibleOther c

theorem unreserved_eq : unreserved = single isUnreservedOrVisible := by
  rw [unreserved, alpha_eq, digit_eq, anyOf_eq, single_add, single_add]
  exact single_add

theorem subDelims_eq : subDelims = single isSubDelim := by
  rw [subDelims, anyOf_eq]
  rfl

/-- What may be repeated unescaped: unreserved and visible characters, delimiters inside parts,
and some more. -/
def isAtom (extra : List Char) (c : Char) : Bool :=
  isUnreservedOrVisible c || isSubDelim c || extra.contains c

theorem atom_eq (extra : List Char) :
    unreserved + pctEncoded + subDelims + single extra.contains =
      single (isAtom extra) + pctEncoded := by
  rw [unreserved_eq, subDelims_eq, add_right_comm (single _) pctEncoded, single_add,
    add_right_comm (single _) pctEncoded, single_add]
  rfl

theorem pchar_eq : pchar = single (isAtom [':', '@']) + pctEncoded := by
  rw [pchar, anyOf_eq, atom_eq]

theorem queryChar_eq :
    pchar + anyOf ['/', '?'] = single (isAtom [':', '@', '/', '?']) + pctEncoded := by
  rw [pchar_eq, anyOf_eq, add_right_comm, single_add]
  congr 2
  funext c
  simp only [isAtom, List.contains_cons, List.contains_nil, Bool.or_false, Bool.or_assoc]

theorem regNameChar_eq :
    unreserved + pctEncoded + subDelims = single (isAtom []) + pctEncoded := by
  rw [← atom_eq []]
  have none : single ([] : List Char).contains = 0 := by
    ext w
    simp [mem_single]
  rw [none, add_zero]

theorem userinfoChar_eq :
    unreserved + pctEncoded + subDelims + word [':'] = single (isAtom [':']) + pctEncoded := by
  rw [word_eq, atom_eq]

theorem segmentNcChar_eq :
    unreserved + pctEncoded + subDelims + word ['@'] = single (isAtom ['@']) + pctEncoded := by
  rw [word_eq, atom_eq]

theorem mem_pctEncoded :
    w ∈ pctEncoded ↔ ∃ a b, isHexDigit a = true ∧ isHexDigit b = true ∧ w = ['%', a, b] := by
  rw [pctEncoded, hexdig_eq]
  constructor
  · rintro ⟨_, ⟨_, rfl, _, ⟨a, ha, rfl⟩, rfl⟩, _, ⟨b, hb, rfl⟩, rfl⟩
    exact ⟨a, b, ha, hb, rfl⟩
  · rintro ⟨a, b, ha, hb, rfl⟩
    have left : [a] ∈ single isHexDigit := ⟨a, ha, rfl⟩
    have right : [b] ∈ single isHexDigit := ⟨b, hb, rfl⟩
    exact Language.append_mem_mul (Language.append_mem_mul (mem_word.mpr rfl) left) right

theorem append_mem_kstar {a b : List Char} (ha : a ∈ l) (hb : b ∈ l∗) : a ++ b ∈ l∗ := by
  obtain ⟨pieces, rfl, each⟩ := Language.mem_kstar.mp hb
  exact Language.mem_kstar.mpr ⟨a :: pieces, rfl, List.forall_mem_cons.mpr ⟨ha, each⟩⟩

end Grammar

theorem escapesComplete_cons {c : Char} (plain : c ≠ '%') (rest : List Char) :
    escapesComplete (c :: rest) = escapesComplete rest := by
  rw [escapesComplete]
  · exact fun _ _ _ percent => absurd percent plain
  · exact plain

theorem ne_percent_of_isHexDigit {c : Char} (h : isHexDigit c = true) : c ≠ '%' := by
  rintro rfl
  exact absurd h (by decide)

/-- Two hexadecimal digits end an escape. -/
theorem escapesComplete_percent (a b : Char) (rest : List Char) :
    escapesComplete ('%' :: a :: b :: rest) =
      (isHexDigit a && isHexDigit b && escapesComplete rest) := by
  rw [escapesComplete]
  cases ha : isHexDigit a with
  | false => rfl
  | true =>
      cases hb : isHexDigit b with
      | false => rfl
      | true =>
          rw [escapesComplete_cons (ne_percent_of_isHexDigit ha),
            escapesComplete_cons (ne_percent_of_isHexDigit hb)]

/-- No escape goes past a character that is neither a percent sign nor a digit. -/
theorem escapesComplete_append {d : Char} (plain : d ≠ '%') (other : isHexDigit d = false)
    (a b : List Char) :
    escapesComplete (a ++ d :: b) = (escapesComplete a && escapesComplete b) := by
  induction a using escapesComplete.induct with
  | case1 => exact (escapesComplete_cons plain b).trans (Bool.true_and _).symm
  | case2 x y rest ih =>
      change (isHexDigit x && isHexDigit y && escapesComplete (x :: y :: rest ++ d :: b)) = _
      rw [ih, escapesComplete, ← Bool.and_assoc]
  | case3 rest short =>
      -- The escape is cut short by the end of the first text, and by `d` in the whole.
      match rest, short with
      | [], _ => cases b <;> simp [escapesComplete, other]
      | [x], _ => simp [escapesComplete, other]
      | x :: y :: more, short => exact absurd rfl (short x y more)
  | case4 c rest _ ne ih =>
      rw [List.cons_append, escapesComplete_cons ne, escapesComplete_cons ne, ih]

/-- Characters of a class, percent signs that begin escapes, and nothing else. -/
def Encoded (p : Char → Bool) (w : List Char) : Prop :=
  (∀ c ∈ w, p c = true ∨ c = '%') ∧ escapesComplete w = true

namespace Encoded

variable {p q : Char → Bool} {a b w : List Char} {d : Char}

theorem nil : Encoded p [] := ⟨fun _ member => absurd member List.not_mem_nil, rfl⟩

/-- The two sides of a delimiter. -/
theorem append_iff (plain : d ≠ '%') (other : isHexDigit d = false) :
    Encoded p (a ++ d :: b) ↔ Encoded p a ∧ p d = true ∧ Encoded p b := by
  simp only [Encoded, escapesComplete_append plain other, Bool.and_eq_true, List.forall_mem_append,
    List.forall_mem_cons, plain, or_false]
  tauto

theorem mono (h : Encoded p w) (sub : ∀ c ∈ w, p c = true → q c = true) : Encoded q w :=
  ⟨fun c member => (h.1 c member).imp_left (sub c member), h.2⟩

end Encoded

namespace Grammar

variable {l m : Language Char} {p q : Char → Bool} {w : List Char}

theorem encoded_of_mem_star (digits : ∀ c, isHexDigit c = true → p c = true)
    (percent : p '%' = false) (h : w ∈ (single p + pctEncoded)∗) : Encoded p w := by
  obtain ⟨pieces, rfl, each⟩ := Language.mem_kstar.mp h
  clear h
  induction pieces with
  | nil => exact .nil
  | cons piece rest ih =>
      rw [List.forall_mem_cons] at each
      have tail := ih each.2
      rcases each.1 with ⟨c, hc, rfl⟩ | escape
      · have plain : c ≠ '%' := by
          rintro rfl
          simp [percent] at hc
        refine ⟨List.forall_mem_cons.mpr ⟨.inl hc, tail.1⟩, ?_⟩
        exact (escapesComplete_cons plain _).trans tail.2
      · obtain ⟨x, y, hx, hy, rfl⟩ := mem_pctEncoded.mp escape
        refine ⟨List.forall_mem_cons.mpr ⟨.inr rfl, List.forall_mem_cons.mpr ⟨.inl (digits x hx),
          List.forall_mem_cons.mpr ⟨.inl (digits y hy), tail.1⟩⟩⟩, ?_⟩
        refine (escapesComplete_percent x y _).trans ?_
        rw [hx, hy]
        exact tail.2

theorem mem_star_of_encoded (h : Encoded p w) : w ∈ (single p + pctEncoded)∗ := by
  obtain ⟨chars, complete⟩ := h
  -- An escape takes three characters at once, so the induction is on the length.
  induction size : w.length using Nat.strong_induction_on generalizing w with
  | _ n ih =>
      match w with
      | [] => exact Language.nil_mem_kstar _
      | c :: rest =>
          by_cases plain : c = '%'
          · subst plain
            match rest with
            | x :: y :: rest =>
                rw [escapesComplete_percent, Bool.and_eq_true, Bool.and_eq_true] at complete
                have escape : ['%', x, y] ∈ single p + pctEncoded :=
                  .inr (mem_pctEncoded.mpr ⟨x, y, complete.1.1, complete.1.2, rfl⟩)
                refine append_mem_kstar escape (ih rest.length ?_ ?_ complete.2 rfl)
                · simp only [← size, List.length_cons]
                  omega
                · intro c member
                  exact chars c (by simp [member])
            | [x] => simp [escapesComplete] at complete
            | [] => simp [escapesComplete] at complete
          · rw [List.forall_mem_cons] at chars
            rw [escapesComplete_cons plain] at complete
            have one : [c] ∈ single p + pctEncoded := .inl ⟨c, chars.1.resolve_right plain, rfl⟩
            refine append_mem_kstar one (ih rest.length ?_ chars.2 complete rfl)
            simp only [← size, List.length_cons]
            omega

theorem mem_encoded_star (digits : ∀ c, isHexDigit c = true → p c = true)
    (percent : p '%' = false) : w ∈ (single p + pctEncoded)∗ ↔ Encoded p w :=
  ⟨encoded_of_mem_star digits percent, mem_star_of_encoded⟩

/-- All texts of a language are made of characters of a class. -/
def Within (p : Char → Bool) (l : Language Char) : Prop := ∀ w ∈ l, ∀ c ∈ w, p c = true

theorem within_add (hl : Within p l) (hm : Within p m) : Within p (l + m) :=
  fun w h => ((Language.mem_add _ _ _).mp h).elim (hl w) (hm w)

theorem within_mul (hl : Within p l) (hm : Within p m) : Within p (l * m) := by
  rintro _ ⟨a, ha, b, hb, rfl⟩
  exact List.forall_mem_append.mpr ⟨hl a ha, hm b hb⟩

theorem within_one : Within p 1 := by
  rintro _ rfl c member
  cases member

theorem within_optional (h : Within p l) : Within p (optional l) := within_add within_one h

theorem within_pow (h : Within p l) (n : Nat) : Within p (l ^ n) := by
  induction n with
  | zero => exact within_one
  | succ n ih =>
      rw [pow_succ]
      exact within_mul ih h

theorem within_star (h : Within p l) : Within p l∗ := by
  intro w derived c member
  obtain ⟨pieces, rfl, each⟩ := Language.mem_kstar.mp derived
  obtain ⟨piece, hp, hc⟩ := List.mem_flatten.mp member
  exact h piece (each piece hp) c hc

theorem within_single (sub : ∀ c, q c = true → p c = true) :
    Within p (single q) := by
  rintro _ ⟨c, hc, rfl⟩ d member
  rw [List.mem_singleton.mp member]
  exact sub c hc

theorem within_word {v : List Char} (h : v.all p = true) : Within p (word v) := by
  rintro _ rfl
  exact List.all_eq_true.mp h

theorem within_atMost (h : Within p l) (n : Nat) : Within p (atMost n l) :=
  within_pow (within_optional h) n

theorem within_oneOrMore (h : Within p l) : Within p (oneOrMore l) := within_mul h (within_star h)

theorem within_mono (h : Within p l) (sub : ∀ c, p c = true → q c = true) : Within q l :=
  fun w derived c member => sub c (h w derived c member)

theorem within_pctEncoded (percent : p '%' = true)
    (digits : ∀ c, isHexDigit c = true → p c = true) : Within p pctEncoded := by
  have hex : Within p hexdig := by
    rw [hexdig_eq]
    exact within_single digits
  exact within_mul (within_mul (within_word (by simpa using percent)) hex) hex

theorem notMem_of_within (h : Within p l) (derived : w ∈ l) {d : Char} (other : p d = false) :
    d ∉ w := by
  intro member
  have atom := h w derived d member
  rw [other] at atom
  cases atom

end Grammar

end ClientRegistry.Uri
