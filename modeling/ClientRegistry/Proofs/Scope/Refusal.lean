import ClientRegistry.Proofs.Client.Building
import ClientRegistry.Proofs.Uri.Rules

/-! Which scopes a list may hold. A text passes if it is a scope token or empty, and a list is
refused at the first of its texts that is neither. The scope tokens are those of RFC 6749; the
empty text is none of them. -/

open scoped Computability

namespace ClientRegistry

namespace Scope

open Uri.Grammar

variable {cs : List Char}

/-- `scope-token = 1*( %x21 / %x23-5B / %x5D-7E )`, RFC 6749 section 3.3. -/
def grammar : Language Char :=
  oneOrMore (word ['!'] + range '#' '[' + range ']' '~')

theorem tokenChar_eq : word ['!'] + range '#' '[' + range ']' '~' = single isTokenChar := by
  rw [word_eq, range_eq, range_eq, single_add, single_add]
  congr 1
  funext c
  have point : [('!' : Char)].contains c =
      (decide (0x21 ≤ c.toNat) && decide (c.toNat ≤ 0x21)) := by
    rw [Bool.eq_iff_iff]
    simp only [List.contains_cons, List.contains_nil, Bool.or_false, beq_iff_eq, eq_iff_toNat_eq,
      Bool.and_eq_true, decide_eq_true_eq]
    exact Nat.le_antisymm_iff.trans and_comm
  rw [point]
  simp only [isTokenChar, ranges, List.any_cons, List.any_nil, Bool.or_false, Bool.or_assoc]
  rfl

/-- The grammar derives what the definition of a token says. -/
theorem mem_grammar : cs ∈ grammar ↔ IsToken cs := by
  have empty : [] ∉ single isTokenChar := by
    rintro ⟨c, -, none⟩
    cases none
  rw [grammar, tokenChar_eq, mem_oneOrMore empty, mem_single_star, IsToken, and_comm]

/-- Beside the tokens only the empty text is admissible. -/
theorem isAdmissible_iff : isAdmissible cs = true ↔ cs = [] ∨ cs ∈ grammar := by
  rw [mem_grammar, isToken_iff]
  constructor
  · intro admissible
    exact (Decidable.em (cs = [])).imp_right fun ne => ⟨ne, admissible⟩
  · rintro (rfl | ⟨-, admissible⟩)
    · rfl
    · exact admissible

end Scope

namespace Validation

variable {before later : List Value} {v : Value} {s : String}

theorem scopeOk_text (s : String) :
    scopeOk (.text s) = .ok true ↔ s = "" ∨ s.toList ∈ Scope.grammar := by
  rw [scopeOk, Except.ok.injEq, Scope.isAdmissible_iff, String.toList_eq_nil_iff]

/-- Scopes that pass leave the rest of a list to be looked at. -/
theorem scopes_append (passed : ∀ v ∈ before, scopeOk v = .ok true) :
    scopes (before ++ later) = scopes later := by
  induction before with
  | nil => rfl
  | cons v rest ih =>
      rw [List.forall_mem_cons] at passed
      rw [List.cons_append, scopes, passed.1]
      exact ih passed.2

/-- The first scope that does not pass decides, whatever comes later. -/
theorem scopes_of_first (passed : ∀ v ∈ before, scopeOk v = .ok true)
    (bad : scopeOk v = .ok false) :
    scopes (before ++ v :: later) = .reject (scopeRejected v) (.invalidScope v) := by
  rw [scopes_append passed, scopes, bad]

/-- With nothing logged exactly the lists pass whose texts all do. -/
theorem scopes_texts_eq_ok {texts : List String} :
    scopes (texts.map .text) = .ok () ↔ ∀ s ∈ texts, s = "" ∨ s.toList ∈ Scope.grammar := by
  have each : (∀ v ∈ texts.map Value.text, scopeOk v = .ok true) ↔
      ∀ s ∈ texts, s = "" ∨ s.toList ∈ Scope.grammar := by
    simp only [List.forall_mem_map, scopeOk_text]
  rw [← each]
  constructor
  · exact fun passed => scopes_eq_ok.mp (congrArg Outcome.result passed)
  · exact scopes_of_valid

/-- A list of texts passes, with nothing logged, exactly if each text is a scope token or empty.
Any other list is refused for its first text that is neither, with one warning, and what follows
that text does not matter. -/
theorem scopes_refuse_first (texts : List String) :
    (scopes (texts.map .text) = .ok () ↔ ∀ s ∈ texts, s = "" ∨ s.toList ∈ Scope.grammar) ∧
      ((∀ s ∈ texts, s = "" ∨ s.toList ∈ Scope.grammar) ∨
        ∃ before s after, texts = before ++ s :: after ∧
          (∀ t ∈ before, t = "" ∨ t.toList ∈ Scope.grammar) ∧ s ≠ "" ∧ s.toList ∉ Scope.grammar ∧
          (scopeRejected (.text s)).severity = .warning ∧
          ∀ later : List String, scopes ((before ++ s :: later).map .text) =
            ⟨.error (.invalidScope (.text s)), [scopeRejected (.text s)]⟩) := by
  refine ⟨scopes_texts_eq_ok, ?_⟩
  cases found : texts.find? fun s => !Scope.isAdmissible s.toList with
  | none =>
      left
      intro s member
      have admissible := List.find?_eq_none.mp found s member
      rw [Bool.not_eq_true', Bool.not_eq_false] at admissible
      exact (scopeOk_text s).mp (congrArg Except.ok admissible)
  | some s =>
      right
      obtain ⟨bad, before, after, split, passed⟩ := List.find?_eq_some_iff_append.mp found
      rw [Bool.not_eq_true'] at bad
      simp only [Bool.not_not] at passed
      have admissible : ∀ t ∈ before, scopeOk (.text t) = .ok true := fun t member =>
        congrArg Except.ok (passed t member)
      have refused : scopeOk (.text s) = .ok false := congrArg Except.ok bad
      have neither : ¬(s = "" ∨ s.toList ∈ Scope.grammar) := by
        rw [← scopeOk_text, refused]
        simp
      rw [not_or] at neither
      refine ⟨before, s, after, split, fun t member => (scopeOk_text t).mp (admissible t member),
        neither.1, neither.2, rfl, fun later => ?_⟩
      rw [List.map_append, List.map_cons]
      exact scopes_of_first (List.forall_mem_map.mpr admissible) refused

/-- The empty text is admitted, and the grammar does not derive it. -/
theorem empty_scope_admitted :
    scopes [.text ""] = .ok () ∧ "".toList ∉ Scope.grammar := by
  refine ⟨rfl, fun derived => ?_⟩
  exact (Scope.mem_grammar.mp derived).1 rfl

end Validation

end ClientRegistry
