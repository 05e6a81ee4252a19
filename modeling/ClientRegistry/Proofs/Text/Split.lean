import ClientRegistry.Text.Split

/-! Cuts at separators. A text without the separator is not cut; every other text is cut at its
first separator. -/

namespace ClientRegistry.Text

variable {separator : Char} {cs a b : List Char}

theorem cut_of_notMem (absent : separator ∉ cs) : cut separator cs = (cs, none) := by
  induction cs with
  | nil => rfl
  | cons c rest ih =>
      rw [List.mem_cons, not_or] at absent
      simp only [cut, Ne.symm absent.1, if_false, ih absent.2]

theorem cut_append (absent : separator ∉ a) :
    cut separator (a ++ separator :: b) = (a, some b) := by
  induction a with
  | nil => simp only [List.nil_append, cut, if_true]
  | cons c rest ih =>
      rw [List.mem_cons, not_or] at absent
      simp only [List.cons_append, cut, Ne.symm absent.1, if_false, ih absent.2]

theorem cut_append_fst (absent : separator ∉ a) :
    (cut separator (a ++ b)).1 = a ++ (cut separator b).1 := by
  induction a with
  | nil => rfl
  | cons c rest ih =>
      rw [List.mem_cons, not_or] at absent
      simp only [List.cons_append, cut, Ne.symm absent.1, if_false, ih absent.2]

/-- A text holds the separator and is cut there, or it does not. -/
theorem cut_cases (separator : Char) (cs : List Char) :
    (separator ∉ cs ∧ cut separator cs = (cs, none)) ∨
      ∃ a b, cs = a ++ separator :: b ∧ separator ∉ a ∧ cut separator cs = (a, some b) := by
  by_cases member : separator ∈ cs
  · obtain ⟨a, b, rfl, absent⟩ := List.eq_append_cons_of_mem member
    exact .inr ⟨a, b, rfl, absent, cut_append absent⟩
  · exact .inl ⟨member, cut_of_notMem member⟩

/-- The parts of a text, joined by the separator, are the text. -/
theorem join_splitAll (separator : Char) (cs : List Char) :
    [separator].intercalate (splitAll separator cs) = cs := by
  induction cs with
  | nil => rfl
  | cons c rest ih =>
      simp only [splitAll]
      split
      · next same =>
          subst same
          cases parts : splitAll c rest with
          | nil => exact absurd parts (splitAll_ne_nil c rest)
          | cons part others =>
              rw [List.intercalate_cons_cons, ← parts, ih]
              rfl
      · cases parts : splitAll separator rest with
        | nil => exact absurd parts (splitAll_ne_nil separator rest)
        | cons part others =>
            rw [parts] at ih
            cases others with
            | nil =>
                rw [List.intercalate_singleton] at ih ⊢
                rw [ih]
            | cons other more =>
                rw [List.intercalate_cons_cons] at ih ⊢
                rw [List.cons_append, List.cons_append, ih]

theorem splitAll_of_notMem (absent : separator ∉ cs) : splitAll separator cs = [cs] := by
  induction cs with
  | nil => rfl
  | cons c rest ih =>
      rw [List.mem_cons, not_or] at absent
      simp only [splitAll, Ne.symm absent.1, if_false, ih absent.2]

theorem splitAll_append (absent : separator ∉ a) :
    splitAll separator (a ++ separator :: b) = a :: splitAll separator b := by
  induction a with
  | nil => simp only [List.nil_append, splitAll, if_true]
  | cons c rest ih =>
      rw [List.mem_cons, not_or] at absent
      simp only [List.cons_append, splitAll, Ne.symm absent.1, if_false, ih absent.2]

/-- Parts without the separator are what their join is split into. -/
theorem splitAll_join {parts : List (List Char)} (some : parts ≠ [])
    (absent : ∀ part ∈ parts, separator ∉ part) :
    splitAll separator ([separator].intercalate parts) = parts := by
  induction parts with
  | nil => exact absurd rfl some
  | cons part rest ih =>
      rw [List.forall_mem_cons] at absent
      cases rest with
      | nil => rw [List.intercalate_singleton, splitAll_of_notMem absent.1]
      | cons next more =>
          have tail := ih (by simp) absent.2
          rw [List.intercalate_cons_cons, List.append_assoc, List.singleton_append,
            splitAll_append absent.1, tail]

end ClientRegistry.Text
