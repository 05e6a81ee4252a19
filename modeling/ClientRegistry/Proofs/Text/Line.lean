import ClientRegistry.Proofs.Number.Digits
import ClientRegistry.Text.Quoted

/-! Texts on one line, which have no newline and no carriage return, and among them the texts of
visible ASCII characters. A quoted text is on one line whatever it quotes. -/

namespace ClientRegistry.Text

/-- No character of the text ends a line. -/
def OneLine (cs : List Char) : Prop := ∀ c ∈ cs, c ≠ '\n' ∧ c ≠ '\r'

instance (cs : List Char) : Decidable (OneLine cs) :=
  List.decidableBAll (fun c : Char => c ≠ '\n' ∧ c ≠ '\r') cs

/-- All characters are visible in ASCII, or spaces. -/
def Visible (cs : List Char) : Prop := ∀ c ∈ cs, 0x20 ≤ c.toNat ∧ c.toNat < 0x7F

instance (cs : List Char) : Decidable (Visible cs) :=
  List.decidableBAll (fun c : Char => 0x20 ≤ c.toNat ∧ c.toNat < 0x7F) cs

variable {c : Char} {cs ds : List Char}

@[simp] theorem OneLine.nil : OneLine [] := fun _ member => absurd member List.not_mem_nil

@[simp] theorem oneLine_cons : OneLine (c :: cs) ↔ (c ≠ '\n' ∧ c ≠ '\r') ∧ OneLine cs :=
  List.forall_mem_cons

@[simp] theorem oneLine_append : OneLine (cs ++ ds) ↔ OneLine cs ∧ OneLine ds :=
  List.forall_mem_append

theorem oneLine_replicate (n : Nat) (h : c ≠ '\n' ∧ c ≠ '\r') : OneLine (List.replicate n c) := by
  intro d member
  rw [List.eq_of_mem_replicate member]
  exact h

@[simp] theorem Visible.nil : Visible [] := fun _ member => absurd member List.not_mem_nil

@[simp] theorem visible_cons :
    Visible (c :: cs) ↔ (0x20 ≤ c.toNat ∧ c.toNat < 0x7F) ∧ Visible cs :=
  List.forall_mem_cons

@[simp] theorem visible_append : Visible (cs ++ ds) ↔ Visible cs ∧ Visible ds :=
  List.forall_mem_append

theorem Visible.oneLine (h : Visible cs) : OneLine cs := by
  intro c member
  have visible := h c member
  constructor
  · rintro rfl
    exact absurd visible.1 (by decide)
  · rintro rfl
    exact absurd visible.1 (by decide)

theorem visible_of_digits (h : ∀ c ∈ cs, Numeral.isDigit c = true) : Visible cs := by
  intro c member
  have digit := Numeral.isDigit_iff.mp (h c member)
  omega

theorem oneLine_digitChars (n : Nat) : OneLine (RealLayout.digitChars n) :=
  (visible_of_digits fun _ => Numeral.isDigit_of_mem_digitChars).oneLine

theorem oneLine_padLeft (width n : Nat) :
    OneLine (RealLayout.padLeft width (RealLayout.digitChars n)) :=
  (visible_of_digits fun _ => Numeral.isDigit_of_mem_padLeft).oneLine

theorem digitChar_visible :
    ∀ n < 16, 0x20 ≤ (Nat.digitChar n).toNat ∧ (Nat.digitChar n).toNat < 0x7F := by
  decide

theorem visible_hexDigits (width n : Nat) : Visible (hexDigits width n) := by
  induction width generalizing n with
  | zero => exact .nil
  | succ width ih =>
      rw [hexDigits, visible_append]
      have digit := digitChar_visible (n % 16) (Nat.mod_lt n (by decide))
      exact ⟨ih _, visible_cons.mpr ⟨digit, .nil⟩⟩

theorem visible_pointEscape (n : Nat) : Visible (pointEscape n) := by
  simp only [pointEscape]
  split
  · simp [visible_hexDigits]
  split
  · simp [visible_hexDigits]
  · simp [visible_hexDigits]

theorem oneLine_of_isPrintable (h : isPrintable c = true) : c ≠ '\n' ∧ c ≠ '\r' := by
  constructor
  · rintro rfl
    exact absurd h (by decide +kernel)
  · rintro rfl
    exact absurd h (by decide +kernel)

theorem oneLine_quoteFor (cs : List Char) : quoteFor cs ≠ '\n' ∧ quoteFor cs ≠ '\r' := by
  rw [quoteFor]
  split
  · decide
  · decide

/-- Line breaks are escaped, as is all that is not printable. -/
theorem oneLine_escapeChar {quote : Char} (hq : quote ≠ '\n' ∧ quote ≠ '\r') (c : Char) :
    OneLine (escapeChar quote c) := by
  rw [escapeChar]
  split
  next same =>
    rcases same with rfl | rfl
    · exact oneLine_cons.mpr ⟨by decide, oneLine_cons.mpr ⟨hq, .nil⟩⟩
    · decide
  split
  · decide
  split
  · decide
  split
  · decide
  split
  next printable => exact oneLine_cons.mpr ⟨oneLine_of_isPrintable printable, .nil⟩
  next => exact (visible_pointEscape _).oneLine

theorem oneLine_quoted (cs : List Char) : OneLine (quoted cs) := by
  have quote := oneLine_quoteFor cs
  simp only [quoted, List.cons_append, oneLine_cons, oneLine_append]
  refine ⟨quote, ?_, quote, .nil⟩
  intro d member
  obtain ⟨c, -, escaped⟩ := List.mem_flatMap.mp member
  exact oneLine_escapeChar quote c d escaped

end ClientRegistry.Text
