import ClientRegistry.Number.Numeral
import ClientRegistry.Number.Shortest
import Mathlib.Algebra.GroupWithZero.Nat
import Mathlib.Data.List.TakeWhile

/-! Decimal digits. The digits of a number have it for their value, and there are as few of them
as its magnitude allows; leading zeros add nothing. -/

namespace ClientRegistry

open RealLayout (digitChars padLeft)

theorem twoTo_eq (n : Nat) : twoTo n = 2 ^ n := rfl

theorem tenTo_eq (n : Nat) : tenTo n = 10 ^ n := rfl

theorem tenTo_pos (n : Nat) : 0 < tenTo n := Nat.pow_pos (by decide)

theorem twoTo_pos (n : Nat) : 0 < twoTo n := Nat.pow_pos (by decide)

namespace Numeral

variable {ds rest : List Char} {n : Nat}

theorem value_eq (ds : List Char) : value ds = Nat.ofDigitChars 10 ds 0 :=
  Nat.ofDigitChars_eq_foldl.symm

theorem value_append (a b : List Char) : value (a ++ b) = value a * tenTo b.length + value b := by
  rw [value_eq, value_eq, value_eq, Nat.ofDigitChars_append, Nat.ofDigitChars_eq_ofDigitChars_zero,
    tenTo_eq, Nat.mul_comm]

@[simp] theorem value_digitChars (n : Nat) : value (digitChars n) = n := by
  rw [value_eq]
  exact Nat.ofDigitChars_ten_toDigits

@[simp] theorem value_zeros (k : Nat) : value (List.replicate k '0') = 0 := by
  rw [value_eq, Nat.ofDigitChars_replicate_zero, Nat.mul_zero]

theorem value_padLeft (width n : Nat) : value (padLeft width (digitChars n)) = n := by
  rw [padLeft, value_append, value_zeros, value_digitChars, Nat.zero_mul, Nat.zero_add]

theorem isDigit_iff {c : Char} : isDigit c = true ↔ 48 ≤ c.toNat ∧ c.toNat ≤ 57 := by
  simp only [isDigit, Bool.and_eq_true, decide_eq_true_eq]
  exact Iff.rfl

theorem value_lt (digits : ∀ c ∈ ds, isDigit c = true) : value ds < tenTo ds.length := by
  induction ds with
  | nil => decide
  | cons c rest ih =>
      rw [List.forall_mem_cons] at digits
      have tail := ih digits.2
      have bound := isDigit_iff.mp digits.1
      have split := value_append [c] rest
      have first : value [c] = c.toNat - 48 := by simp [value]
      rw [List.singleton_append, first] at split
      rw [split, List.length_cons, tenTo_succ]
      have head : (c.toNat - 48) * tenTo rest.length ≤ 9 * tenTo rest.length :=
        Nat.mul_le_mul_right _ (by omega)
      omega

theorem isDigit_of_mem_digitChars {c : Char} (h : c ∈ digitChars n) : isDigit c = true := by
  have ascii := Nat.isDigit_of_mem_toDigits (by decide) (by decide) h
  simp only [Char.isDigit, Bool.and_eq_true, decide_eq_true_eq] at ascii
  exact isDigit_iff.mpr ascii

theorem isDigit_of_mem_padLeft {width : Nat} {c : Char} (h : c ∈ padLeft width (digitChars n)) :
    isDigit c = true := by
  rcases List.mem_append.mp h with zero | digit
  · rw [(List.mem_replicate.mp zero).2]
    rfl
  · exact isDigit_of_mem_digitChars digit

theorem digitChars_ne_nil (n : Nat) : digitChars n ≠ [] := Nat.toDigits_ne_nil

/-- A text of which no more digits can be taken. -/
def Stops (rest : List Char) : Prop := ∀ c ∈ rest.head?, isDigit c = false

theorem takeDigits_of_stops (digits : ∀ c ∈ ds, isDigit c = true) (stops : Stops rest) :
    takeDigits (ds ++ rest) = (ds, rest) := by
  rw [takeDigits, List.takeWhile_append_of_pos digits, List.dropWhile_append_of_pos digits]
  cases rest with
  | nil => simp
  | cons c more =>
      have other := stops c rfl
      simp [other]

theorem isDigit_of_mem_takeDigits {c : Char} (h : c ∈ (takeDigits rest).1) : isDigit c = true :=
  List.mem_takeWhile_imp h

theorem lt_tenTo_length (n : Nat) : n < tenTo (digitChars n).length :=
  (Nat.length_toDigits_le_iff (by decide) Nat.length_toDigits_pos).mp (Nat.le_refl _)

theorem tenTo_length_le (h : n ≠ 0) : tenTo ((digitChars n).length - 1) ≤ n := by
  have some : 0 < (digitChars n).length := Nat.length_toDigits_pos
  rcases Nat.lt_or_ge n (tenTo ((digitChars n).length - 1)) with small | large
  · have long : 0 < (digitChars n).length - 1 := by
      refine Nat.pos_of_ne_zero fun one => h ?_
      rw [one, tenTo_zero] at small
      omega
    have less : (digitChars n).length ≤ (digitChars n).length - 1 :=
      (Nat.length_toDigits_le_iff (by decide) long).mpr small
    omega
  · exact large

theorem length_digitChars_le {k : Nat} (some : 0 < k) (h : n < tenTo k) :
    (digitChars n).length ≤ k :=
  (Nat.length_toDigits_le_iff (by decide) some).mpr h

theorem length_digitChars_eq {k : Nat} (low : tenTo k ≤ n) (high : n < tenTo (k + 1)) :
    (digitChars n).length = k + 1 := by
  have most := length_digitChars_le (Nat.succ_pos k) high
  have less := lt_tenTo_length n
  rcases Nat.lt_or_ge k (digitChars n).length with long | short
  · omega
  · have shrink : tenTo (digitChars n).length ≤ tenTo k := Nat.pow_le_pow_right (by decide) short
    omega

/-- Only zero begins with a zero. -/
theorem head?_digitChars_ne (h : n ≠ 0) : (digitChars n).head? ≠ some '0' := by
  intro zero
  obtain ⟨rest, shape⟩ := List.head?_eq_some_iff.mp zero
  have digits : ∀ c ∈ rest, isDigit c = true := fun c member =>
    isDigit_of_mem_digitChars (shape ▸ List.mem_cons_of_mem _ member)
  have small := value_lt digits
  have split := value_append ['0'] rest
  have none : value ['0'] = 0 := rfl
  rw [List.singleton_append, ← shape, value_digitChars, none, Nat.zero_mul, Nat.zero_add] at split
  have large := tenTo_length_le h
  rw [shape, List.length_cons, Nat.add_sub_cancel] at large
  omega

theorem digitChars_zero : digitChars 0 = ['0'] := rfl

/-- One digit more to the right. -/
theorem padLeft_succ {width : Nat} (some : 0 < width) (n : Nat) :
    padLeft (width + 1) (digitChars n) =
      padLeft width (digitChars (n / 10)) ++ [(n % 10).digitChar] := by
  have split := Nat.toDigits_eq_if (b := 10) (n := n) (by decide)
  by_cases small : n < 10
  · rw [if_pos small] at split
    have one : digitChars n = [n.digitChar] := split
    have quotient : n / 10 = 0 := by omega
    have rest : n % 10 = n := by omega
    rw [one, quotient, rest, digitChars_zero]
    obtain ⟨k, rfl⟩ := Nat.exists_eq_succ_of_ne_zero (Nat.pos_iff_ne_zero.mp some)
    simp [padLeft, List.replicate_succ']
  · rw [if_neg small] at split
    have more : digitChars n = digitChars (n / 10) ++ [(n % 10).digitChar] := split
    rw [more]
    simp [padLeft]

end Numeral

end ClientRegistry
