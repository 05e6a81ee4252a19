import ClientRegistry.Proofs.Number.Rounding
import ClientRegistry.Value.Digest
import Mathlib.Data.Nat.ModEq

/-! Doubles as the rationals that they are. Canonical doubles are the same if they are one rational,
and a double that is a whole number is the same as this number and has its digest. -/

namespace ClientRegistry

namespace Binary64

variable {s t : Bool} {m n : Nat} {e f i : Int}

/-- The number `± q`. -/
def signed (negative : Bool) (q : ℚ) : ℚ := if negative then -q else q

theorem cast_negated (negative : Bool) (n : Nat) :
    (negated negative n : ℚ) = signed negative n := by
  cases negative <;> simp [negated, signed]

theorem two_zpow_pos (e : Int) : (0 : ℚ) < 2 ^ e := zpow_pos two_pos e

/-- The mantissa of a number with a greater exponent would have one bit too many. -/
theorem le_of_canonical (canonical : (finite s m e).Canonical) (canonical' : (finite t n f).Canonical)
    (value : (m : ℚ) * 2 ^ e = n * 2 ^ f) : f ≤ e := by
  by_contra less
  obtain ⟨bits, least, -, -⟩ := canonical
  obtain ⟨-, -, -, normal⟩ := canonical'
  have normal : twoTo 52 ≤ n := normal.resolve_right (by omega)
  have scaled : (m : ℚ) = n * 2 ^ (f - e) := by
    rw [zpow_sub₀ two_ne_zero, mul_div_assoc', ← value, mul_div_assoc,
      div_self (two_zpow_pos e).ne', mul_one]
  have twice : (2 : ℚ) ≤ 2 ^ (f - e) := by
    calc (2 : ℚ) = 2 ^ (1 : Int) := (zpow_one 2).symm
      _ ≤ 2 ^ (f - e) := two_zpow_le (by omega)
  have large : (twoTo 53 : ℚ) ≤ m := by
    have low : (twoTo 52 : ℚ) ≤ n := by exact_mod_cast normal
    calc (twoTo 53 : ℚ) = twoTo 52 * 2 := by rw [twoTo_succ]; push_cast; rfl
      _ ≤ n * 2 ^ (f - e) := mul_le_mul low twice zero_le_two (by positivity)
      _ = m := scaled.symm
  have large : twoTo 53 ≤ m := by exact_mod_cast large
  omega

theorem signed_eq_zero {q : ℚ} : signed s q = 0 ↔ q = 0 := by
  cases s <;> simp [signed]

theorem same_iff_value (canonical : (finite s m e).Canonical)
    (canonical' : (finite t n f).Canonical) : (finite s m e).same (finite t n f) = true ↔
      signed s (m * 2 ^ e) = signed t (n * 2 ^ f) := by
  simp only [same, Bool.or_eq_true, Bool.and_eq_true, beq_iff_eq]
  constructor
  · rintro (⟨rfl, rfl⟩ | ⟨⟨rfl, rfl⟩, rfl⟩)
    · simp [signed]
    · rfl
  · intro value
    by_cases zero : m = 0
    · subst zero
      refine .inl ⟨rfl, ?_⟩
      have none : signed t (n * 2 ^ f) = 0 := by rw [← value]; simp [signed]
      rw [signed_eq_zero, mul_eq_zero] at none
      exact_mod_cast none.resolve_right (two_zpow_pos f).ne'
    · have pos : (0 : ℚ) < m * 2 ^ e :=
        mul_pos (by exact_mod_cast Nat.pos_of_ne_zero zero) (two_zpow_pos e)
      have nonneg : (0 : ℚ) ≤ n * 2 ^ f := mul_nonneg n.cast_nonneg (two_zpow_pos f).le
      have signs : s = t ∧ (m : ℚ) * 2 ^ e = n * 2 ^ f := by
        cases s <;> cases t <;> simp only [signed, if_true, Bool.false_eq_true, if_false] at value
        · exact ⟨rfl, value⟩
        · linarith
        · linarith
        · exact ⟨rfl, neg_inj.mp value⟩
      obtain ⟨rfl, magnitude⟩ := signs
      obtain rfl : e = f :=
        le_antisymm (le_of_canonical canonical' canonical magnitude.symm)
          (le_of_canonical canonical canonical' magnitude)
      have mantissa : (m : ℚ) = n := mul_right_cancel₀ (two_zpow_pos e).ne' magnitude
      exact .inr ⟨⟨rfl, by exact_mod_cast mantissa⟩, rfl⟩

theorem equalsInt_iff_value :
    (finite s m e).equalsInt i = true ↔ signed s (m * 2 ^ e) = i := by
  have pos : ((fraction m e).2 : ℚ) ≠ 0 := by exact_mod_cast (fraction_pos m e).ne'
  have whole : (negated s (fraction m e).1 : ℚ) / (fraction m e).2 = signed s (m * 2 ^ e) := by
    rw [← fraction_eq, cast_negated]
    cases s
    · rfl
    · exact neg_div _ _
  rw [← whole, div_eq_iff pos]
  simp only [equalsInt, beq_iff_eq]
  norm_cast

end Binary64

namespace Digest

open Binary64

variable {s t : Bool} {m n : Nat} {e f i : Int}

theorem twoTo_modEq (k r : Nat) : twoTo (61 * k + r) ≡ twoTo r [MOD modulus] := by
  have root : twoTo 61 ≡ 1 [MOD modulus] := by decide
  have power : twoTo (61 * k + r) = twoTo 61 ^ k * twoTo r := by
    rw [twoTo_eq, twoTo_eq, twoTo_eq, pow_add, pow_mul]
  calc twoTo (61 * k + r) = twoTo 61 ^ k * twoTo r := power
    _ ≡ 1 ^ k * twoTo r [MOD modulus] := (root.pow k).mul_right _
    _ = twoTo r := by rw [one_pow, one_mul]

/-- Modulo the prime an exponent may be reduced modulo 61. -/
theorem residue_eq (value : (m : ℚ) * 2 ^ e = n) :
    m % modulus * twoTo (e % 61).toNat % modulus = n % modulus := by
  have reduced : m % modulus * twoTo (e % 61).toNat ≡ m * twoTo (e % 61).toNat [MOD modulus] :=
    (Nat.mod_modEq m modulus).mul_right _
  refine (reduced.trans ?_ : _ ≡ n [MOD modulus])
  rcases le_or_gt 0 e with up | down
  · have split : e.toNat = 61 * (e / 61).toNat + (e % 61).toNat := by omega
    have whole : m * twoTo e.toNat = n := by
      have cast : (m : ℚ) * 2 ^ e.toNat = n := by
        rw [← value, ← zpow_natCast, Int.toNat_of_nonneg up]
      rw [twoTo_eq]
      exact_mod_cast cast
    rw [← whole, split]
    exact ((twoTo_modEq _ _).mul_left m).symm
  · have split : (-e).toNat + (e % 61).toNat = 61 * (-(e / 61)).toNat + 0 := by omega
    have whole : m = n * twoTo (-e).toNat := by
      have cast : (m : ℚ) = n * 2 ^ (-e).toNat := by
        rw [← value, ← zpow_natCast, Int.toNat_of_nonneg (by omega), mul_assoc,
          ← zpow_add₀ two_ne_zero, add_neg_cancel, zpow_zero, mul_one]
      rw [twoTo_eq]
      exact_mod_cast cast
    have power : twoTo (-e).toNat * twoTo (e % 61).toNat = twoTo (61 * (-(e / 61)).toNat + 0) := by
      rw [← split, twoTo_eq, twoTo_eq, twoTo_eq, pow_add]
    rw [whole, mul_assoc, power]
    exact ((twoTo_modEq _ 0).mul_left n).trans (by rw [twoTo_zero, mul_one])

theorem ofResidue_zero (negative : Bool) : ofResidue negative 0 = number 0 := by
  cases negative <;> rfl

/-- A double that is a whole number has the digest of this number. -/
theorem ofReal_eq_ofInt (value : signed s (m * 2 ^ e) = i) :
    ofReal (.finite s m e) = ofInt i := by
  have magnitude : (m : ℚ) * 2 ^ e = i.natAbs := by
    have nonneg : (0 : ℚ) ≤ m * 2 ^ e := mul_nonneg m.cast_nonneg (two_zpow_pos e).le
    have absolute : |signed s (m * 2 ^ e)| = m * 2 ^ e := by
      cases s <;> simp only [signed, if_true, Bool.false_eq_true, if_false, abs_neg]
      · exact abs_of_nonneg nonneg
      · exact abs_of_nonneg nonneg
    rw [← absolute, value, Nat.cast_natAbs, Int.cast_abs]
  simp only [ofReal, ofInt, residue_eq magnitude]
  rcases eq_or_ne i 0 with rfl | nonzero
  · rw [Int.natAbs_zero, Nat.zero_mod, ofResidue_zero, ofResidue_zero]
  · have pos : (0 : ℚ) < m * 2 ^ e := by
      rw [magnitude]
      exact_mod_cast Int.natAbs_pos.mpr nonzero
    have sign : decide (i < 0) = s := by
      have signs : (i : ℚ) < 0 ↔ s = true := by
        rw [← value]
        cases s <;> simp only [signed, if_true, Bool.false_eq_true, if_false]
        · simpa using pos.le
        · simpa using pos
      rw [Bool.eq_iff_iff, decide_eq_true_eq, ← signs]
      norm_cast
    rw [sign]

theorem ofReal_eq_of_same {x y : Binary64} (same : x.same y = true) : ofReal x = ofReal y := by
  cases x <;> cases y <;> simp only [Binary64.same, Bool.or_eq_true, Bool.and_eq_true, beq_iff_eq,
    Bool.false_eq_true] at same
  · rcases same with ⟨rfl, rfl⟩ | ⟨⟨rfl, rfl⟩, rfl⟩
    · simp [ofReal, ofResidue_zero]
    · rfl
  · rw [same]
  · rw [same]

end Digest

end ClientRegistry
