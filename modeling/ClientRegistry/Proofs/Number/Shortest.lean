import ClientRegistry.Proofs.Number.Rounding
import Mathlib.Data.Nat.Cast.Order.Field

/-! The shortest decimal of a double rounds to this double. Seventeen digits always suffice, so
the search ends at a grid that holds a number between the bounds of the double. -/

namespace ClientRegistry.ShortDecimal

open Binary64

variable {m d num den count : Nat} {e grid point : Int}

/-- The number `0.d₁d₂… · 10^point`. -/
def value (s : ShortDecimal) : ℚ :=
  s.digits * 10 ^ (s.point - decimalLength s.digits)

theorem readsBack_iff :
    readsBack m e d grid = true ↔ RoundsTo m e (d * 10 ^ grid) := by
  have common : (0 : ℚ) < 10 ^ (-grid).toNat * 2 ^ (-(e - 2)).toNat := by positivity
  have bounds : ∀ bound : Nat,
      (bound * 2 ^ (e - 2) : ℚ) * (10 ^ (-grid).toNat * 2 ^ (-(e - 2)).toNat) =
        (bound * (tenTo (-grid).toNat * twoTo (e - 2).toNat) : Nat) := by
    intro bound
    rw [zpow_eq_div two_ne_zero]
    push_cast [cast_twoTo, cast_tenTo]
    field_simp
  have decimal : (d * 10 ^ grid : ℚ) * (10 ^ (-grid).toNat * 2 ^ (-(e - 2)).toNat) =
      (d * tenTo grid.toNat * twoTo (-(e - 2)).toNat : Nat) := by
    rw [zpow_eq_div (by norm_num)]
    push_cast [cast_twoTo, cast_tenTo]
    field_simp
  have low : ∀ bound : Nat, (bound * 2 ^ (e - 2) : ℚ) ≤ d * 10 ^ grid ↔
      bound * (tenTo (-grid).toNat * twoTo (e - 2).toNat) ≤
        d * tenTo grid.toNat * twoTo (-(e - 2)).toNat := fun bound => by
    rw [← mul_le_mul_iff_left₀ common, bounds, decimal, Nat.cast_le]
  have high : ∀ bound : Nat, (d * 10 ^ grid : ℚ) ≤ bound * 2 ^ (e - 2) ↔
      d * tenTo grid.toNat * twoTo (-(e - 2)).toNat ≤
        bound * (tenTo (-grid).toNat * twoTo (e - 2).toNat) := fun bound => by
    rw [← mul_le_mul_iff_left₀ common, bounds, decimal, Nat.cast_le]
  simp only [readsBack, RoundsTo, beq_iff_eq]
  split
  · rw [Bool.and_eq_true, decide_eq_true_eq, decide_eq_true_eq, low, high]
  · rw [Bool.and_eq_true, decide_eq_true_eq, decide_eq_true_eq, ← not_le, ← not_le, ← not_le,
      ← not_le, low, high]

theorem lt_cast_div_add_one (hd : den ≠ 0) : (num / den : ℚ) < (num / den : Nat) + 1 := by
  have real : (0 : ℚ) < den := by exact_mod_cast Nat.pos_of_ne_zero hd
  rw [div_lt_iff₀' real]
  exact_mod_cast Nat.lt_mul_div_succ num (Nat.pos_of_ne_zero hd)

theorem ten_zpow_add_one_le (n : Nat) : (n : ℚ) + 1 ≤ 10 ^ (decimalLength n : Int) := by
  have bound : n + 1 ≤ 10 ^ decimalLength n := Numeral.lt_tenTo_length n
  exact_mod_cast bound

/-- A fraction lies between neighbouring powers of ten. -/
theorem pointOf_spec (hn : num ≠ 0) (hd : den ≠ 0) :
    (10 : ℚ) ^ (pointOf num den - 1) ≤ num / den ∧ (num / den : ℚ) < 10 ^ pointOf num den := by
  have realNum : (0 : ℚ) < num := by exact_mod_cast Nat.pos_of_ne_zero hn
  have realDen : (0 : ℚ) < den := by exact_mod_cast Nat.pos_of_ne_zero hd
  simp only [pointOf]
  split
  next large =>
    have some : num / den ≠ 0 := (Nat.div_pos large (Nat.pos_of_ne_zero hd)).ne'
    exact ⟨(ten_zpow_length_le some).trans Nat.cast_div_le,
      (lt_cast_div_add_one hd).trans_le (ten_zpow_add_one_le _)⟩
  next small =>
    have shift : (den + num - 1) / num - 1 = (den - 1) / num := by
      have sum : den + num - 1 = den - 1 + num := by omega
      rw [sum, Nat.add_div_right _ (Nat.pos_of_ne_zero hn), Nat.succ_sub_one]
    rw [shift]
    have some : (den - 1) / num ≠ 0 := (Nat.div_pos (by omega) (Nat.pos_of_ne_zero hn)).ne'
    have below : ((den - 1) / num : Nat) * (num : ℚ) < den := by
      have : (den - 1) / num * num < den :=
        lt_of_le_of_lt (Nat.div_mul_le_self _ _) (by omega)
      exact_mod_cast this
    have above : (den : ℚ) ≤ num * (((den - 1) / num : Nat) + 1) := by
      have : den ≤ num * ((den - 1) / num + 1) := by
        have := Nat.lt_mul_div_succ (den - 1) (Nat.pos_of_ne_zero hn)
        omega
      exact_mod_cast this
    have length := ten_zpow_length_le some
    have length' := ten_zpow_add_one_le ((den - 1) / num)
    generalize (den - 1) / num = quotient at below above length length' ⊢
    have powerUp : (0 : ℚ) < 10 ^ (decimalLength quotient : Int) := by positivity
    have powerDown : (0 : ℚ) < 10 ^ ((decimalLength quotient : Int) - 1) := by positivity
    constructor
    · rw [sub_right_comm, sub_self, zero_sub, zpow_neg, inv_eq_one_div,
        div_le_div_iff₀ powerUp realDen, one_mul]
      exact above.trans (mul_le_mul_of_nonneg_left length' realNum.le)
    · rw [← neg_sub, zpow_neg, inv_eq_one_div, div_lt_div_iff₀ realDen powerDown, one_mul, mul_comm]
      exact lt_of_le_of_lt (mul_le_mul_of_nonneg_right length realNum.le) below

theorem gridded (num den : Nat) (grid : Int) :
    ((num * tenTo (-grid).toNat : Nat) : ℚ) / (den * tenTo grid.toNat : Nat) =
      num / den / 10 ^ grid := by
  rw [zpow_eq_div (by norm_num)]
  push_cast [cast_tenTo]
  field_simp

theorem grid_pos (hd : den ≠ 0) (grid : Int) : 0 < den * tenTo grid.toNat :=
  Nat.mul_pos (Nat.pos_of_ne_zero hd) (tenTo_pos _)

theorem onGrid_eq_some (h : onGrid m e num den grid = some d) :
    RoundsTo m e (d * 10 ^ grid) ∧
      num * tenTo (-grid).toNat / (den * tenTo grid.toNat) ≤ d ∧
      d ≤ num * tenTo (-grid).toNat / (den * tenTo grid.toNat) + 1 := by
  simp only [onGrid] at h
  split at h
  next nearer =>
    cases h
    exact ⟨readsBack_iff.mp nearer, div_le_roundDiv _ _, roundDiv_le_succ _ _⟩
  split at h
  next below =>
    cases h
    exact ⟨readsBack_iff.mp below, Nat.le_refl _, Nat.le_succ _⟩
  split at h
  next above =>
    cases h
    exact ⟨readsBack_iff.mp above, Nat.le_succ _, Nat.le_refl _⟩
  · cases h

/-- What is found with `count` digits after the point has that many digits, unless it is the
next power of ten. -/
theorem onGrid_bounds (hd : den ≠ 0) (some : 0 < count)
    (low : (10 : ℚ) ^ (point - 1) ≤ num / den) (high : (num / den : ℚ) < 10 ^ point)
    (h : onGrid m e num den (point - count) = .some d) :
    tenTo (count - 1) ≤ d ∧ d ≤ tenTo count := by
  obtain ⟨-, least, most⟩ := onGrid_eq_some h
  have pos := grid_pos hd (point - count)
  have real : (0 : ℚ) < (den * tenTo (point - count).toNat : Nat) := by exact_mod_cast pos
  have unit : (0 : ℚ) < 10 ^ (point - count) := by positivity
  have ten : (10 : ℚ) ≠ 0 := by norm_num
  have lower : tenTo (count - 1) ≤
      num * tenTo (-(point - count)).toNat / (den * tenTo (point - count).toNat) := by
    rw [Nat.le_div_iff_mul_le pos, ← Nat.cast_le (α := ℚ), Nat.cast_mul, ← le_div_iff₀ real, gridded,
      le_div_iff₀ unit, cast_tenTo, ← zpow_natCast, ← zpow_add₀ ten]
    have exponent : ((count - 1 : Nat) : Int) + (point - count) = point - 1 := by omega
    rwa [exponent]
  have upper : num * tenTo (-(point - count)).toNat / (den * tenTo (point - count).toNat) <
      tenTo count := by
    rw [Nat.div_lt_iff_lt_mul pos, ← Nat.cast_lt (α := ℚ), Nat.cast_mul (tenTo count),
      ← div_lt_iff₀ real, gridded, div_lt_iff₀ unit, cast_tenTo, ← zpow_natCast, ← zpow_add₀ ten]
    have exponent : (count : Int) + (point - count) = point := by omega
    rwa [exponent]
  exact ⟨lower.trans least, by omega⟩

/-- With seventeen digits the nearer neighbour reads back. -/
theorem onGrid_seventeen (hd : den ≠ 0) (exact : (num / den : ℚ) = m * 2 ^ e) (pos : m ≠ 0)
    (bits : m < twoTo 53) (low : (10 : ℚ) ^ (point - 1) ≤ num / den) :
    onGrid m e num den (point - 17) ≠ none := by
  have unit : (0 : ℚ) < 10 ^ (point - 17) := by positivity
  have error := abs_roundDiv_sub_le (num * tenTo (-(point - 17)).toNat)
    (grid_pos hd (point - 17))
  rw [gridded] at error
  have close : |(roundDiv (num * tenTo (-(point - 17)).toNat) (den * tenTo (point - 17).toNat) : ℚ)
      * 10 ^ (point - 17) - m * 2 ^ e| ≤ 1 / 2 * 10 ^ (point - 17) := by
    rw [← exact, ← div_mul_cancel₀ (num / den : ℚ) unit.ne', ← sub_mul, abs_mul, abs_of_pos unit]
    exact mul_le_mul_of_nonneg_right error unit.le
  have size : 10 ^ 16 * 10 ^ (point - 17) ≤ (m : ℚ) * 2 ^ e := by
    rw [← exact, ← zpow_natCast, ← zpow_add₀ (by norm_num)]
    refine le_of_eq_of_le ?_ low
    congr 1
    omega
  have reads := readsBack_iff.mpr (roundsTo_of_near pos bits (by linarith))
  simp only [onGrid, reads, if_true]
  exact Option.some_ne_none _

/-- The digits with the point after all of them. -/
theorem value_eq_of_bounds (some : 0 < count) (low : tenTo (count - 1) ≤ d) (high : d < tenTo count)
    (point : Int) : (⟨d, point⟩ : ShortDecimal).value = d * 10 ^ (point - count) := by
  obtain ⟨k, rfl⟩ := Nat.exists_eq_succ_of_ne_zero some.ne'
  have length : decimalLength d = k + 1 := Numeral.length_digitChars_eq low high
  simp only [value, length, Nat.succ_eq_add_one]

/-- What is found rounds to the double, also where it is written as a power of ten. -/
theorem found_rounds (hd : den ≠ 0) (some : 0 < count) (low : (10 : ℚ) ^ (point - 1) ≤ num / den)
    (high : (num / den : ℚ) < 10 ^ point)
    (found : onGrid m e num den (point - count) = .some d) :
    RoundsTo m e (if d = tenTo count then ⟨1, point + 1⟩ else ⟨d, point⟩ : ShortDecimal).value := by
  obtain ⟨rounds, -, -⟩ := onGrid_eq_some found
  obtain ⟨least, most⟩ := onGrid_bounds hd some low high found
  split
  next power =>
    have one : (⟨1, point + 1⟩ : ShortDecimal).value = (1 : Nat) * 10 ^ (point + 1 - (1 : Nat)) :=
      value_eq_of_bounds Nat.one_pos (by decide) (by decide) _
    have shift : (count : Int) + (point - count) = point + 1 - (1 : Nat) := by omega
    rw [power, cast_tenTo, ← zpow_natCast, ← zpow_add₀ (by norm_num)] at rounds
    rwa [one, Nat.cast_one, one_mul, ← shift]
  next other =>
    rwa [value_eq_of_bounds some least (by omega)]

theorem search_rounds (hd : den ≠ 0) (exact : (num / den : ℚ) = m * 2 ^ e) (pos : m ≠ 0)
    (bits : m < twoTo 53) (low : (10 : ℚ) ^ (point - 1) ≤ num / den)
    (high : (num / den : ℚ) < 10 ^ point) (fuel : Nat) (some : 0 < count)
    (enough : fuel + count = 17) :
    RoundsTo m e (search m e num den point (fuel + 1) count).value := by
  induction fuel generalizing count with
  | zero =>
      rw [Nat.zero_add] at enough
      subst enough
      rw [search]
      split
      next d found => exact found_rounds hd some low high found
      next missing => exact absurd missing (onGrid_seventeen hd exact pos bits low)
  | succ fuel ih =>
      rw [search]
      split
      next d found => exact found_rounds hd some low high found
      next => exact ih (Nat.succ_pos _) (by omega)

theorem ofDouble_rounds (pos : m ≠ 0) (bits : m < twoTo 53) (e : Int) :
    RoundsTo m e (ofDouble m e).value := by
  have exact := fraction_eq m e
  have hd := (fraction_pos m e).ne'
  have hn : (fraction m e).1 ≠ 0 := by
    intro zero
    rw [zero, Nat.cast_zero, zero_div] at exact
    have : (0 : ℚ) < m * 2 ^ e := mul_pos (by exact_mod_cast Nat.pos_of_ne_zero pos) (by positivity)
    exact this.ne exact
  obtain ⟨low, high⟩ := pointOf_spec hn hd
  exact search_rounds hd exact pos bits low high 16 Nat.one_pos rfl

end ClientRegistry.ShortDecimal
