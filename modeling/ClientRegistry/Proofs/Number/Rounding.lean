import ClientRegistry.Proofs.Number.Digits
import Mathlib.Algebra.Order.Field.Power
import Mathlib.Data.Rat.Cast.Order
import Mathlib.Tactic.FieldSimp
import Mathlib.Tactic.Linarith
import Mathlib.Tactic.Positivity
import Mathlib.Tactic.Ring

/-! Rounding to the nearest double, in exact arithmetic. `RoundsTo` names the rationals that a
double stands for; each of them is rounded to this double, however it is spelled in decimal. -/

namespace ClientRegistry

theorem cast_twoTo (n : Nat) : ((twoTo n : Nat) : ℚ) = 2 ^ n := by
  rw [twoTo_eq]
  norm_num

theorem cast_tenTo (n : Nat) : ((tenTo n : Nat) : ℚ) = 10 ^ n := by
  rw [tenTo_eq]
  norm_num

/-- A power with an integer exponent is the quotient of two natural powers. -/
theorem zpow_eq_div {b : ℚ} (h : b ≠ 0) (k : Int) : b ^ k = b ^ k.toNat / b ^ (-k).toNat := by
  rw [← zpow_natCast, ← zpow_natCast, ← zpow_sub₀ h]
  congr 1
  omega

namespace Binary64

variable {m num den k : Nat} {e : Int} {q : ℚ} {negative : Bool}

/-- A tie goes to the even neighbour. -/
theorem roundDiv_eq_of_nat (pos : 0 < den) (low : 2 * (den * k) ≤ 2 * num + den)
    (high : 2 * num ≤ 2 * (den * k) + den)
    (odd : k % 2 = 1 → 2 * (den * k) < 2 * num + den ∧ 2 * num < 2 * (den * k) + den) :
    roundDiv num den = k := by
  have split := Nat.div_add_mod num den
  have small := Nat.mod_lt num pos
  have above : num / den < k + 1 :=
    Nat.lt_of_mul_lt_mul_left (a := den) (by rw [Nat.mul_add]; omega)
  have below : k < num / den + 2 :=
    Nat.lt_of_mul_lt_mul_left (a := den) (by rw [Nat.mul_add]; omega)
  simp only [roundDiv, Bool.or_eq_true, Bool.and_eq_true, decide_eq_true_eq, beq_iff_eq]
  have cases : k = num / den ∨ k = num / den + 1 := by omega
  rcases cases with rfl | rfl
  · rw [if_neg (by omega)]
  · rw [Nat.mul_add] at low odd
    rw [if_pos (by omega)]

theorem roundDiv_eq (pos : 0 < den) (low : (k : ℚ) - 1 / 2 ≤ num / den)
    (high : (num : ℚ) / den ≤ k + 1 / 2)
    (odd : k % 2 = 1 → (k : ℚ) - 1 / 2 < num / den ∧ (num : ℚ) / den < k + 1 / 2) :
    roundDiv num den = k := by
  have real : (0 : ℚ) < den := by exact_mod_cast pos
  rw [le_div_iff₀ real] at low
  rw [div_le_iff₀ real] at high
  rw [lt_div_iff₀ real, div_lt_iff₀ real] at odd
  refine roundDiv_eq_of_nat pos ?_ ?_ fun h => ⟨?_, ?_⟩
  · have : (2 * (den * k) : ℚ) ≤ 2 * num + den := by linarith
    exact_mod_cast this
  · have : (2 * num : ℚ) ≤ 2 * (den * k) + den := by linarith
    exact_mod_cast this
  · have : (2 * (den * k) : ℚ) < 2 * num + den := by linarith [(odd h).1]
    exact_mod_cast this
  · have : (2 * num : ℚ) < 2 * (den * k) + den := by linarith [(odd h).2]
    exact_mod_cast this

theorem div_le_roundDiv (num den : Nat) : num / den ≤ roundDiv num den := by
  simp only [roundDiv]
  split
  · exact Nat.le_succ _
  · exact Nat.le_refl _

theorem roundDiv_le_succ (num den : Nat) : roundDiv num den ≤ num / den + 1 := by
  simp only [roundDiv]
  split
  · exact Nat.le_refl _
  · exact Nat.le_succ _

/-- The error is at most one half. -/
theorem abs_roundDiv_sub_le (num : Nat) (pos : 0 < den) :
    |(roundDiv num den : ℚ) - num / den| ≤ 1 / 2 := by
  have real : (0 : ℚ) < den := by exact_mod_cast pos
  have split : (den * (num / den : Nat) + (num % den : Nat) : ℚ) = num := by
    exact_mod_cast Nat.div_add_mod num den
  have small : ((num % den : Nat) : ℚ) < den := by exact_mod_cast Nat.mod_lt num pos
  rw [abs_le, neg_le_sub_iff_le_add, sub_le_iff_le_add, div_le_iff₀' real, ← sub_le_iff_le_add',
    le_div_iff₀' real]
  simp only [roundDiv]
  split
  next up =>
    have half : (den : ℚ) ≤ 2 * (num % den : Nat) := by
      have : den ≤ 2 * (num % den) := by
        simp only [Bool.or_eq_true, Bool.and_eq_true, decide_eq_true_eq, beq_iff_eq] at up
        omega
      exact_mod_cast this
    push_cast
    constructor <;> linarith
  next down =>
    have half : (2 * (num % den : Nat) : ℚ) ≤ den := by
      have : 2 * (num % den) ≤ den := by
        simp only [Bool.or_eq_true, decide_eq_true_eq, not_or, not_lt] at down
        exact down.1
      exact_mod_cast this
    constructor <;> linarith

theorem scale_pos (num : Nat) (pos : 0 < den) (e : Int) : 0 < (scale num den e).2 := by
  simp only [scale]
  split
  · exact Nat.mul_pos pos (twoTo_pos _)
  · exact pos

theorem scale_eq (num den : Nat) (e : Int) :
    ((scale num den e).1 : ℚ) / (scale num den e).2 = num / den / 2 ^ e := by
  rw [zpow_eq_div two_ne_zero]
  simp only [scale]
  split
  next h =>
    have none : (-e).toNat = 0 := by omega
    rw [none, pow_zero, div_one, Nat.cast_mul, cast_twoTo, div_mul_eq_div_div]
  next h =>
    have none : e.toNat = 0 := by omega
    rw [none, pow_zero, div_div_eq_mul_div, div_one, Nat.cast_mul, cast_twoTo, mul_div_right_comm]

theorem fraction_pos (m : Nat) (e : Int) : 0 < (fraction m e).2 := by
  simp only [fraction]
  split
  · exact Nat.one_pos
  · exact twoTo_pos _

theorem fraction_eq (m : Nat) (e : Int) :
    ((fraction m e).1 : ℚ) / (fraction m e).2 = m * 2 ^ e := by
  rw [zpow_eq_div two_ne_zero]
  simp only [fraction]
  split
  next h =>
    have none : (-e).toNat = 0 := by omega
    rw [none, pow_zero, div_one, Nat.cast_mul, cast_twoTo, Nat.cast_one, div_one]
  next h =>
    have none : e.toNat = 0 := by omega
    rw [none, pow_zero, cast_twoTo, mul_one_div]

/-- The exponent at which the mantissa of `q` has 53 bits, or the least one. -/
structure Exponent (q : ℚ) (e : Int) : Prop where
  least : -1074 ≤ e
  below : q < 2 ^ (e + 53)
  full : e = -1074 ∨ 2 ^ (e + 52) ≤ q

theorem two_zpow_le {a b : Int} (h : a ≤ b) : (2 : ℚ) ^ a ≤ 2 ^ b :=
  zpow_le_zpow_right₀ one_le_two h

theorem lt_of_two_zpow_lt {a b : Int} (h : (2 : ℚ) ^ a < 2 ^ b) : a < b :=
  (zpow_lt_zpow_iff_right₀ one_lt_two).mp h

theorem two_zpow_log2_le {n : Nat} (h : n ≠ 0) : (2 : ℚ) ^ (n.log2 : Int) ≤ n := by
  rw [zpow_natCast]
  exact_mod_cast Nat.log2_self_le h

theorem lt_two_zpow_log2 (n : Nat) : (n : ℚ) < 2 ^ ((n.log2 : Int) + 1) := by
  have bound : n < 2 ^ (n.log2 + 1) := Nat.lt_log2_self
  exact_mod_cast bound

theorem two_zpow_lt_div (hn : num ≠ 0) (hd : den ≠ 0) :
    (2 : ℚ) ^ ((num.log2 : Int) - den.log2 - 1) < num / den := by
  have real : (0 : ℚ) < den := by exact_mod_cast Nat.pos_of_ne_zero hd
  have two : (0 : ℚ) < 2 := two_pos
  rw [lt_div_iff₀ real]
  calc (2 : ℚ) ^ ((num.log2 : Int) - den.log2 - 1) * den
      < 2 ^ ((num.log2 : Int) - den.log2 - 1) * 2 ^ ((den.log2 : Int) + 1) :=
        mul_lt_mul_of_pos_left (lt_two_zpow_log2 den) (zpow_pos two _)
    _ = 2 ^ (num.log2 : Int) := by
        rw [← zpow_add₀ two.ne']
        congr 1
        omega
    _ ≤ num := two_zpow_log2_le hn

theorem div_lt_two_zpow (num : Nat) (hd : den ≠ 0) :
    (num : ℚ) / den < 2 ^ ((num.log2 : Int) - den.log2 + 1) := by
  have real : (0 : ℚ) < den := by exact_mod_cast Nat.pos_of_ne_zero hd
  have two : (0 : ℚ) < 2 := two_pos
  rw [div_lt_iff₀ real]
  calc (num : ℚ) < 2 ^ ((num.log2 : Int) + 1) := lt_two_zpow_log2 num
    _ = 2 ^ ((num.log2 : Int) - den.log2 + 1) * 2 ^ (den.log2 : Int) := by
        rw [← zpow_add₀ two.ne']
        congr 1
        omega
    _ ≤ 2 ^ ((num.log2 : Int) - den.log2 + 1) * den :=
        mul_le_mul_of_nonneg_left (two_zpow_log2_le hd) (zpow_pos two _).le

/-- How many bits a scaled fraction has is decided by its whole part alone. -/
theorem twoTo_le_scale (hd : den ≠ 0) (bits : Nat) :
    twoTo bits ≤ (scale num den e).1 / (scale num den e).2 ↔
      (2 : ℚ) ^ (e + bits) ≤ num / den := by
  have pos := scale_pos num (Nat.pos_of_ne_zero hd) e
  have real : (0 : ℚ) < (scale num den e).2 := by exact_mod_cast pos
  rw [Nat.le_div_iff_mul_le pos, ← Nat.cast_le (α := ℚ), Nat.cast_mul, ← le_div_iff₀ real,
    scale_eq, le_div_iff₀ (zpow_pos two_pos e), cast_twoTo, ← zpow_natCast,
    ← zpow_add₀ two_ne_zero, add_comm]

theorem exponentFor_spec (hn : num ≠ 0) (hd : den ≠ 0) :
    Exponent (num / den : ℚ) (exponentFor num den) := by
  have above := two_zpow_lt_div hn hd
  have below := div_lt_two_zpow num hd
  simp only [exponentFor, twoTo_le_scale hd, Nat.cast_ofNat]
  generalize low : max ((num.log2 : Int) - den.log2 - 53) (-1074) = start
  split
  next more =>
    have close := lt_of_two_zpow_lt (more.trans_lt below)
    refine ⟨by omega, below.trans_le (two_zpow_le (by omega)), .inr ?_⟩
    rw [add_assoc]
    exact more
  next fits =>
    refine ⟨by omega, not_le.mp fits, ?_⟩
    rcases Int.lt_or_le (-1074) start with large | small
    · exact .inr ((two_zpow_le (by omega)).trans above.le)
    · exact .inl (by omega)

/-- The rationals between the bounds of `m · 2^e`; the bounds count iff `m` is even. -/
def RoundsTo (m : Nat) (e : Int) (q : ℚ) : Prop :=
  let (low, high) := ShortDecimal.quarterBounds m e
  if m % 2 = 0 then low * (2 : ℚ) ^ (e - 2) ≤ q ∧ q ≤ high * (2 : ℚ) ^ (e - 2)
  else low * (2 : ℚ) ^ (e - 2) < q ∧ q < high * (2 : ℚ) ^ (e - 2)

theorem quarter_mul (a : ℚ) (e : Int) : a * 2 ^ (e - 2) = a / 4 * 2 ^ e := by
  rw [zpow_sub₀ two_ne_zero]
  norm_num
  ring

theorem roundsTo_iff (pos : m ≠ 0) : RoundsTo m e q ↔
    let low := if m = twoTo 52 ∧ -1074 < e then (m : ℚ) - 1 / 4 else m - 1 / 2
    if m % 2 = 0 then low * 2 ^ e ≤ q ∧ q ≤ (m + 1 / 2) * 2 ^ e
    else low * 2 ^ e < q ∧ q < (m + 1 / 2) * 2 ^ e := by
  have low : ((ShortDecimal.quarterBounds m e).1 : ℚ) / 4 =
      if m = twoTo 52 ∧ -1074 < e then (m : ℚ) - 1 / 4 else m - 1 / 2 := by
    simp only [ShortDecimal.quarterBounds]
    split
    · rw [Nat.cast_sub (by omega)]
      push_cast
      ring
    · rw [Nat.cast_sub (by omega)]
      push_cast
      ring
  have high : ((ShortDecimal.quarterBounds m e).2 : ℚ) / 4 = m + 1 / 2 := by
    simp only [ShortDecimal.quarterBounds]
    push_cast
    ring
  simp only [RoundsTo, quarter_mul, low, high]

theorem RoundsTo.low (h : RoundsTo m e q) (pos : m ≠ 0) : ((m : ℚ) - 1 / 2) * 2 ^ e ≤ q := by
  have unit : (0 : ℚ) < 2 ^ e := zpow_pos two_pos e
  rw [roundsTo_iff pos] at h
  simp only at h
  split at h <;> split at h <;> nlinarith [h.1]

theorem RoundsTo.high (h : RoundsTo m e q) (pos : m ≠ 0) : q ≤ ((m : ℚ) + 1 / 2) * 2 ^ e := by
  rw [roundsTo_iff pos] at h
  simp only at h
  split at h
  · exact h.2
  · exact h.2.le

theorem RoundsTo.odd (h : RoundsTo m e q) (one : m % 2 = 1) :
    ((m : ℚ) - 1 / 2) * 2 ^ e < q ∧ q < ((m : ℚ) + 1 / 2) * 2 ^ e := by
  have power : ¬(m = twoTo 52 ∧ -1074 < e) := fun both => by
    rw [both.1] at one
    exact absurd one (by decide +kernel)
  rw [roundsTo_iff (by omega)] at h
  simp only [power, if_false, one, one_ne_zero] at h
  exact h

/-- Below a power of two the doubles stand twice as dense. -/
theorem RoundsTo.power (h : RoundsTo (twoTo 52) e q) (above : -1074 < e) :
    ((twoTo 52 : Nat) - 1 / 4 : ℚ) * 2 ^ e ≤ q := by
  rw [roundsTo_iff (twoTo_pos 52).ne'] at h
  simp only [above, and_self, if_true] at h
  split at h
  · exact h.1
  · exact h.1.le

/-- Whatever is near enough, measured by the double itself, rounds to it. -/
theorem roundsTo_of_near (pos : m ≠ 0) (bits : m < twoTo 53)
    (near : |q - m * 2 ^ e| * 2 ^ 54 < m * 2 ^ e) : RoundsTo m e q := by
  have unit : (0 : ℚ) < 2 ^ e := zpow_pos two_pos e
  have fits : (m : ℚ) < 2 ^ 53 := by
    have cast : (m : ℚ) < (twoTo 53 : Nat) := by exact_mod_cast bits
    rwa [cast_twoTo] at cast
  have half : |q - m * 2 ^ e| < 1 / 2 * 2 ^ e := by nlinarith
  have quarter : m = twoTo 52 → |q - m * 2 ^ e| < 1 / 4 * 2 ^ e := by
    intro power
    have cast : (m : ℚ) = 2 ^ 52 := by rw [power, cast_twoTo]
    generalize |q - m * 2 ^ e| = gap at near ⊢
    rw [cast] at near
    linarith
  rw [abs_lt] at half quarter
  rw [roundsTo_iff pos]
  simp only
  have high : q < ((m : ℚ) + 1 / 2) * 2 ^ e := by linarith [half.2]
  have low : (if m = twoTo 52 ∧ -1074 < e then (m : ℚ) - 1 / 4 else m - 1 / 2) * 2 ^ e < q := by
    split
    next power => linarith [(quarter power.1).1]
    next => linarith [half.1]
  split
  · exact ⟨low.le, high.le⟩
  · exact ⟨low, high⟩

theorem two_zpow_add (e k : Int) : (2 : ℚ) ^ (e + k) = 2 ^ k * 2 ^ e := by
  rw [← zpow_add₀ two_ne_zero, add_comm]

/-- What rounds to a mantissa of 53 bits is below the next power of two. -/
theorem RoundsTo.lt_top (h : RoundsTo m e q) (pos : m ≠ 0) (bits : m < twoTo 53) :
    q < 2 ^ (e + 53) := by
  have unit : (0 : ℚ) < 2 ^ e := zpow_pos two_pos e
  have cast : ((m + 1 : Nat) : ℚ) ≤ (twoTo 53 : Nat) := by exact_mod_cast bits
  rw [cast_twoTo, Nat.cast_add, Nat.cast_one] at cast
  rw [two_zpow_add]
  have : (2 : ℚ) ^ (53 : Int) = 2 ^ 53 := rfl
  nlinarith [h.high pos]

/-- Only what rounds to a power of two can be below that power. -/
theorem RoundsTo.eq_twoTo (h : RoundsTo m e q) (pos : m ≠ 0) (normal : twoTo 52 ≤ m)
    (below : q < 2 ^ (e + 52)) : m = twoTo 52 := by
  rcases Nat.lt_or_eq_of_le normal with more | same
  · have unit : (0 : ℚ) < 2 ^ e := zpow_pos two_pos e
    have cast : ((twoTo 52 + 1 : Nat) : ℚ) ≤ m := by exact_mod_cast more
    rw [Nat.cast_add, cast_twoTo, Nat.cast_one] at cast
    rw [two_zpow_add] at below
    have : (2 : ℚ) ^ (52 : Int) = 2 ^ 52 := rfl
    nlinarith [h.low pos]
  · exact same.symm

/-- The exponent of what rounds to a double is that of the double, or one less just below a
power of two. -/
theorem Exponent.of_rounds {f : Int} (h : Exponent q f)
    (canonical : (finite negative m e).Canonical) (pos : m ≠ 0) (rounds : RoundsTo m e q) :
    f = e ∨ f + 1 = e ∧ m = twoTo 52 ∧ -1074 < e := by
  obtain ⟨bits, least, -, full⟩ := canonical
  have notAbove : f ≤ e := by
    rcases h.full with rfl | full'
    · exact least
    · have := lt_of_two_zpow_lt (full'.trans_lt (rounds.lt_top pos bits))
      omega
  rcases Int.lt_or_eq_of_le notAbove with less | same
  · have above : -1074 < e := lt_of_le_of_lt h.least less
    have normal : twoTo 52 ≤ m := full.resolve_right (by omega)
    have below : q < 2 ^ (e + 52) := h.below.trans_le (two_zpow_le (by omega))
    have power := rounds.eq_twoTo pos normal below
    subst power
    refine .inr ⟨?_, rfl, above⟩
    have beyond : (2 : ℚ) ^ (e + 51) < 2 ^ (f + 53) := by
      have unit : (0 : ℚ) < 2 ^ e := zpow_pos two_pos e
      refine lt_of_le_of_lt ?_ ((rounds.power above).trans_lt h.below)
      rw [two_zpow_add, cast_twoTo]
      have : (2 : ℚ) ^ (51 : Int) = 2 ^ 51 := rfl
      nlinarith
    have := lt_of_two_zpow_lt beyond
    omega
  · exact .inl same

theorem nearest_of_rounds (canonical : (finite negative m e).Canonical) (pos : m ≠ 0)
    (hn : num ≠ 0) (hd : den ≠ 0) (rounds : RoundsTo m e (num / den)) :
    nearest negative num den = finite negative m e := by
  have spec := exponentFor_spec hn hd
  have unit : (0 : ℚ) < 2 ^ e := zpow_pos two_pos e
  have scaled := scale_eq num den
  have scalePos := scale_pos num (Nat.pos_of_ne_zero hd)
  obtain ⟨bits, least, most, full⟩ := id canonical
  simp only [nearest, hn, if_false]
  rcases spec.of_rounds canonical pos rounds with same | ⟨less, power, above⟩
  · have mantissa : roundDiv (scale num den e).1 (scale num den e).2 = m := by
      refine roundDiv_eq (scalePos e) ?_ ?_ ?_
      · rw [scaled, le_div_iff₀ unit]
        exact rounds.low pos
      · rw [scaled, div_le_iff₀ unit]
        exact rounds.high pos
      · rw [scaled, lt_div_iff₀ unit, div_lt_iff₀ unit]
        exact rounds.odd
    rw [same, mantissa, if_neg bits.ne, if_neg (not_lt.mpr most)]
  · have half : (2 : ℚ) ^ e = 2 * 2 ^ exponentFor num den := by
      rw [← less, zpow_add_one₀ two_ne_zero, mul_comm]
    have unit' : (0 : ℚ) < 2 ^ exponentFor num den := zpow_pos two_pos _
    have mantissa : roundDiv (scale num den (exponentFor num den)).1
        (scale num den (exponentFor num den)).2 = twoTo 53 := by
      subst power
      refine roundDiv_eq (scalePos _) ?_ ?_ fun odd => absurd odd (by decide +kernel)
      · rw [scaled, le_div_iff₀ unit', cast_twoTo]
        have := rounds.power above
        rw [half, cast_twoTo] at this
        linarith
      · rw [scaled, div_le_iff₀ unit', cast_twoTo]
        have := spec.below
        rw [zpow_add₀ two_ne_zero] at this
        have : (2 : ℚ) ^ (53 : Int) = 2 ^ 53 := rfl
        nlinarith
    rw [mantissa, if_pos rfl, if_neg (by omega), less, power]

/-- Rounding yields canonical doubles. -/
theorem canonical_nearest (negative : Bool) (num den : Nat) (hd : den ≠ 0) :
    (nearest negative num den).Canonical := by
  simp only [nearest]
  split
  · exact ⟨twoTo_pos 53, by decide, by decide, .inr rfl⟩
  next hn =>
    have spec := exponentFor_spec hn hd
    generalize exponentFor num den = f at spec
    have below : (scale num den f).1 / (scale num den f).2 < twoTo 53 := by
      rw [← not_le, twoTo_le_scale hd]
      exact not_le.mpr spec.below
    have most := roundDiv_le_succ (scale num den f).1 (scale num den f).2
    have least := div_le_roundDiv (scale num den f).1 (scale num den f).2
    split
    · split
      · trivial
      · exact ⟨by decide +kernel, by have := spec.least; omega, by omega, .inl (Nat.le_refl _)⟩
    · split
      · trivial
      · refine ⟨by omega, spec.least, by omega, ?_⟩
        rcases spec.full with subnormal | normal
        · exact .inr subnormal
        · exact .inl (((twoTo_le_scale hd 52).mpr normal).trans least)

theorem decimalLength_pos (n : Nat) : 0 < decimalLength n := Nat.length_toDigits_pos

theorem lt_ten_zpow_length (n : Nat) : (n : ℚ) < 10 ^ (decimalLength n : Int) := by
  have bound : n < 10 ^ decimalLength n := Numeral.lt_tenTo_length n
  exact_mod_cast bound

theorem ten_zpow_length_le {n : Nat} (h : n ≠ 0) : (10 : ℚ) ^ ((decimalLength n : Int) - 1) ≤ n := by
  have bound : 10 ^ (decimalLength n - 1) ≤ n := Numeral.tenTo_length_le h
  have cast : ((decimalLength n : Int) - 1) = ((decimalLength n - 1 : Nat) : Int) := by
    have := decimalLength_pos n
    omega
  rw [cast]
  exact_mod_cast bound

theorem lt_of_ten_zpow_lt {a b : Int} (h : (10 : ℚ) ^ a < 10 ^ b) : a < b :=
  (zpow_lt_zpow_iff_right₀ (by norm_num)).mp h

/-- What rounds to a double is far from where decimals are decided by their length. -/
theorem RoundsTo.range (h : RoundsTo m e q) (canonical : (finite negative m e).Canonical)
    (pos : m ≠ 0) : (10 : ℚ) ^ (-399 : Int) < q ∧ q < 10 ^ (399 : Int) := by
  obtain ⟨bits, least, most, -⟩ := canonical
  have power : (2 : ℚ) ^ (1079 : Int) < 10 ^ (399 : Int) := by
    have bound : 2 ^ 1079 < 10 ^ 399 := by decide +kernel
    exact_mod_cast bound
  have some : (1 : ℚ) ≤ m := by exact_mod_cast Nat.one_le_iff_ne_zero.mpr pos
  have fits : (m : ℚ) + 1 ≤ 2 ^ (53 : Int) := by
    have cast : ((m + 1 : Nat) : ℚ) ≤ (twoTo 53 : Nat) := by exact_mod_cast bits
    rwa [cast_twoTo, Nat.cast_add, Nat.cast_one] at cast
  have unit : (0 : ℚ) < 2 ^ e := zpow_pos two_pos e
  constructor
  · calc (10 : ℚ) ^ (-399 : Int) = ((10 : ℚ) ^ (399 : Int))⁻¹ := zpow_neg _ _
      _ < ((2 : ℚ) ^ (1079 : Int))⁻¹ := inv_strictAnti₀ (zpow_pos two_pos _) power
      _ = 2 ^ (-1079 : Int) := (zpow_neg _ _).symm
      _ ≤ 2 ^ (e - 1) := two_zpow_le (by omega)
      _ = 1 / 2 * 2 ^ e := by
          rw [zpow_sub_one₀ two_ne_zero]
          ring
      _ ≤ (m - 1 / 2) * 2 ^ e := mul_le_mul_of_nonneg_right (by linarith) unit.le
      _ ≤ q := h.low pos
  · calc q ≤ (m + 1 / 2) * 2 ^ e := h.high pos
      _ ≤ 2 ^ (53 : Int) * 2 ^ e := mul_le_mul_of_nonneg_right (by linarith) unit.le
      _ = 2 ^ (53 + e) := (zpow_add₀ two_ne_zero _ _).symm
      _ ≤ 2 ^ (1079 : Int) := two_zpow_le (by omega)
      _ < 10 ^ (399 : Int) := power

theorem ofDecimal_of_rounds {digits : Nat} {exponent : Int}
    (canonical : (finite negative m e).Canonical) (pos : m ≠ 0)
    (rounds : RoundsTo m e (digits * 10 ^ exponent)) :
    ofDecimal negative digits exponent = finite negative m e := by
  obtain ⟨low, high⟩ := rounds.range canonical pos
  have ten : (10 : ℚ) ≠ 0 := by norm_num
  have power : (0 : ℚ) < 10 ^ exponent := zpow_pos (by norm_num) exponent
  have some : digits ≠ 0 := by
    rintro rfl
    rw [Nat.cast_zero, zero_mul] at low
    exact absurd low (not_lt.mpr (zpow_pos (by norm_num) _).le)
  have above : -399 < (decimalLength digits : Int) + exponent := by
    refine lt_of_ten_zpow_lt (low.trans ?_)
    rw [zpow_add₀ ten]
    exact mul_lt_mul_of_pos_right (lt_ten_zpow_length digits) power
  have below : (decimalLength digits : Int) - 1 + exponent < 399 := by
    refine lt_of_ten_zpow_lt (lt_of_le_of_lt ?_ high)
    rw [zpow_add₀ ten]
    exact mul_le_mul_of_nonneg_right (ten_zpow_length_le some) power.le
  rw [zpow_eq_div ten] at rounds
  simp only [ofDecimal, some, if_false]
  rw [if_neg (by omega), if_neg (by omega)]
  split
  next whole =>
    refine nearest_of_rounds canonical pos (Nat.mul_ne_zero some (tenTo_pos _).ne')
      Nat.one_ne_zero ?_
    have none : (-exponent).toNat = 0 := by omega
    rw [none, pow_zero, div_one, ← cast_tenTo] at rounds
    rwa [Nat.cast_one, div_one, Nat.cast_mul]
  next part =>
    refine nearest_of_rounds canonical pos some (tenTo_pos _).ne' ?_
    have none : exponent.toNat = 0 := by omega
    rw [none, pow_zero, mul_one_div, ← cast_tenTo] at rounds
    exact rounds

theorem canonical_ofDecimal (negative : Bool) (digits : Nat) (exponent : Int) :
    (ofDecimal negative digits exponent).Canonical := by
  simp only [ofDecimal]
  split
  · exact ⟨twoTo_pos 53, by decide, by decide, .inr rfl⟩
  split
  · trivial
  split
  · exact ⟨twoTo_pos 53, by decide, by decide, .inr rfl⟩
  split
  · exact canonical_nearest _ _ _ Nat.one_ne_zero
  · exact canonical_nearest _ _ _ (tenTo_pos _).ne'

end Binary64

end ClientRegistry
