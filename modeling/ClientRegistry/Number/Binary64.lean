import ClientRegistry.Number.Powers

/-! Doubles as exact numbers: a sign, a mantissa and a power of two. Rounding to the nearest
double is one division of naturals with a tie rule; no machine arithmetic takes part. -/

namespace ClientRegistry

/-- A finite double is `± mant · 2^exp`; `Binary64.Canonical` says which pairs are used. Each
not-a-number carries a mark, which tells it from every other one. -/
inductive Binary64 where
  | finite (negative : Bool) (mant : Nat) (exp : Int)
  | infinite (negative : Bool)
  | nan (mark : Nat)
  deriving DecidableEq, Inhabited

namespace Binary64

/-- Mantissas have at most 53 bits, and all 53 unless the exponent is the least one. -/
def Canonical : Binary64 → Prop
  | finite _ m e => m < twoTo 53 ∧ -1074 ≤ e ∧ e ≤ 971 ∧ (twoTo 52 ≤ m ∨ e = -1074)
  | _ => True

def zero : Binary64 := finite false 0 (-1074)

/-- The quotient nearest to `num / den`; a tie goes to the even one. -/
def roundDiv (num den : Nat) : Nat :=
  let q := num / den
  let twice := 2 * (num % den)
  if den < twice || (twice == den && q % 2 == 1) then q + 1 else q

/-- The fraction `num / den` divided by `2^e`, again as a fraction. -/
def scale (num den : Nat) (e : Int) : Nat × Nat :=
  if 0 ≤ e then (num, den * twoTo e.toNat) else (num * twoTo (-e).toNat, den)

/-- The exponent at which the mantissa of `num / den` has 53 bits, or the least exponent. -/
def exponentFor (num den : Nat) : Int :=
  let low := max ((num.log2 : Int) - den.log2 - 53) (-1074)
  let s := scale num den low
  if twoTo 53 ≤ s.1 / s.2 then low + 1 else low

/-- The double nearest to `± num / den`; overflow goes to infinity. -/
def nearest (negative : Bool) (num den : Nat) : Binary64 :=
  if num = 0 then finite negative 0 (-1074)
  else
    let e := exponentFor num den
    let s := scale num den e
    let m := roundDiv s.1 s.2
    if m = twoTo 53 then
      if 971 ≤ e then infinite negative else finite negative (twoTo 52) (e + 1)
    else if 971 < e then infinite negative
    else finite negative m e

/-- The number of decimal digits; zero has one. -/
def decimalLength (n : Nat) : Nat :=
  (Nat.toDigits 10 n).length

/-- The double nearest to `± digits · 10^exponent`. Exponents far outside the range of doubles
are decided by the count of digits alone. -/
def ofDecimal (negative : Bool) (digits : Nat) (exponent : Int) : Binary64 :=
  if digits = 0 then finite negative 0 (-1074)
  else
    let size := (decimalLength digits : Int) + exponent
    if 400 < size then infinite negative
    else if size < -400 then finite negative 0 (-1074)
    else if 0 ≤ exponent then nearest negative (digits * tenTo exponent.toNat) 1
    else nearest negative digits (tenTo (-exponent).toNat)

/-- The magnitude of `mant · 2^exp` as a fraction. -/
def fraction (mant : Nat) (exp : Int) : Nat × Nat :=
  if 0 ≤ exp then (mant * twoTo exp.toNat, 1) else (mant, twoTo (-exp).toNat)

def ofInt (n : Int) : Binary64 :=
  nearest (n < 0) n.natAbs 1

def negated (negative : Bool) (n : Nat) : Int :=
  if negative then -(n : Int) else n

/-- The greatest integer not above a finite double. -/
def floor? : Binary64 → Option Int
  | finite negative m e =>
    let (n, d) := fraction m e
    some ((negated negative n) / (d : Int))
  | _ => none

/-- The integer part of a finite double, toward zero. -/
def truncate? : Binary64 → Option Int
  | finite negative m e =>
    let (n, d) := fraction m e
    some (negated negative (n / d))
  | _ => none

def equalsInt : Binary64 → Int → Bool
  | finite negative m e, i =>
    let (n, d) := fraction m e
    negated negative n == i * (d : Int)
  | _, _ => false

/-- Zeros of either sign are the same, and a not-a-number is the same as itself only. -/
def same : Binary64 → Binary64 → Bool
  | finite s m e, finite t n f => (m == 0 && n == 0) || (s == t && m == n && e == f)
  | infinite s, infinite t => s == t
  | nan a, nan b => a == b
  | _, _ => false

def isZero : Binary64 → Bool
  | finite _ m _ => m == 0
  | _ => false

def isNaN : Binary64 → Bool
  | nan _ => true
  | _ => false

end Binary64

end ClientRegistry
