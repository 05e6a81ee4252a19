import ClientRegistry.Number.Binary64

/-! The fewest decimal digits that read back as a given double, and the two layouts in which
such digits are written. -/

namespace ClientRegistry

/-- The number `0.d₁d₂… · 10^point`, whose digits are those of `digits`. -/
structure ShortDecimal where
  digits : Nat
  point : Int
  deriving DecidableEq

namespace ShortDecimal

/-- The bounds of the interval of reals that round to `mant · 2^exp`, in quarters of `2^exp`;
below a power of two the gap is half as wide. -/
def quarterBounds (mant : Nat) (exp : Int) : Nat × Nat :=
  (if mant = twoTo 52 ∧ -1074 < exp then 4 * mant - 1 else 4 * mant - 2, 4 * mant + 2)

/-- Whether `d · 10^grid` rounds to `mant · 2^exp`; the bounds count iff the mantissa is even. -/
def readsBack (mant : Nat) (exp : Int) (d : Nat) (grid : Int) : Bool :=
  let (low, high) := quarterBounds mant exp
  let two := exp - 2
  let left := d * tenTo grid.toNat * twoTo (-two).toNat
  let unit := tenTo (-grid).toNat * twoTo two.toNat
  if mant % 2 == 0 then low * unit ≤ left && left ≤ high * unit
  else low * unit < left && left < high * unit

/-- The position of the decimal point: `10^(point-1) ≤ num / den < 10^point`. -/
def pointOf (num den : Nat) : Int :=
  if den ≤ num then Binary64.decimalLength (num / den)
  else
    let q := (den + num - 1) / num
    1 - (Binary64.decimalLength (q - 1) : Int)

/-- The better of the two neighbours of `num / den` on the grid `10^grid`, if one reads back. -/
def onGrid (mant : Nat) (exp : Int) (num den : Nat) (grid : Int) : Option Nat :=
  let n := num * tenTo (-grid).toNat
  let d := den * tenTo grid.toNat
  let below := n / d
  let nearer := Binary64.roundDiv n d
  if readsBack mant exp nearer grid then some nearer
  else if readsBack mant exp below grid then some below
  else if readsBack mant exp (below + 1) grid then some (below + 1)
  else none

/-- The first count of digits, from `count` on, whose grid holds a number that reads back. -/
def search (mant : Nat) (exp : Int) (num den : Nat) (point : Int) : Nat → Nat → ShortDecimal
  | 0, count => ⟨num * tenTo (count - point).toNat / (den * tenTo (point - count).toNat), point⟩
  | fuel + 1, count =>
    match onGrid mant exp num den (point - count) with
    | some d => if d = tenTo count then ⟨1, point + 1⟩ else ⟨d, point⟩
    | none => search mant exp num den point fuel (count + 1)

/-- The shortest decimal of a positive double; seventeen digits always suffice. -/
def ofDouble (mant : Nat) (exp : Int) : ShortDecimal :=
  let (num, den) := Binary64.fraction mant exp
  search mant exp num den (pointOf num den) 17 1

end ShortDecimal

/-- How digits are laid out: which exponents of ten are written positionally, and how many
digits an exponent has at least. -/
structure RealLayout where
  least : Int
  most : Int
  exponentDigits : Nat

namespace RealLayout

/-- The layout of quoted values: positional from 0.0001 to below 10^16. -/
def quoted : RealLayout := ⟨-4, 15, 2⟩

/-- The layout of JSON numbers: positional from 0.00001 to below 10^16. -/
def json : RealLayout := ⟨-5, 15, 1⟩

def digitChars (n : Nat) : List Char :=
  Nat.toDigits 10 n

def padLeft (width : Nat) (cs : List Char) : List Char :=
  List.replicate (width - cs.length) '0' ++ cs

def exponentText (width : Nat) (e : Int) : List Char :=
  (if e < 0 then '-' else '+') :: padLeft width (digitChars e.natAbs)

/-- Digits before the point, a point, and digits after it; no side is empty. -/
def positional (ds : List Char) (point : Int) : List Char :=
  if point ≤ 0 then ['0', '.'] ++ List.replicate (-point).toNat '0' ++ ds
  else if point.toNat < ds.length then ds.take point.toNat ++ '.' :: ds.drop point.toNat
  else ds ++ List.replicate (point.toNat - ds.length) '0' ++ ['.', '0']

/-- One digit, the other digits after a point if there are any, and the exponent. -/
def scientific (layout : RealLayout) (ds : List Char) (point : Int) : List Char :=
  let mantissa := match ds with
    | [] => []
    | [d] => [d]
    | d :: rest => d :: '.' :: rest
  mantissa ++ 'e' :: exponentText layout.exponentDigits (point - 1)

def write (layout : RealLayout) (d : ShortDecimal) : List Char :=
  let ds := digitChars d.digits
  if layout.least ≤ d.point - 1 ∧ d.point - 1 ≤ layout.most then positional ds d.point
  else layout.scientific ds d.point

end RealLayout

namespace Binary64

def write (layout : RealLayout) : Binary64 → List Char
  | finite negative m e =>
    let body := if m = 0 then ['0', '.', '0'] else layout.write (ShortDecimal.ofDouble m e)
    if negative then '-' :: body else body
  | infinite negative => if negative then ['-', 'i', 'n', 'f'] else ['i', 'n', 'f']
  | nan _ => ['n', 'a', 'n']

end Binary64

end ClientRegistry
