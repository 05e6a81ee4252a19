import ClientRegistry.Number.Shortest

/-! Numbers with a given count of places: positional, with an exponent, or whichever is shorter.
All round the exact value to the nearest, a tie to the even digit. -/

namespace ClientRegistry.FixedPlaces

/-- A text of digits with a point in front of the last `places`. -/
def pointed (keepPoint : Bool) (places n : Nat) : List Char :=
  let ds := RealLayout.padLeft (places + 1) (RealLayout.digitChars n)
  let whole := ds.take (ds.length - places)
  if places = 0 then (if keepPoint then whole ++ ['.'] else whole)
  else whole ++ '.' :: ds.drop (ds.length - places)

/-- Positional, with `places` digits after the point. -/
def positional (keepPoint : Bool) (places num den : Nat) : List Char :=
  pointed keepPoint places (Binary64.roundDiv (num * tenTo places) den)

/-- The rounded digits, `places` after the first, and the exponent of the first. -/
def scientificDigits (places num den : Nat) : Nat × Int :=
  if num = 0 then (0, 0)
  else
    let e := ShortDecimal.pointOf num den - 1
    let shift := (places : Int) - e
    let n := Binary64.roundDiv (num * tenTo shift.toNat) (den * tenTo (-shift).toNat)
    if n = tenTo (places + 1) then (tenTo places, e + 1) else (n, e)

/-- One digit before the point and an exponent of at least two digits. -/
def scientific (keepPoint : Bool) (places num den : Nat) : List Char :=
  let (n, e) := scientificDigits places num den
  pointed keepPoint places n ++ 'e' :: RealLayout.exponentText 2 e

/-- A fraction without the zeros at its end. -/
def trimZeros (cs : List Char) : List Char :=
  if cs.contains '.' then
    ((cs.reverse.dropWhile (· == '0')).dropWhile (· == '.')).reverse
  else cs

/-- With `digits` significant digits, positional for exponents from -4 to below that count.
Zeros at the end of the fraction are kept on demand only. -/
def general (keepZeros : Bool) (digits num den : Nat) : List Char :=
  let digits := max digits 1
  let (n, e) := scientificDigits (digits - 1) num den
  let trim := fun cs => if keepZeros then cs else trimZeros cs
  if -4 ≤ e ∧ e < digits then trim (positional keepZeros ((digits : Int) - 1 - e).toNat num den)
  else trim (pointed keepZeros (digits - 1) n) ++ 'e' :: RealLayout.exponentText 2 e

end ClientRegistry.FixedPlaces
