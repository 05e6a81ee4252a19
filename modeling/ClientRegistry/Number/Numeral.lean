import ClientRegistry.Number.Binary64

/-! Decimal numerals in ASCII: runs of digits, a fraction after a point, and an exponent after a
letter. Each part is taken from the front of a text, with the rest that follows it. -/

namespace ClientRegistry.Numeral

def isDigit (c : Char) : Bool :=
  '0' ≤ c && c ≤ '9'

def hexValue? (c : Char) : Option Nat :=
  if '0' ≤ c ∧ c ≤ '9' then some (c.toNat - '0'.toNat)
  else if 'a' ≤ c ∧ c ≤ 'f' then some (c.toNat - 'a'.toNat + 10)
  else if 'A' ≤ c ∧ c ≤ 'F' then some (c.toNat - 'A'.toNat + 10)
  else none

def value (ds : List Char) : Nat :=
  ds.foldl (fun n c => 10 * n + (c.toNat - '0'.toNat)) 0

def takeDigits (cs : List Char) : List Char × List Char :=
  (cs.takeWhile isDigit, cs.dropWhile isDigit)

/-- A sign in front; whether it is a minus. -/
def takeSign : List Char → Bool × List Char
  | '-' :: rest => (true, rest)
  | '+' :: rest => (false, rest)
  | cs => (false, cs)

/-- An exponent with an optional sign; none without its letter. A letter without digits is
refused. -/
def takeExponent : List Char → Option (Option Int × List Char)
  | c :: rest =>
    if c = 'e' ∨ c = 'E' then
      let (negative, rest) := takeSign rest
      match takeDigits rest with
      | ([], _) => none
      | (ds, rest) => some (some (Binary64.negated negative (value ds)), rest)
    else some (none, c :: rest)
  | [] => some (none, [])

def toReal (negative : Bool) (whole fraction : List Char) (exponent : Int) : Binary64 :=
  Binary64.ofDecimal negative (value (whole ++ fraction)) (exponent - fraction.length)

example : value ['1', '0', '7'] = 107 := by decide

end ClientRegistry.Numeral
