import ClientRegistry.Number.Numeral
import ClientRegistry.Text.Blank
import ClientRegistry.Text.Digit

/-! Integers as people write them: padding, a sign, and decimal digits of any script, which single
low lines may group. Only so many digits are read. -/

namespace ClientRegistry.Integer

/-- Why a text is no integer: it is not of the form, or it has too many digits. -/
inductive Flaw where
  | malformed
  | tooLong (digits : Nat)
  deriving DecidableEq

def longest : Nat := 4300

/-- A character in its ASCII form: a digit of any script is the digit of the same number, and a
blank outside ASCII is a space. -/
def plainChar (c : Char) : Char :=
  if c.toNat < 0x80 then c
  else match Text.digit? c with
    | some n => Nat.digitChar n
    | none => if Text.isBlank c then ' ' else c

/-- Padding in ASCII. The information separators are not padding. -/
def isPadding (c : Char) : Bool :=
  c == ' ' || (9 ≤ c.toNat && c.toNat ≤ 13)

/-- A digit, or the mark between groups of digits. -/
def isGrouped (c : Char) : Bool :=
  Numeral.isDigit c || c == '_'

/-- Marks stand alone between two digits. -/
def wellGrouped : List Char → Bool
  | [] => true
  | ['_'] => false
  | '_' :: '_' :: _ => false
  | _ :: rest => wellGrouped rest

/-- The number of a text without padding in front; its sign was taken already. -/
def ofUnsigned (cs : List Char) : Except Flaw Nat :=
  let group := cs.takeWhile isGrouped
  let digits := group.filter Numeral.isDigit
  if group.isEmpty || group.head? == some '_' || !wellGrouped group then .error .malformed
  else if longest < digits.length then .error (.tooLong digits.length)
  else if (cs.drop group.length).all isPadding then .ok (Numeral.value digits)
  else .error .malformed

def ofText (cs : List Char) : Except Flaw Int :=
  let (negative, rest) := Numeral.takeSign ((cs.map plainChar).dropWhile isPadding)
  (ofUnsigned rest).map fun n => Binary64.negated negative n

example : ofText [' ', '-', '1', '_', '0', ' '] = .ok (-10) := by rfl
example : ofText ['1', '_', '_', '0'] = .error .malformed := by rfl

end ClientRegistry.Integer
