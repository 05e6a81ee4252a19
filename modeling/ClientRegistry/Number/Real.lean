import ClientRegistry.Number.Integer
import ClientRegistry.Text.Lowercase

/-! Real numbers as people write them: decimal, with an exponent or none, or the name of what is
not finite. Padding, scripts and grouping are those of integers. -/

namespace ClientRegistry.Numeral

/-- Grouping marks stand alone between two digits; whether a digit came before is given. -/
def wellGrouped : Bool → List Char → Bool
  | _, [] => true
  | _, ['_'] => false
  | before, '_' :: c :: rest => before && isDigit c && wellGrouped true rest
  | _, c :: rest => wellGrouped (isDigit c) rest

/-- The names of what is not finite, in lower case. -/
def specialNames : List (List Char) :=
  ["inf".toList, "infinity".toList, "nan".toList]

/-- Digits with at most one point before or among them, and an exponent or none. -/
def isDecimal (cs : List Char) : Bool :=
  let (whole, rest) := takeDigits cs
  let (fraction, rest) := match rest with
    | '.' :: rest => takeDigits rest
    | _ => ([], rest)
  !(whole ++ fraction).isEmpty && (match takeExponent rest with
    | some (_, []) => true
    | _ => false)

def trimPadding (cs : List Char) : List Char :=
  ((cs.dropWhile Integer.isPadding).reverse.dropWhile Integer.isPadding).reverse

def isReal (cs : List Char) : Bool :=
  let body := trimPadding (cs.map Integer.plainChar)
  let unsigned := (takeSign (body.filter (· != '_'))).2
  wellGrouped false body && (isDecimal unsigned || specialNames.contains (Text.lower unsigned))

example : isReal ['-', '.', '5', 'e', '1', '_', '0'] = true := by decide +kernel
example : isReal ['1', '_', '.', '5'] = false := by decide +kernel

end ClientRegistry.Numeral
