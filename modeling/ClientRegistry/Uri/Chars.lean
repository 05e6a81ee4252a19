import ClientRegistry.Text.Blank
import ClientRegistry.Text.Printable

/-! The characters of a redirect URI: those that RFC 3986 allows, and visible characters
outside ASCII. -/

namespace ClientRegistry.Uri

def isLetter (c : Char) : Bool :=
  ('a' ≤ c && c ≤ 'z') || ('A' ≤ c && c ≤ 'Z')

def isDigit (c : Char) : Bool :=
  '0' ≤ c && c ≤ '9'

def isHexDigit (c : Char) : Bool :=
  isDigit c || ('a' ≤ c && c ≤ 'f') || ('A' ≤ c && c ≤ 'F')

/-- Letters, digits and the four marks that never need an escape. -/
def isUnreserved (c : Char) : Bool :=
  isLetter c || isDigit c || ['-', '.', '_', '~'].contains c

def isGenDelim (c : Char) : Bool :=
  [':', '/', '?', '#', '[', ']', '@'].contains c

def isSubDelim (c : Char) : Bool :=
  ['!', '$', '&', '\'', '(', ')', '*', '+', ',', ';', '='].contains c

/-- A visible character outside ASCII; it may stand wherever an unreserved one may. -/
def isVisibleOther (c : Char) : Bool :=
  0x7F < c.toNat && Text.isPrintable c && !Text.isBlank c

def isUriChar (c : Char) : Bool :=
  isUnreserved c || isGenDelim c || isSubDelim c || c == '%' || isVisibleOther c

/-- Every percent sign begins an escape of two hexadecimal digits. -/
def escapesComplete : List Char → Bool
  | [] => true
  | '%' :: a :: b :: rest => isHexDigit a && isHexDigit b && escapesComplete (a :: b :: rest)
  | '%' :: _ => false
  | _ :: rest => escapesComplete rest

def isSchemeChar (c : Char) : Bool :=
  isLetter c || isDigit c || ['+', '-', '.'].contains c

def lowerAscii (c : Char) : Char :=
  if 'A' ≤ c ∧ c ≤ 'Z' then Char.ofNat (c.toNat + 32) else c

end ClientRegistry.Uri
