import ClientRegistry.Text.CodePoint

/-! White space in the sense of Unicode, with the four information separators, and the removal
of it from both ends of a text. -/

namespace ClientRegistry.Text

/-- White space points, the information separators U+001C to U+001F included. -/
def blankRanges : List (Nat × Nat) := [
  (0x9, 0xD), (0x1C, 0x20), (0x85, 0x85), (0xA0, 0xA0), (0x1680, 0x1680), (0x2000, 0x200A),
  (0x2028, 0x2029), (0x202F, 0x202F), (0x205F, 0x205F), (0x3000, 0x3000)]

/-- A blank character carries no visible mark and may pad a configured text. -/
def isBlank (c : Char) : Bool :=
  covers blankRanges c.toNat

def dropBlanks (cs : List Char) : List Char :=
  cs.dropWhile isBlank

def trimBlanks (cs : List Char) : List Char :=
  (dropBlanks (dropBlanks cs).reverse).reverse

end ClientRegistry.Text
