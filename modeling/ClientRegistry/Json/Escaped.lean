import ClientRegistry.Json.Written
import ClientRegistry.Text.CodePoint

/-! Values as JSON in ASCII: spaced, with every other code point escaped by its UTF-16 units.
What JSON has no form for is written as the text that displays it. -/

namespace ClientRegistry.Json.Escaped

/-- The UTF-16 units of a code point as escapes; half a pair is a unit of its own. -/
def unitEscapes (n : Nat) : List Char :=
  let unit := fun u => '\\' :: 'u' :: Text.hexDigits 4 u
  if n < 0x10000 then unit n
  else unit (0xD800 + (n - 0x10000) / 0x400) ++ unit (0xDC00 + (n - 0x10000) % 0x400)

def escapePoint (p : Text.CodePoint) : List Char :=
  if p.val < 0x7F then Json.escapeChar (Char.ofNat p.val) else unitEscapes p.val

def writePoints (ps : List Text.CodePoint) : List Char :=
  '"' :: ps.flatMap escapePoint ++ ['"']

def writeText (cs : List Char) : List Char :=
  writePoints (Text.points cs)

/-- Not-a-numbers and infinities have names. -/
def realText : Binary64 → List Char
  | .nan _ => "NaN".toList
  | .infinite negative => if negative then "-Infinity".toList else "Infinity".toList
  | x => x.write .quoted

/-- Keys are texts, numbers, booleans or null. -/
def keyText? : Value → Option (List Char)
  | .text s => some s.toList
  | .real x => some (realText x)
  | .bool b => some (Json.writeBool b)
  | .null => some ['n', 'u', 'l', 'l']
  | .int n => some (Printed.intChars n)
  | _ => none

mutual

def write? : Value → Option (List Char)
  | .null => some ['n', 'u', 'l', 'l']
  | .bool b => some (Json.writeBool b)
  | .int n => some (Printed.intChars n)
  | .real x => some (realText x)
  | .text s => some (writeText s.toList)
  | .list xs => (writeList? xs).map fun parts => '[' :: Printed.commaSeparated parts ++ [']']
  | .tuple xs => (writeList? xs).map fun parts => '[' :: Printed.commaSeparated parts ++ [']']
  | .dict es => (writeEntries? es).map fun parts => '{' :: Printed.commaSeparated parts ++ ['}']
  | v => some (writeText v.displayed)

def writeList? : List Value → Option (List (List Char))
  | [] => some []
  | x :: xs => match write? x, writeList? xs with
    | some t, some ts => some (t :: ts)
    | _, _ => none

def writeEntries? : List (Value × Value) → Option (List (List Char))
  | [] => some []
  | (k, v) :: es => match keyText? k, write? v, writeEntries? es with
    | some t, some u, some us => some ((writeText t ++ ':' :: ' ' :: u) :: us)
    | _, _, _ => none

end

end ClientRegistry.Json.Escaped
