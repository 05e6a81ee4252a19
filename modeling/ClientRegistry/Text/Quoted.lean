import ClientRegistry.Number.Shortest
import ClientRegistry.Text.Printable

/-! Quoted texts and byte strings, as messages show them: single quotes unless the text holds a
single quote and no double one, and an escape for all that is not printable. -/

namespace ClientRegistry.Text

/-- The last `width` lower-case hexadecimal digits of a number. -/
def hexDigits : Nat → Nat → List Char
  | 0, _ => []
  | width + 1, n => hexDigits width (n / 16) ++ [Nat.digitChar (n % 16)]

/-- Double quotes are chosen only where they save an escape. -/
def quoteFor (cs : List Char) : Char :=
  if cs.contains '\'' && !cs.contains '"' then '"' else '\''

/-- An escape by code point, as short as the point allows. -/
def pointEscape (n : Nat) : List Char :=
  if n < 0x100 then '\\' :: 'x' :: hexDigits 2 n
  else if n < 0x10000 then '\\' :: 'u' :: hexDigits 4 n
  else '\\' :: 'U' :: hexDigits 8 n

def escapeChar (quote c : Char) : List Char :=
  if c = quote ∨ c = '\\' then ['\\', c]
  else if c = '\n' then ['\\', 'n']
  else if c = '\r' then ['\\', 'r']
  else if c = '\t' then ['\\', 't']
  else if isPrintable c then [c]
  else pointEscape c.toNat

def quoted (cs : List Char) : List Char :=
  let quote := quoteFor cs
  quote :: cs.flatMap (escapeChar quote) ++ [quote]

/-- A byte outside printable ASCII is escaped. -/
def escapeByte (quote : Char) (b : UInt8) : List Char :=
  let c := Char.ofNat b.toNat
  if c = quote ∨ c = '\\' then ['\\', c]
  else if c = '\n' then ['\\', 'n']
  else if c = '\r' then ['\\', 'r']
  else if c = '\t' then ['\\', 't']
  else if 0x20 ≤ b ∧ b < 0x7F then [c]
  else pointEscape b.toNat

def quotedBytes (bs : List UInt8) : List Char :=
  let quote := quoteFor (bs.map fun b => Char.ofNat b.toNat)
  'b' :: quote :: bs.flatMap (escapeByte quote) ++ [quote]

example : quoted ['i', 't', '\'', 's'] = ['"', 'i', 't', '\'', 's', '"'] := by decide +kernel
example : quoted ['\n'] = ['\'', '\\', 'n', '\''] := by decide +kernel

end ClientRegistry.Text
