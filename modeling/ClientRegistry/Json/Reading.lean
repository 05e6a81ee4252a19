import ClientRegistry.Number.Numeral
import ClientRegistry.Value.Basic

/-! Strict JSON, with the three names of numbers that are not finite. Of a repeated key the
first place and the last value count. Containers that hold something may be nested 200 deep. -/

namespace ClientRegistry.Json

def isSpace (c : Char) : Bool :=
  c == ' ' || c == '\t' || c == '\n' || c == '\r'

def skipSpace (cs : List Char) : List Char :=
  cs.dropWhile isSpace

def expect : List Char → List Char → Option (List Char)
  | [], cs => some cs
  | e :: es, c :: cs => if e = c then expect es cs else none
  | _ :: _, [] => none

/-- The code unit of four hexadecimal digits. -/
def unit? (a b c d : Char) : Option Nat := do
  let w ← Numeral.hexValue? a
  let x ← Numeral.hexValue? b
  let y ← Numeral.hexValue? c
  let z ← Numeral.hexValue? d
  some (w * 4096 + x * 256 + y * 16 + z)

def shortEscape? (c : Char) : Option Char :=
  if c = '"' ∨ c = '\\' ∨ c = '/' then some c
  else if c = 'b' then some (Char.ofNat 8)
  else if c = 'f' then some (Char.ofNat 12)
  else if c = 'n' then some '\n'
  else if c = 'r' then some '\r'
  else if c = 't' then some '\t'
  else none

def isHighUnit (n : Nat) : Bool := 0xD800 ≤ n && n < 0xDC00
def isLowUnit (n : Nat) : Bool := 0xDC00 ≤ n && n < 0xE000

/-- The characters of a text up to its closing quote. Two halves of a surrogate pair make one
character, and a half alone is refused. -/
def readChars : List Char → Option (List Char × List Char)
  | [] => none
  | '"' :: rest => some ([], rest)
  | '\\' :: 'u' :: a :: b :: c :: d :: rest =>
    match unit? a b c d with
    | none => none
    | some high =>
      if isHighUnit high then
        match rest with
        | '\\' :: 'u' :: a' :: b' :: c' :: d' :: rest' =>
          match unit? a' b' c' d' with
          | none => none
          | some low =>
            if isLowUnit low then
              (readChars rest').map fun (cs, r) =>
                (Char.ofNat (0x10000 + (high - 0xD800) * 0x400 + (low - 0xDC00)) :: cs, r)
            else none
        | _ => none
      else if isLowUnit high then none
      else (readChars rest).map fun (cs, r) => (Char.ofNat high :: cs, r)
  | '\\' :: c :: rest =>
    match shortEscape? c with
    | some e => (readChars rest).map fun (cs, r) => (e :: cs, r)
    | none => none
  | c :: rest =>
    if c.toNat < 0x20 ∨ c = '\\' then none
    else (readChars rest).map fun (cs, r) => (c :: cs, r)

/-- Digits without a needless zero in front. -/
def readWhole (cs : List Char) : Option (List Char × List Char) :=
  let (ds, rest) := Numeral.takeDigits cs
  if ds.isEmpty || (ds.head? == some '0' && 1 < ds.length) then none else some (ds, rest)

/-- The digits after a point, of which there is at least one; none without a point. -/
def readFraction : List Char → Option (List Char × List Char)
  | '.' :: rest =>
    let (ds, rest) := Numeral.takeDigits rest
    if ds.isEmpty then none else some (ds, rest)
  | cs => some ([], cs)

/-- The most characters before point and exponent, the sign included. -/
def mostDigits : Nat := 4300

/-- A number is an integer unless it has a fraction or an exponent. -/
def readNumber (negative : Bool) (cs : List Char) : Option (Value × List Char) := do
  let (whole, cs) ← readWhole cs
  if mostDigits < whole.length + negative.toNat then none
  let (fraction, cs) ← readFraction cs
  let (exponent, cs) ← Numeral.takeExponent cs
  match fraction, exponent with
  | [], none => some (.int (Binary64.negated negative (Numeral.value whole)), cs)
  | _, _ => some (.real (Numeral.toReal negative whole fraction (exponent.getD 0)), cs)

/-- Values without parts. A not-a-number is read with the mark zero. -/
def readLeaf : List Char → Option (Value × List Char)
  | 'n' :: rest => (expect ['u', 'l', 'l'] rest).map (Value.null, ·)
  | 't' :: rest => (expect ['r', 'u', 'e'] rest).map (Value.bool true, ·)
  | 'f' :: rest => (expect ['a', 'l', 's', 'e'] rest).map (Value.bool false, ·)
  | 'N' :: rest => (expect ['a', 'N'] rest).map (Value.real (.nan 0), ·)
  | 'I' :: rest => (expect "nfinity".toList rest).map (Value.real (.infinite false), ·)
  | '-' :: 'I' :: rest => (expect "nfinity".toList rest).map (Value.real (.infinite true), ·)
  | '"' :: rest => (readChars rest).map fun (cs, r) => (.text (String.ofList cs), r)
  | '-' :: rest => readNumber true rest
  | cs => readNumber false cs

/-- How deep non-empty containers may be nested. -/
def mostNested : Nat := 200

mutual

/-- A value, with `room` levels of containers left. The fuel bounds the characters read. -/
def readValue : (fuel room : Nat) → List Char → Option (Value × List Char)
  | 0, _, _ => none
  | fuel + 1, room, cs =>
    match skipSpace cs with
    | '[' :: rest =>
      match skipSpace rest with
      | ']' :: rest' => some (.list [], rest')
      | rest' =>
        if room = 0 then none
        else (readItems fuel (room - 1) rest').map fun (xs, r) => (.list xs, r)
    | '{' :: rest =>
      match skipSpace rest with
      | '}' :: rest' => some (.dict [], rest')
      | rest' =>
        if room = 0 then none
        else (readMembers fuel (room - 1) rest').map fun (es, r) => (.dict (Entries.ofList es), r)
    | rest => readLeaf rest

def readItems : (fuel room : Nat) → List Char → Option (List Value × List Char)
  | 0, _, _ => none
  | fuel + 1, room, cs =>
    match readValue fuel room cs with
    | none => none
    | some (x, rest) =>
      match skipSpace rest with
      | ',' :: rest' => (readItems fuel room rest').map fun (xs, r) => (x :: xs, r)
      | ']' :: rest' => some ([x], rest')
      | _ => none

def readMembers : (fuel room : Nat) → List Char → Option (List (Value × Value) × List Char)
  | 0, _, _ => none
  | fuel + 1, room, cs =>
    match skipSpace cs with
    | '"' :: rest =>
      match readChars rest with
      | none => none
      | some (key, rest) =>
        match skipSpace rest with
        | ':' :: rest =>
          match readValue fuel room rest with
          | none => none
          | some (v, rest) =>
            let member := (Value.text (String.ofList key), v)
            match skipSpace rest with
            | ',' :: rest' => (readMembers fuel room rest').map fun (es, r) => (member :: es, r)
            | '}' :: rest' => some ([member], rest')
            | _ => none
        | _ => none
    | _ => none

end

def read? (cs : List Char) : Option Value :=
  match readValue (2 * cs.length + 2) mostNested cs with
  | some (v, rest) => if (skipSpace rest).isEmpty then some v else none
  | none => none

end ClientRegistry.Json
