import ClientRegistry.Fault

/-! Values as JSON: compact, with characters outside ASCII as they are. Sets and tuples are
written as arrays; a key that is no text is written as its text. -/

namespace ClientRegistry.Json

/-- Control characters, quotes and backslashes are escaped, with a short form where there is
one. -/
def escapeChar (c : Char) : List Char :=
  if c = '"' then ['\\', '"']
  else if c = '\\' then ['\\', '\\']
  else if c.toNat = 8 then ['\\', 'b']
  else if c = '\t' then ['\\', 't']
  else if c = '\n' then ['\\', 'n']
  else if c.toNat = 12 then ['\\', 'f']
  else if c = '\r' then ['\\', 'r']
  else if c.toNat < 0x20 then '\\' :: 'u' :: Text.hexDigits 4 c.toNat
  else [c]

def writeText (cs : List Char) : List Char :=
  '"' :: cs.flatMap escapeChar ++ ['"']

/-- Infinities and not-a-numbers have no JSON number and are written as null. -/
def writeReal : Binary64 → List Char
  | .finite negative m e => (Binary64.finite negative m e).write .json
  | _ => ['n', 'u', 'l', 'l']

def writeBool (b : Bool) : List Char :=
  if b then ['t', 'r', 'u', 'e'] else ['f', 'a', 'l', 's', 'e']

/-- The text that a byte string encodes. -/
def utf8? (bs : List UInt8) : Option (List Char) :=
  (String.fromUTF8? ⟨bs.toArray⟩).map String.toList

/-- A token is an object with its name. -/
def writeToken (name : List Char) : List Char :=
  "\x7b\"value\":".toList ++ name ++ ['}']

mutual

/-- How many values stand one inside the other; keys do not count. -/
def depth : Value → Nat
  | .token _ name => depth name + 1
  | .list xs => depthList xs + 1
  | .tuple xs => depthList xs + 1
  | .set xs => depthList xs + 1
  | .frozen xs => depthList xs + 1
  | .dict es => depthEntries es + 1
  | .bag _ es => depthEntries es + 1
  | _ => 1

def depthList : List Value → Nat
  | [] => 0
  | x :: xs => max (depth x) (depthList xs)

def depthEntries : List (Value × Value) → Nat
  | [] => 0
  | (_, v) :: es => max (depth v) (depthEntries es)

end

/-- The greatest depth of a value that a field contains. -/
def deepest : Nat := 255

def separated : List (List Char) → List Char
  | [] => []
  | [x] => x
  | x :: rest => x ++ ',' :: separated rest

/-- The text of a number as a key; one that is not finite has the text of null. -/
def realKey : Binary64 → List Char
  | .finite negative m e => (Binary64.finite negative m e).write .quoted
  | _ => Printed.nullText

mutual

def keyText : Value → Except Fault (List Char)
  | .null => .ok Printed.nullText
  | .bool b => .ok (writeBool b)
  | .int n => .ok (Printed.intChars n)
  | .real x => .ok (realKey x)
  | .text s => .ok s.toList
  | .bytes bs => match utf8? bs with
    | some cs => .ok cs
    | none => .error .notWritable
  | .moment m => .ok m.snapshotText
  | .token _ (.text s) => .ok s.toList
  | .tuple xs => match keyTexts xs with
    | .ok parts => .ok (separated parts)
    | .error e => .error e
  | _ => .error .notWritable

def keyTexts : List Value → Except Fault (List (List Char))
  | [] => .ok []
  | x :: xs => match keyText x, keyTexts xs with
    | .ok t, .ok ts => .ok (t :: ts)
    | .error e, _ => .error e
    | _, .error e => .error e

end

mutual

/-- The JSON text of a value. Bags have none. -/
def write : Value → Except Fault (List Char)
  | .null => .ok ['n', 'u', 'l', 'l']
  | .bool b => .ok (writeBool b)
  | .int n => .ok (Printed.intChars n)
  | .real x => .ok (writeReal x)
  | .text s => .ok (writeText s.toList)
  | .bytes bs => match utf8? bs with
    | some cs => .ok (writeText cs)
    | none => .error .notWritable
  | .moment m => .ok (writeText m.snapshotText)
  | .token _ name => match write name with
    | .ok t => .ok (writeToken t)
    | .error e => .error e
  | .bag _ _ => .error .notWritable
  | .list xs => writeArray xs
  | .tuple xs => writeArray xs
  | .set xs => writeArray xs
  | .frozen xs => writeArray xs
  | .dict es => match writeEntries es with
    | .ok parts => .ok ('{' :: separated parts ++ ['}'])
    | .error e => .error e

def writeArray (xs : List Value) : Except Fault (List Char) :=
  match writeList xs with
  | .ok parts => .ok ('[' :: separated parts ++ [']'])
  | .error e => .error e

def writeList : List Value → Except Fault (List (List Char))
  | [] => .ok []
  | x :: xs => match write x, writeList xs with
    | .ok t, .ok ts => .ok (t :: ts)
    | .error e, _ => .error e
    | _, .error e => .error e

def writeEntries : List (Value × Value) → Except Fault (List (List Char))
  | [] => .ok []
  | (k, v) :: es => match keyText k, write v, writeEntries es with
    | .ok t, .ok u, .ok us => .ok ((writeText t ++ ':' :: u) :: us)
    | .error e, _, _ => .error e
    | _, .error e, _ => .error e
    | _, _, .error e => .error e

end

end ClientRegistry.Json
