import ClientRegistry.Number.Numeral
import ClientRegistry.Text.Split
import ClientRegistry.Text.Utf8

/-! The query of a database URL: named options, each with one value or several. -/

namespace ClientRegistry.Database

/-- A piece of an escaped text: a byte, written plainly or as an escape, or a character outside
ASCII. -/
inductive Piece where
  | byte (b : Nat)
  | other (c : Char)

def plainPiece (c : Char) : Piece :=
  if c.toNat < 0x80 then .byte c.toNat else .other c

/-- The pieces of an escaped text. A percent sign without two hexadecimal digits is itself. -/
def pieces : List Char → List Piece
  | [] => []
  | '%' :: a :: b :: rest =>
    match Numeral.hexValue? a, Numeral.hexValue? b with
    | some x, some y => .byte (16 * x + y) :: pieces rest
    | _, _ => plainPiece '%' :: pieces (a :: b :: rest)
  | c :: rest => plainPiece c :: pieces rest

/-- The text of pieces after an open sequence of bytes; a character outside ASCII ends it. -/
def textFrom (opened : Option Utf8.Sequence) : List Piece → List Char
  | [] => Utf8.flush opened
  | .byte b :: rest => (Utf8.feed opened b).1 ++ textFrom (Utf8.feed opened b).2 rest
  | .other c :: rest => Utf8.flush opened ++ c :: textFrom none rest

/-- A text with its escapes replaced; a plus sign stands for a space. -/
def unescaped (cs : List Char) : List Char :=
  textFrom none (pieces (cs.map fun c => if c = '+' then ' ' else c))

/-- The options in the order of their first values. -/
structure Query where
  options : List (List Char × List (List Char))

namespace Query

def empty : Query := ⟨[]⟩

def values (q : Query) (name : String) : List (List Char) :=
  ((q.options.find? fun o => o.1 == name.toList).map Prod.snd).getD []

def insert (q : Query) (name value : List Char) : Query :=
  if q.options.any fun o => o.1 == name then
    ⟨q.options.map fun o => if o.1 == name then (o.1, o.2 ++ [value]) else o⟩
  else ⟨q.options ++ [(name, [value])]⟩

/-- A part of the text adds a value; a part without an equals sign or without a value adds none. -/
def insertPart (q : Query) (part : List Char) : Query :=
  match Text.cut '=' part with
  | (_, none) => q
  | (_, some []) => q
  | (name, some value) => q.insert (unescaped name) (unescaped value)

def ofText (cs : List Char) : Query :=
  (Text.splitAll '&' cs).foldl insertPart empty

end Query

end ClientRegistry.Database
