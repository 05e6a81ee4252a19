import ClientRegistry.Number.Fixed
import ClientRegistry.Value.Printed

/-! Message templates: a percent sign starts a conversion that takes the next argument, or the
named entry of a mapping. A template that does not fit its arguments yields nothing. What is
yielded is a text of code points, since a conversion may take a point by its number. -/

namespace ClientRegistry.Text

/-- A width or a precision: written in the template or taken from the arguments. -/
inductive Measure where
  | count (n : Nat)
  | argument

/-- One conversion: an optional key, five flags, two measures and a letter. -/
structure Conversion where
  key : Option (List Char)
  left : Bool
  signed : Bool
  spaced : Bool
  alternate : Bool
  zeros : Bool
  width : Option Measure
  precision : Option Measure
  letter : Char

/-- The arguments that are left: a sequence, or a mapping and the value at hand. -/
inductive Arguments where
  | sequence (xs : List Value)
  | mapping (entries : Options) (current : Option Value)

namespace Arguments

/-- A single dictionary that is not empty names its entries. -/
def ofList : List Value → Arguments
  | [.dict (e :: es)] => mapping (e :: es) (some (.dict (e :: es)))
  | xs => sequence xs

def next? : Arguments → Option (Value × Arguments)
  | sequence (x :: xs) => some (x, sequence xs)
  | sequence [] => none
  | mapping es (some v) => some (v, mapping es none)
  | mapping _ none => none

/-- The arguments with the entry of a key at hand. -/
def named? (key : List Char) : Arguments → Option Arguments
  | mapping es _ => (Entries.find? es (.text (String.ofList key))).map fun v => mapping es (some v)
  | sequence _ => none

/-- Whether every argument was used; entries of a mapping need not be. -/
def spent : Arguments → Bool
  | sequence xs => xs.isEmpty
  | mapping _ _ => true

end Arguments

namespace Template

/-- The text up to the parenthesis that closes `depth` open ones, and the rest. -/
def closeKey? (depth : Nat) : List Char → Option (List Char × List Char)
  | [] => none
  | ')' :: rest =>
    if depth = 0 then some ([], rest)
    else (closeKey? (depth - 1) rest).map fun (k, r) => (')' :: k, r)
  | '(' :: rest => (closeKey? (depth + 1) rest).map fun (k, r) => ('(' :: k, r)
  | c :: rest => (closeKey? depth rest).map fun (k, r) => (c :: k, r)

def isFlag (c : Char) : Bool :=
  ['-', '+', ' ', '#', '0'].contains c

def takeMeasure : List Char → Option Measure × List Char
  | '*' :: rest => (some .argument, rest)
  | cs =>
    let ds := cs.takeWhile Char.isDigit
    if ds.isEmpty then (none, cs)
    else (some (.count (ds.foldl (fun n c => 10 * n + (c.toNat - '0'.toNat)) 0)), cs.drop ds.length)

/-- A precision without digits is zero. -/
def takePrecision : List Char → Option Measure × List Char
  | '.' :: rest =>
    match takeMeasure rest with
    | (none, rest') => (some (.count 0), rest')
    | found => found
  | cs => (none, cs)

/-- One length letter has no meaning and is skipped. -/
def skipLength : List Char → List Char
  | c :: rest => if c == 'h' || c == 'l' || c == 'L' then rest else c :: rest
  | [] => []

/-- The conversion after a percent sign, and the rest of the template. -/
def takeConversion (cs : List Char) : Option (Conversion × List Char) := do
  let (key, cs) ← (match cs with
    | '(' :: rest => (closeKey? 0 rest).map fun (k, r) => (some k, r)
    | _ => some (none, cs))
  let flags := cs.takeWhile isFlag
  let (width, cs) := takeMeasure (cs.drop flags.length)
  let (precision, cs) := takePrecision cs
  match skipLength cs with
  | [] => none
  | letter :: rest =>
    some (⟨key, flags.contains '-', flags.contains '+', flags.contains ' ', flags.contains '#',
      flags.contains '0', width, precision, letter⟩, rest)

def asciiOnly (cs : List Char) : List Char :=
  cs.flatMap fun c => if c.toNat < 0x80 then [c] else pointEscape c.toNat

def cutTo (precision : Option Nat) (cs : List Char) : List Char :=
  match precision with
  | some n => cs.take n
  | none => cs

/-- The whole number that `d` shows. -/
def whole? : Value → Option Int
  | .real x => x.truncate?
  | v => v.integer?

/-- A number for the conversions with places: its sign, and its magnitude unless it is one of
the special ones, which have a text. -/
def magnitude? : Value → Option (Bool × (Nat × Nat ⊕ List Char))
  | .real (.finite negative m e) => some (negative, .inl (Binary64.fraction m e))
  | .real (.infinite negative) => some (negative, .inr ['i', 'n', 'f'])
  | .real (.nan _) => some (false, .inr ['n', 'a', 'n'])
  | v => v.integer?.bind fun n => match Binary64.ofInt n with
    | .finite negative m e => some (negative, .inl (Binary64.fraction m e))
    | _ => none

def upper (on : Bool) (cs : List Char) : List Char :=
  if on then cs.map Char.toUpper else cs

/-- What a conversion yields before padding: a sign, a mark of the base, and a body. -/
structure Piece where
  sign : List Char
  mark : List Char
  body : List CodePoint

def signOf (c : Conversion) (negative : Bool) : List Char :=
  if negative then ['-'] else if c.signed then ['+'] else if c.spaced then [' '] else []

def wholePiece (c : Conversion) (precision : Option Nat) (base : Nat) (mark : List Char)
    (n : Int) : Piece :=
  let ds := upper c.letter.isUpper (Nat.toDigits base n.natAbs)
  ⟨signOf c (n < 0), if c.alternate then mark else [],
    points (RealLayout.padLeft (precision.getD 0) ds)⟩

def placesPiece (c : Conversion) (precision : Option Nat) (v : Value) : Option Piece :=
  (magnitude? v).map fun (negative, m) =>
    let places := precision.getD 6
    let body := match m with
      | .inr special => special
      | .inl (num, den) =>
        if c.letter.toLower = 'f' then FixedPlaces.positional c.alternate places num den
        else if c.letter.toLower = 'e' then FixedPlaces.scientific c.alternate places num den
        else FixedPlaces.general c.alternate places num den
    ⟨signOf c negative, [], points (upper c.letter.isUpper body)⟩

/-- A code point, given as a character or by its number. -/
def point? : Value → Option CodePoint
  | .text s => match s.toList with
    | [c] => some (.ofChar c)
    | _ => none
  | v => v.integer?.bind fun n =>
    if 0 ≤ n ∧ n < 0x110000 then some (.ofNat n.toNat) else none

/-- The piece of a conversion and whether its padding may be zeros. -/
def piece? (c : Conversion) (precision : Option Nat) (v : Value) : Option (Piece × Bool) :=
  let shown := fun cs => some (⟨[], [], points (cutTo precision cs)⟩, false)
  match c.letter with
  | 's' => shown v.displayed
  | 'r' => shown v.printed
  | 'a' => shown (asciiOnly v.printed)
  | 'c' => (point? v).map fun p => (⟨[], [], [p]⟩, false)
  | 'o' => v.integer?.map fun n => (wholePiece c precision 8 ['0', 'o'] n, true)
  | 'x' => v.integer?.map fun n => (wholePiece c precision 16 ['0', 'x'] n, true)
  | 'X' => v.integer?.map fun n => (wholePiece c precision 16 ['0', 'X'] n, true)
  | letter =>
    if letter = 'd' ∨ letter = 'i' ∨ letter = 'u' then
      (whole? v).map fun n => (wholePiece c precision 10 [] n, true)
    else if ['e', 'f', 'g'].contains letter.toLower then
      (placesPiece c precision v).map fun p => (p, true)
    else none

/-- Padding goes to the right of a left-justified piece, and zeros behind sign and mark. -/
def padded (left zeros : Bool) (width : Nat) (p : Piece) : List CodePoint :=
  let front := points (p.sign ++ p.mark)
  let gap := width - (front ++ p.body).length
  if left then front ++ p.body ++ List.replicate gap (.ofChar ' ')
  else if zeros then front ++ List.replicate gap (.ofChar '0') ++ p.body
  else List.replicate gap (.ofChar ' ') ++ front ++ p.body

/-- No text is longer than this. -/
def longest : Nat := 2147483647

/-- A measure and whether it is negative, with the arguments that are left. -/
def measure? (args : Arguments) : Option Measure → Option (Option (Bool × Nat) × Arguments)
  | none => some (none, args)
  | some (.count n) => if n ≤ longest then some (some (false, n), args) else none
  | some .argument => args.next?.bind fun (v, args') => v.integer?.bind fun n =>
    if n.natAbs ≤ longest then some (some (n < 0, n.natAbs), args') else none

/-- One conversion applied to the arguments. A negative width justifies to the left, and a
negative precision is zero. -/
def convert? (c : Conversion) (args : Arguments) : Option (List CodePoint × Arguments) := do
  let args ← (match c.key with
    | some key => args.named? key
    | none => some args)
  let (width, args) ← measure? args c.width
  let (precision, args) ← measure? args c.precision
  let (v, args) ← args.next?
  let (p, zeroable) ← piece? c (precision.map fun (negative, n) => if negative then 0 else n) v
  let (turned, n) := width.getD (false, 0)
  some (padded (c.left || turned) (c.zeros && zeroable) n p, args)

/-- A doubled percent sign stands for itself. The first argument bounds the number of
conversions. -/
def fillFrom : Nat → List Char → Arguments → Option (List CodePoint)
  | 0, _, _ => none
  | fuel + 1, cs, args =>
    let plain := cs.takeWhile (· != '%')
    match cs.drop plain.length with
    | [] => if args.spent then some (points plain) else none
    | _ :: '%' :: rest => (fillFrom fuel rest args).map fun tail => points plain ++ .ofChar '%' :: tail
    | _ :: rest => do
      let (c, rest) ← takeConversion rest
      let (text, args) ← convert? c args
      let tail ← fillFrom fuel rest args
      some (points plain ++ text ++ tail)

/-- The text of a template and its arguments. Without arguments a template is its own text. -/
def fill (cs : List Char) (args : List Value) : Option (List CodePoint) :=
  if args.isEmpty then some (points cs) else fillFrom (cs.length + 1) cs (.ofList args)

end Template

end ClientRegistry.Text
