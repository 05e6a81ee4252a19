import ClientRegistry.Number.Numeral
import ClientRegistry.Number.Shortest
import ClientRegistry.Time.Moment

/-! Moments as text. The plain form shows the offset to the second and a fraction of six digits
when there is one; the snapshot form writes universal time as `Z` and drops seconds of offsets.
Reading accepts more spellings than writing produces. -/

namespace ClientRegistry.Moment

def two (n : Nat) : List Char :=
  RealLayout.padLeft 2 (RealLayout.digitChars n)

def four (n : Nat) : List Char :=
  RealLayout.padLeft 4 (RealLayout.digitChars n)

def six (n : Nat) : List Char :=
  RealLayout.padLeft 6 (RealLayout.digitChars n)

def dateText (m : Moment) : List Char :=
  four m.year ++ '-' :: two m.month ++ '-' :: two m.day

def timeText (m : Moment) : List Char :=
  two m.hour ++ ':' :: two m.minute ++ ':' :: two m.second
    ++ (if m.micro = 0 then [] else '.' :: six m.micro)

def signOf (offset : Int) : Char :=
  if offset < 0 then '-' else '+'

/-- Hours and minutes of an offset, and its seconds when there are any. -/
def offsetText (offset : Int) : List Char :=
  let n := offset.natAbs
  signOf offset :: two (n / 3600) ++ ':' :: two (n / 60 % 60)
    ++ (if n % 60 = 0 then [] else ':' :: two (n % 60))

/-- The plain form, with a chosen character between date and time. -/
def plainText (separator : Char) (m : Moment) : List Char :=
  m.dateText ++ separator :: m.timeText
    ++ (match m.zone with
      | some z => offsetText z.offset
      | none => [])

def snapshotText (m : Moment) : List Char :=
  m.dateText ++ 'T' :: m.timeText
    ++ (match m.zone with
      | some z =>
        if z.offset = 0 then ['Z']
        else
          let n := z.offset.natAbs
          signOf z.offset :: two (n / 3600) ++ ':' :: two (n / 60 % 60)
      | none => [])

def digit? (c : Char) : Option Nat :=
  if '0' ≤ c ∧ c ≤ '9' then some (c.toNat - '0'.toNat) else none

def takeTwo : List Char → Option (Nat × List Char)
  | a :: b :: rest => do
    let x ← digit? a
    let y ← digit? b
    some (10 * x + y, rest)
  | _ => none

def takeFour (cs : List Char) : Option (Nat × List Char) := do
  let (x, cs) ← takeTwo cs
  let (y, cs) ← takeTwo cs
  some (100 * x + y, cs)

def takeChar (c : Char) : List Char → Option (List Char)
  | d :: rest => if c = d then some rest else none
  | [] => none

/-- A date of the calendar, written year, month, day. -/
def takeDate (cs : List Char) : Option ((Nat × Nat × Nat) × List Char) := do
  let (year, cs) ← takeFour cs
  let cs ← takeChar '-' cs
  let (month, cs) ← takeTwo cs
  let cs ← takeChar '-' cs
  let (day, cs) ← takeTwo cs
  if Calendar.isDate year month day then some ((year, month, day), cs) else none

/-- The digits of a fraction as microseconds; digits past the sixth are dropped. -/
def microOf (ds : List Char) : Nat :=
  let kept := ds.take 6
  Numeral.value kept * tenTo (6 - kept.length)

/-- Seconds with an optional fraction, which has at least one digit. -/
def takeSeconds (cs : List Char) : Option ((Nat × Nat) × List Char) := do
  let (second, cs) ← takeTwo cs
  if 59 < second then none
  else match cs with
    | c :: rest =>
      if c = '.' ∨ c = ',' then
        let (ds, rest) := Numeral.takeDigits rest
        if ds.isEmpty then none else some ((second, microOf ds), rest)
      else some ((second, 0), cs)
    | [] => some ((second, 0), [])

/-- Hour and minute, and seconds when a colon follows. -/
def takeTime (cs : List Char) : Option ((Nat × Nat × Nat × Nat) × List Char) := do
  let (hour, cs) ← takeTwo cs
  let cs ← takeChar ':' cs
  let (minute, cs) ← takeTwo cs
  if 23 < hour ∨ 59 < minute then none
  else match cs with
    | ':' :: rest =>
      let ((second, micro), cs) ← takeSeconds rest
      some ((hour, minute, second, micro), cs)
    | _ => some ((hour, minute, 0, 0), cs)

/-- The sign of an offset; U+2212 is a minus. -/
def sign? (c : Char) : Option Int :=
  if c = '+' then some 1
  else if c = '-' ∨ c.toNat = 0x2212 then some (-1)
  else none

/-- A zone that ends the text: nothing, `Z`, or a sign, hours and minutes. -/
def readZone : List Char → Option (Option Int)
  | [] => some none
  | c :: rest =>
    if (c = 'Z' ∨ c = 'z') ∧ rest.isEmpty then some (some 0)
    else do
      let sign ← sign? c
      let (hours, rest) ← takeTwo rest
      let (minutes, rest) ← takeTwo (match rest with
        | ':' :: tail => tail
        | other => other)
      if 23 < hours ∨ 59 < minutes ∨ !rest.isEmpty then none
      else some (some (sign * (hours * 3600 + minutes * 60 : Nat)))

/-- A date, optionally followed by a separator, a time and a zone. -/
def readCalendar (cs : List Char) : Option Moment := do
  let ((year, month, day), cs) ← takeDate cs
  match cs with
  | [] => some ⟨year, month, day, 0, 0, 0, 0, none⟩
  | c :: rest =>
    if c = 'T' ∨ c = 't' ∨ c = ' ' ∨ c = '_' then
      let ((hour, minute, second, micro), cs) ← takeTime rest
      let zone ← readZone cs
      some ⟨year, month, day, hour, minute, second, micro, zone.map (⟨·, true⟩)⟩
    else none

/-- The greatest count of seconds without a point. -/
def mostSeconds : Nat := 9223372036854775807

/-- A decimal count of seconds: a sign, digits, a fraction and an exponent. One side of the
point may be empty, and an exponent needs a point before it. -/
def readCount (cs : List Char) : Option Moment :=
  let (negative, cs) := Numeral.takeSign cs
  let (whole, cs) := Numeral.takeDigits cs
  match cs with
  | [] =>
    if whole.isEmpty || mostSeconds < Numeral.value whole then none
    else ofUnixInt? (Binary64.negated negative (Numeral.value whole))
  | '.' :: cs =>
    let (fraction, cs) := Numeral.takeDigits cs
    if whole.isEmpty && fraction.isEmpty then none
    else match Numeral.takeExponent cs with
      | some (exponent, []) =>
        ofUnixReal? (Numeral.toReal negative whole fraction (exponent.getD 0))
      | _ => none
  | _ => none

/-- What reading a text as a moment can find. -/
inductive Reading where
  | moment (m : Moment)
  | outsideCalendar
  | unreadable

/-- A calendar text first, a count of seconds second. The year 0 is well written and yet no
year of the calendar. -/
def readText (cs : List Char) : Reading :=
  match readCalendar cs with
  | some m => if m.year = 0 then .outsideCalendar else .moment m
  | none => match readCount cs with
    | some m => .moment m
    | none => .unreadable

/-- The plain form, offsets with seconds included; the zone counts as supplied by a caller. -/
def ofPlainText? (cs : List Char) : Option Moment := do
  let ((year, month, day), cs) ← takeDate cs
  let cs ← takeChar 'T' cs
  let ((hour, minute, second, micro), cs) ← takeTime cs
  let bare : Moment := ⟨year, month, day, hour, minute, second, micro, none⟩
  match cs with
  | [] => some bare
  | c :: rest =>
    let sign ← sign? c
    let (hours, rest) ← takeTwo rest
    let rest ← takeChar ':' rest
    let (minutes, rest) ← takeTwo rest
    let seconds := match rest with
      | ':' :: tail => (takeTwo tail).map (·.1)
      | _ => some 0
    let extra ← seconds
    some { bare with zone := some ⟨sign * (hours * 3600 + minutes * 60 + extra : Nat), false⟩ }

end ClientRegistry.Moment
