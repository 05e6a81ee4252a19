import ClientRegistry.Logging.Entry

/-! The container layout: time, level, logger, message, the place of the call from warnings on,
and the context as `key=value` pairs. An error follows on a line of its own. -/

namespace ClientRegistry.Logging.Entry

def padRight (width : Nat) (cs : List Char) : List Char :=
  cs ++ List.replicate (width - cs.length) ' '

/-- Universal time with milliseconds. -/
def timeText (e : Entry) : List Char :=
  let m := e.stamp.moment
  RealLayout.digitChars m.year ++ '-' :: Moment.two m.month ++ '-' :: Moment.two m.day
    ++ 'T' :: m.timeText ++ '.' :: e.stamp.millisText ++ ['+', '0', '0', '0', '0']

def placeText (e : Entry) : List Char :=
  if 30 ≤ e.level then
    [' ', ' ', '['] ++ e.fileName ++ ':' :: Printed.intChars e.line ++ [']']
  else []

def pairText (c : ContextField × Value) : List Char :=
  c.1.key.toList ++ '=' :: c.2.displayed

def spaced : List (List Char) → List Char
  | [] => []
  | [x] => x
  | x :: rest => x ++ ' ' :: spaced rest

def contextText (e : Entry) : List Char :=
  match e.shownContext with
  | [] => []
  | pairs => ' ' :: ' ' :: spaced (pairs.map pairText)

def headLine (e : Entry) (message : List Char) : List Char :=
  e.timeText ++ ' ' :: padRight 8 (levelName e.level) ++ ' ' :: e.logger ++ ' ' :: ' ' :: message
    ++ e.placeText ++ e.contextText

/-- The error starts on a new line. -/
def withCause (e : Entry) (text : List Char) : List Char :=
  match e.cause with
  | none => text
  | some c => (if text.getLast? = some '\n' then text else text ++ ['\n']) ++ c.line

/-- The text of an entry, if its message can be formed. -/
def containerText? (e : Entry) : Option (List Char) :=
  e.message?.map fun message => e.withCause (e.headLine message)

end ClientRegistry.Logging.Entry
