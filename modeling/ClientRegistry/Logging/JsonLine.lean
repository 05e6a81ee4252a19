import ClientRegistry.Json.Escaped
import ClientRegistry.Logging.Line

/-! The JSON layout: one object with the time, the level, the logger and the message, the
context that has a value, and the error if there is one. It is laid out from a report of the entry,
whose texts consist of code points. -/

namespace ClientRegistry.Logging

open Text (CodePoint points)

/-- Universal time with a comma in front of the milliseconds. -/
def Stamp.jsonText (s : Stamp) : List Char :=
  let m := s.moment
  RealLayout.digitChars m.year ++ '-' :: Moment.two m.month ++ '-' :: Moment.two m.day
    ++ ' ' :: m.timeText ++ ',' :: s.millisText

/-- What a member of the object holds. -/
inductive Datum where
  | text (ps : List CodePoint)
  | value (v : Value)

namespace Datum

def ofValue : Value → Datum
  | .text s => text (points s.toList)
  | v => value v

def write? : Datum → Option (List Char)
  | text ps => some (Json.Escaped.writePoints ps)
  | value v => Json.Escaped.write? v

end Datum

/-- What an entry has to tell, with its message formed. A field without a value holds null. -/
structure Report where
  stamp : Stamp
  level : Int
  logger : List CodePoint
  message : List CodePoint
  context : ContextField → Datum
  cause : Option (List CodePoint)

namespace Report

def shownContext (r : Report) : List (ContextField × Datum) :=
  [ContextField.registrationId, .clientId, .field].filterMap fun f =>
    match r.context f with
    | .value .null => none
    | d => some (f, d)

def members (r : Report) : List (String × Datum) :=
  [("timestamp", .text (points r.stamp.jsonText)), ("level", .text (points (levelName r.level))),
      ("logger", .text r.logger), ("message", .text r.message)]
    ++ r.shownContext.map (fun c => (c.1.key, c.2))
    ++ (match r.cause with
      | none => []
      | some ps => [("exception", .text ps)])

def writeMembers? : List (String × Datum) → Option (List (List Char))
  | [] => some []
  | (key, d) :: rest => match d.write?, writeMembers? rest with
    | some t, some ts => some ((Json.Escaped.writeText key.toList ++ ':' :: ' ' :: t) :: ts)
    | _, _ => none

def write? (r : Report) : Option (List Char) :=
  (writeMembers? r.members).map fun ts => '\x7b' :: Printed.commaSeparated ts ++ ['\x7d']

end Report

namespace Entry

def datum (e : Entry) (f : ContextField) : Datum :=
  match e.context.find? fun c => c.1 == f with
  | some (_, v) => .ofValue v
  | none => .value .null

def report? (e : Entry) : Option Report :=
  e.points?.map fun message =>
    { stamp := e.stamp
      level := e.level
      logger := points e.logger
      message
      context := e.datum
      cause := e.cause.map fun c => points c.line }

/-- The text of an entry, if its message can be formed and its context written. -/
def jsonText? (e : Entry) : Option (List Char) :=
  e.report?.bind Report.write?

end Entry

end ClientRegistry.Logging
