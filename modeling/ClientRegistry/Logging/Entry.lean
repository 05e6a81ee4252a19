import ClientRegistry.Journal
import ClientRegistry.Logging.Setup
import ClientRegistry.Text.Template

/-! A log entry as it is offered to a handler, with the place and the time of the call. -/

namespace ClientRegistry.Logging

/-- The time of an entry, in whole seconds since 1970 and milliseconds. -/
structure Stamp where
  seconds : Int
  millis : Int
  deriving DecidableEq

namespace Stamp

/-- Seconds are rounded down, and the fraction of milliseconds is dropped. -/
def ofReals? (seconds millis : Binary64) : Option Stamp := do
  let s ← seconds.floor?
  let m ← millis.truncate?
  some ⟨s, m⟩

def moment (s : Stamp) : Moment :=
  Moment.ofUnix s.seconds 0

/-- Milliseconds with at least three characters. -/
def millisText (s : Stamp) : List Char :=
  if s.millis < 0 then '-' :: RealLayout.padLeft 2 (RealLayout.digitChars s.millis.natAbs)
  else RealLayout.padLeft 3 (RealLayout.digitChars s.millis.natAbs)

end Stamp

/-- An error that an entry reports: the full name of its kind, and its text. -/
structure Cause where
  kind : List Char
  text : List Char

/-- The kind alone stands for an error without text. -/
def Cause.line (c : Cause) : List Char :=
  if c.text.isEmpty then c.kind else c.kind ++ ':' :: ' ' :: c.text

structure Entry where
  logger : List Char
  level : Int
  path : List Char
  line : Int
  template : List Char
  args : List Value
  stamp : Stamp
  context : List (ContextField × Value)
  cause : Option Cause

def levelName (level : Int) : List Char :=
  if level = 0 then "NOTSET".toList
  else if level = 10 then "DEBUG".toList
  else if level = 20 then "INFO".toList
  else if level = 30 then "WARNING".toList
  else if level = 40 then "ERROR".toList
  else if level = 50 then "CRITICAL".toList
  else "Level ".toList ++ Printed.intChars level

namespace Entry

def points? (e : Entry) : Option (List Text.CodePoint) :=
  Text.Template.fill e.template e.args

/-- The message, if it is formed and consists of characters. -/
def message? (e : Entry) : Option (List Char) :=
  e.points?.bind Text.chars?

/-- The context fields that have a value, in their order. -/
def shownContext (e : Entry) : List (ContextField × Value) :=
  [ContextField.registrationId, .clientId, .field].filterMap fun f =>
    match e.context.find? fun c => c.1 == f with
    | some (_, .null) => none
    | some (_, v) => some (f, v)
    | none => none

def fileName (e : Entry) : List Char :=
  (e.path.reverse.takeWhile (· != '/')).reverse

end Entry

/-- An entry of the journal with the place and the time at which it was logged. -/
def Entry.ofRecord (r : LogRecord) (logger path : List Char) (line : Int) (stamp : Stamp)
    (cause : Option Cause) : Entry :=
  ⟨logger, r.severity.level, path, line, r.message, [], stamp, r.context, cause⟩

end ClientRegistry.Logging
