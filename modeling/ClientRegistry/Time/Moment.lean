import ClientRegistry.Number.Binary64
import ClientRegistry.Time.Calendar

/-! A moment is a date and a time of day to the microsecond, with or without an offset from
universal time. Moments with offsets are the same when they are the same instant. -/

namespace ClientRegistry

/-- An offset in seconds east of universal time. `read` tells an offset that was read from a
snapshot from one that a caller supplied; only the printed form of a moment shows it. -/
structure Zone where
  offset : Int
  read : Bool
  deriving DecidableEq

structure Moment where
  year : Nat
  month : Nat
  day : Nat
  hour : Nat
  minute : Nat
  second : Nat
  micro : Nat
  zone : Option Zone
  deriving DecidableEq

namespace Moment

/-- Seconds since 1 January of the year 1 on the local clock. -/
def localSeconds (m : Moment) : Int :=
  (Calendar.ordinal m.year m.month m.day : Int) * 86400
    + (m.hour * 3600 + m.minute * 60 + m.second : Nat)

/-- Microseconds of universal time; a moment without offset is taken as it stands. -/
def instant (m : Moment) : Int :=
  let east := match m.zone with
    | some z => z.offset
    | none => 0
  (m.localSeconds - east) * 1000000 + m.micro

/-- A moment with offset and one without are never the same. -/
def same (a b : Moment) : Bool :=
  a.zone.isSome == b.zone.isSome && a.instant == b.instant

/-- The bounds of readable unix seconds: the years 1 to 9999. -/
def leastUnix : Int := -62135596800
def mostUnix : Int := 253402300799

/-- The universal time of a count of seconds since 1970 and a count of microseconds. -/
def ofUnix (seconds : Int) (micro : Nat) : Moment :=
  let days := seconds / 86400
  let rest := (seconds % 86400).toNat
  let (year, month, day) := Calendar.ofOrdinal (days + Calendar.epoch).toNat
  ⟨year, month, day, rest / 3600, rest / 60 % 60, rest % 60, micro, some ⟨0, true⟩⟩

/-- Refuses a count outside the readable years. -/
def ofUnix? (seconds : Int) (micro : Nat) : Option Moment :=
  let carried := seconds + (micro / 1000000 : Nat)
  if leastUnix ≤ carried ∧ carried ≤ mostUnix then some (ofUnix carried (micro % 1000000)) else none

/-- Counts above this magnitude are milliseconds. -/
def watershed : Nat := 20000000000

def ofUnixInt? (n : Int) : Option Moment :=
  if n.natAbs ≤ watershed then ofUnix? n 0
  else ofUnix? (n / 1000) ((n % 1000).toNat * 1000)

/-- A fraction of a unit in parts of it, to the nearest; a half goes up. The fraction and the
product are rounded to doubles on the way. -/
def portion (num den parts : Nat) : Nat :=
  match Binary64.nearest false num den with
  | .finite _ m e =>
    let (n, d) := Binary64.fraction m e
    match Binary64.nearest false (n * parts) d with
    | .finite _ m e =>
      let (n, d) := Binary64.fraction m e
      (2 * n + d) / (2 * d)
    | _ => 0
  | _ => 0

/-- A number of seconds, or of milliseconds above the watershed, with a fraction. -/
def ofUnixReal? : Binary64 → Option Moment
  | .finite negative m e =>
    let (num, den) := Binary64.fraction m e
    let value := Binary64.negated negative num
    let whole := value / (den : Int)
    let rest := (value % (den : Int)).toNat
    if watershed * den < num then
      ofUnix? (whole / 1000) ((whole % 1000).toNat * 1000 + portion rest den 1000)
    else ofUnix? whole (portion rest den 1000000)
  | _ => none

end Moment

end ClientRegistry
