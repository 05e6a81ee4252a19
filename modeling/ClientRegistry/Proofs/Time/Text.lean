import ClientRegistry.Proofs.Number.Digits
import ClientRegistry.Time.Iso
import Mathlib.Algebra.GroupWithZero.Nat

/-! Every day number of the years 1 to 9999 belongs to a date that the calendar has. Moments are
read back from their snapshot form, if they are moments of the calendar and their offsets are whole
minutes of less than a day. Only the mark of the zone changes. -/

namespace ClientRegistry.Calendar

variable {year month day n : Nat}

theorem isDate_iff : isDate year month day = true ↔
    1 ≤ month ∧ month ≤ 12 ∧ 1 ≤ day ∧ day ≤ daysInMonth year month := by
  simp only [isDate, Bool.and_eq_true, decide_eq_true_eq, and_assoc]

theorem daysInMonth_le (year month : Nat) : daysInMonth year month ≤ 31 := by
  have lengths : ∀ len ∈ monthLengths year, len ≤ 31 := by
    simp only [monthLengths]
    cases isLeap year <;> decide
  rw [daysInMonth, List.getD_eq_getElem?_getD]
  cases found : (monthLengths year)[month - 1]? with
  | none => exact Nat.zero_le _
  | some len => exact lengths len (List.mem_of_getElem? found)

/-- A day of a year falls into a month that is long enough. -/
theorem monthAndDay_spec (lengths : List Nat) (first : Nat) (h : n < lengths.sum) :
    ∃ k < lengths.length, (monthAndDay lengths first n).1 = first + k ∧
      1 ≤ (monthAndDay lengths first n).2 ∧ (monthAndDay lengths first n).2 ≤ lengths.getD k 0 := by
  induction lengths generalizing first n with
  | nil => exact absurd h (Nat.not_lt_zero _)
  | cons len rest ih =>
      simp only [monthAndDay]
      split
      next here => exact ⟨0, by simp, rfl, Nat.succ_pos _, Nat.succ_le_of_lt here⟩
      next later =>
        rw [List.sum_cons] at h
        obtain ⟨k, bound, month, least, most⟩ := ih (first + 1) (n := n - len) (by omega)
        refine ⟨k + 1, by simpa using bound, by omega, least, ?_⟩
        simpa using most

theorem sum_monthLengths (year : Nat) :
    (monthLengths year).sum = if isLeap year then 366 else 365 := by
  simp only [monthLengths]
  cases isLeap year <;> decide

theorem isDate_monthAndDay (h : n < if isLeap year then 366 else 365) :
    isDate year (monthAndDay (monthLengths year) 1 n).1 (monthAndDay (monthLengths year) 1 n).2 =
      true := by
  rw [← sum_monthLengths] at h
  obtain ⟨k, bound, month, least, most⟩ := monthAndDay_spec (monthLengths year) 1 h
  have twelve : (monthLengths year).length = 12 := rfl
  rw [isDate_iff, month, daysInMonth, Nat.add_sub_cancel_left]
  exact ⟨by omega, by omega, least, most⟩

theorem isLeap_iff : isLeap year = true ↔ year % 4 = 0 ∧ (year % 100 ≠ 0 ∨ year % 400 = 0) := by
  simp [isLeap]

/-- The last number of a year belongs to it only if the year is a leap year. -/
theorem ofOrdinal_spec {ordinal : Nat} (first : 1 ≤ ordinal) (last : ordinal ≤ 3652059) :
    1 ≤ (ofOrdinal ordinal).1 ∧ (ofOrdinal ordinal).1 ≤ 9999 ∧
      isDate (ofOrdinal ordinal).1 (ofOrdinal ordinal).2.1 (ofOrdinal ordinal).2.2 = true := by
  simp only [ofOrdinal]
  refine ⟨by omega, by omega, isDate_monthAndDay ?_⟩
  split
  next => omega
  next common =>
    rw [isLeap_iff] at common
    omega

end ClientRegistry.Calendar

namespace ClientRegistry.Moment

open Numeral (Stops)

/-- A date of the years 1 to 9999 and a time of day. -/
structure Valid (m : Moment) : Prop where
  date : Calendar.isDate m.year m.month m.day = true
  least : 1 ≤ m.year
  most : m.year ≤ 9999
  hour : m.hour < 24
  minute : m.minute < 60
  second : m.second < 60
  micro : m.micro < 1000000

/-- The offset, if there is one, is a count of minutes. -/
def WholeMinutes (m : Moment) : Prop :=
  ∀ z ∈ m.zone, z.offset % 60 = 0 ∧ z.offset.natAbs < 86400

/-- The moment as it is read from a snapshot. -/
def reread (m : Moment) : Moment :=
  { m with zone := m.zone.map fun z => ⟨z.offset, true⟩ }

@[simp] theorem snapshotText_reread (m : Moment) : m.reread.snapshotText = m.snapshotText := by
  cases m with
  | mk year month day hour minute second micro zone => cases zone <;> rfl

theorem Valid.reread {m : Moment} (h : m.Valid) : m.reread.Valid :=
  ⟨h.date, h.least, h.most, h.hour, h.minute, h.second, h.micro⟩

theorem WholeMinutes.reread {m : Moment} (h : m.WholeMinutes) : m.reread.WholeMinutes := by
  intro z member
  obtain ⟨w, hw, rfl⟩ := Option.map_eq_some_iff.mp member
  exact h w hw

theorem same_reread (m : Moment) : m.same m.reread = true := by
  cases m with
  | mk year month day hour minute second micro zone =>
      cases zone <;> simp [same, Moment.reread, instant, localSeconds]

variable {n : Nat} {rest : List Char}

theorem digit?_digitChar : ∀ d < 10, digit? (Nat.digitChar d) = some d := by
  decide

theorem padLeft_one (small : n < 10) :
    RealLayout.padLeft 1 (RealLayout.digitChars n) = [n.digitChar] := by
  have one : RealLayout.digitChars n = [n.digitChar] := by
    rw [RealLayout.digitChars, Nat.toDigits_eq_if (by decide), if_pos small]
  rw [one]
  rfl

theorem two_eq (small : n < 100) : two n = [(n / 10).digitChar, (n % 10).digitChar] := by
  rw [two, Numeral.padLeft_succ Nat.one_pos, padLeft_one (by omega)]
  rfl

theorem four_eq (small : n < 10000) : four n = two (n / 100) ++ two (n % 100) := by
  rw [two_eq (by omega), two_eq (by omega), four, Numeral.padLeft_succ (by decide),
    Numeral.padLeft_succ (by decide), Numeral.padLeft_succ Nat.one_pos, padLeft_one (by omega)]
  have tens : n / 10 % 10 = n % 100 / 10 := by omega
  have units : n % 10 = n % 100 % 10 := by omega
  have hundreds : n / 10 / 10 = n / 100 := by omega
  simp only [hundreds, List.cons_append, List.nil_append]
  rw [tens, units]

theorem takeTwo_two (small : n < 100) (rest : List Char) :
    takeTwo (two n ++ rest) = some (n, rest) := by
  rw [two_eq small]
  simp only [List.cons_append, List.nil_append, takeTwo,
    digit?_digitChar _ (show n / 10 < 10 by omega),
    digit?_digitChar _ (show n % 10 < 10 by omega), bind, Option.bind]
  congr 2
  omega

theorem takeFour_four (small : n < 10000) : takeFour (four n ++ rest) = some (n, rest) := by
  simp only [four_eq small, List.append_assoc, takeFour,
    takeTwo_two (show n / 100 < 100 by omega), takeTwo_two (show n % 100 < 100 by omega), bind,
    Option.bind]
  congr 2
  omega

theorem length_six (small : n < 1000000) : (six n).length = 6 := by
  have most := Numeral.length_digitChars_le (k := 6) (by decide) small
  simp only [six, RealLayout.padLeft, List.length_append, List.length_replicate]
  omega

theorem microOf_six (small : n < 1000000) : microOf (six n) = n := by
  have length := length_six small
  simp only [microOf, List.take_of_length_le (Nat.le_of_eq length), length, Nat.sub_self, tenTo_zero,
    Nat.mul_one]
  exact Numeral.value_padLeft 6 n

variable {m : Moment}

theorem takeDate_dateText (h : m.Valid) :
    takeDate (m.dateText ++ rest) = some ((m.year, m.month, m.day), rest) := by
  have year : m.year < 10000 := by
    have := h.most
    omega
  obtain ⟨-, most, -, length⟩ := Calendar.isDate_iff.mp h.date
  have month : m.month < 100 := by omega
  have day : m.day < 100 := by
    have := Calendar.daysInMonth_le m.year m.month
    omega
  simp only [dateText, takeDate, List.append_assoc, List.cons_append, takeFour_four year, takeChar,
    takeTwo_two month, takeTwo_two day, h.date, bind, Option.bind, if_true]

/-- What can follow the time of day: nothing, or a zone. -/
def Zoned (rest : List Char) : Prop :=
  ∀ c ∈ rest.head?, c = 'Z' ∨ c = '+' ∨ c = '-'

theorem Zoned.stops (h : Zoned rest) : Stops rest := by
  intro c member
  rcases h c member with rfl | rfl | rfl <;> rfl

theorem takeDigits_six (stops : Stops rest) :
    Numeral.takeDigits (six n ++ rest) = (six n, rest) :=
  Numeral.takeDigits_of_stops (fun _ member => Numeral.isDigit_of_mem_padLeft member) stops

theorem takeSeconds_text (h : m.Valid) (zoned : Zoned rest) :
    takeSeconds (two m.second ++ ((if m.micro = 0 then [] else '.' :: six m.micro) ++ rest)) =
      some ((m.second, m.micro), rest) := by
  have second := h.second
  simp only [takeSeconds, takeTwo_two (show m.second < 100 by omega), bind, Option.bind]
  rw [if_neg (by omega)]
  by_cases none : m.micro = 0
  · rw [if_pos none, none, List.nil_append]
    cases rest with
    | nil => rfl
    | cons c more => rcases zoned c rfl with rfl | rfl | rfl <;> rfl
  · have nonempty : six m.micro ≠ [] :=
      List.ne_nil_of_length_pos (by rw [length_six h.micro]; decide)
    simp [none, takeDigits_six zoned.stops, nonempty, microOf_six h.micro]

theorem takeTime_timeText (h : m.Valid) (zoned : Zoned rest) :
    takeTime (m.timeText ++ rest) = some ((m.hour, m.minute, m.second, m.micro), rest) := by
  have hour := h.hour
  have minute := h.minute
  simp only [timeText, takeTime, List.append_assoc, List.cons_append,
    takeTwo_two (show m.hour < 100 by omega), takeTwo_two (show m.minute < 100 by omega), takeChar,
    takeSeconds_text h zoned, bind, Option.bind, if_true]
  rw [if_neg (by omega)]

/-- The zone at the end of a snapshot text. -/
def zoneText (m : Moment) : List Char :=
  match m.zone with
  | some z =>
    if z.offset = 0 then ['Z']
    else
      let n := z.offset.natAbs
      signOf z.offset :: two (n / 3600) ++ ':' :: two (n / 60 % 60)
  | none => []

theorem snapshotText_eq (m : Moment) :
    m.snapshotText = m.dateText ++ 'T' :: (m.timeText ++ m.zoneText) := by
  cases zone : m.zone with
  | none => simp [snapshotText, zoneText, zone]
  | some z => simp [snapshotText, zoneText, zone]

theorem zoned_zoneText (m : Moment) : Zoned m.zoneText := by
  intro c member
  simp only [zoneText] at member
  split at member
  next z _ =>
    split at member
    · cases member
      exact .inl rfl
    · cases member
      rw [signOf]
      split
      · exact .inr (.inr rfl)
      · exact .inr (.inl rfl)
  · cases member

/-- A sign, hours and minutes, with nothing after them. -/
theorem readZone_signed {offset : Int} (minutes : offset % 60 = 0) (day : offset.natAbs < 86400) :
    readZone (signOf offset :: (two (offset.natAbs / 3600) ++
      ':' :: two (offset.natAbs / 60 % 60))) = some (some offset) := by
  have sum : offset.natAbs / 3600 * 3600 + offset.natAbs / 60 % 60 * 60 = offset.natAbs := by omega
  have hours : offset.natAbs / 3600 < 24 := by omega
  have rest : offset.natAbs / 60 % 60 < 60 := by omega
  generalize offset.natAbs / 3600 = h at sum hours ⊢
  generalize offset.natAbs / 60 % 60 = m at sum rest ⊢
  have first := takeTwo_two (show h < 100 by omega) (':' :: two m)
  have second := takeTwo_two (show m < 100 by omega) []
  rw [List.append_nil] at second
  by_cases negative : offset < 0
  · simp only [signOf, negative, if_true, readZone, sign?, first, second, bind, Option.bind]
    simp
    omega
  · simp only [signOf, negative, if_false, readZone, sign?, first, second, bind, Option.bind]
    simp
    omega

theorem readZone_zoneText (whole : m.WholeMinutes) :
    readZone m.zoneText = some (m.zone.map (·.offset)) := by
  simp only [zoneText]
  split
  next z zone =>
    obtain ⟨minutes, day⟩ := whole z zone
    rw [zone, Option.map_some]
    split
    next zero => rw [zero]; rfl
    next => exact readZone_signed minutes day
  next zone => rw [zone]; rfl

theorem readText_snapshotText (h : m.Valid) (whole : m.WholeMinutes) :
    readText m.snapshotText = .moment m.reread := by
  have read : readCalendar m.snapshotText = some m.reread := by
    simp only [snapshotText_eq, readCalendar, takeDate_dateText h, true_or, if_true,
      takeTime_timeText h (zoned_zoneText m), readZone_zoneText whole, bind, Option.bind]
    cases m with
    | mk year month day hour minute second micro zone => cases zone <;> rfl
  have year : m.reread.year ≠ 0 := by
    have := h.least
    simp only [Moment.reread]
    omega
  simp only [readText, read, year, if_false]

end ClientRegistry.Moment
