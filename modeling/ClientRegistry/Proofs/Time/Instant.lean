import ClientRegistry.Proofs.Time.Text
import ClientRegistry.Value.Digest
import Mathlib.Algebra.Order.BigOperators.Group.List
import Mathlib.Algebra.Order.Group.Nat

/-! Moments that are the same. A date is known by its number, so two moments without an offset that
are the same have the same date and the same time of day; two with offsets have the same instant.
What a digest takes from a moment is settled by this. -/

namespace ClientRegistry

namespace Calendar

variable {year year' month month' day day' : Nat}

theorem daysBeforeMonth_eq (year month : Nat) :
    daysBeforeMonth year month = ((monthLengths year).take (month - 1)).sum :=
  List.sum_eq_foldl.symm

/-- The days of a month come before those of the next. -/
theorem daysBeforeMonth_add_le (date : isDate year month day = true) (later : month < month') :
    daysBeforeMonth year month + day ≤ daysBeforeMonth year month' := by
  obtain ⟨first, last, -, most⟩ := isDate_iff.mp date
  have inside : month - 1 < (monthLengths year).length := by
    have twelve : (monthLengths year).length = 12 := rfl
    omega
  have length : daysInMonth year month = (monthLengths year)[month - 1] := by
    rw [daysInMonth, List.getD_eq_getElem?_getD, List.getElem?_eq_getElem inside, Option.getD_some]
  calc daysBeforeMonth year month + day
    _ ≤ ((monthLengths year).take (month - 1)).sum + (monthLengths year)[month - 1] := by
      rw [daysBeforeMonth_eq]
      omega
    _ = ((monthLengths year).take (month - 1 + 1)).sum := (List.sum_take_succ _ _ inside).symm
    _ ≤ ((monthLengths year).take (month' - 1)).sum :=
      (List.take_sublist_take_left (by omega)).sum_le_sum fun _ _ => Nat.zero_le _
    _ = daysBeforeMonth year month' := (daysBeforeMonth_eq year month').symm

/-- Every fourth year has a day more, every hundredth has not, and every four hundredth has. -/
theorem daysBeforeYear_succ (first : 1 ≤ year) :
    daysBeforeYear (year + 1) = daysBeforeYear year + if isLeap year then 366 else 365 := by
  obtain ⟨y, rfl⟩ : ∃ y, year = y + 1 := ⟨year - 1, by omega⟩
  have length : (if isLeap (y + 1) then 366 else 365) =
      365 + (if (y + 1) % 4 = 0 then 1 else 0) + (if (y + 1) % 400 = 0 then 1 else 0)
        - if (y + 1) % 100 = 0 then 1 else 0 := by
    simp only [isLeap_iff]
    split <;> split <;> split <;> split <;> omega
  have fourth : (y + 1) / 4 = y / 4 + if (y + 1) % 4 = 0 then 1 else 0 := by split <;> omega
  have hundredth : (y + 1) / 100 = y / 100 + if (y + 1) % 100 = 0 then 1 else 0 := by
    split <;> omega
  have last : (y + 1) / 400 = y / 400 + if (y + 1) % 400 = 0 then 1 else 0 := by split <;> omega
  have fewer : y / 100 ≤ y / 4 := by omega
  simp only [daysBeforeYear, Nat.add_sub_cancel, length, fourth, hundredth, last]
  split <;> split <;> split <;> omega

theorem daysBeforeYear_mono (first : 1 ≤ year) (h : year ≤ year') :
    daysBeforeYear year ≤ daysBeforeYear year' := by
  induction h with
  | refl => exact Nat.le_refl _
  | @step last later ih =>
      rw [daysBeforeYear_succ (first.trans later)]
      exact ih.trans (Nat.le_add_right _ _)

/-- The days of a year come before those of the next. -/
theorem ordinal_lt_of_year_lt (first : 1 ≤ year) (date : isDate year month day = true)
    (date' : isDate year' month' day' = true) (earlier : year < year') :
    ordinal year month day < ordinal year' month' day' := by
  obtain ⟨-, last, -, -⟩ := isDate_iff.mp date
  obtain ⟨-, -, some, -⟩ := isDate_iff.mp date'
  have inYear : daysBeforeMonth year month + day ≤ if isLeap year then 366 else 365 := by
    have whole : daysBeforeMonth year 13 = (monthLengths year).sum := daysBeforeMonth_eq year 13
    rw [← sum_monthLengths, ← whole]
    exact daysBeforeMonth_add_le date (Nat.lt_succ_of_le last)
  calc ordinal year month day
    _ = daysBeforeYear year + (daysBeforeMonth year month + day) := Nat.add_assoc _ _ _
    _ ≤ daysBeforeYear (year + 1) := by
      rw [daysBeforeYear_succ first]
      exact Nat.add_le_add_left inYear _
    _ ≤ daysBeforeYear year' := daysBeforeYear_mono (Nat.le_add_left 1 year) earlier
    _ ≤ daysBeforeYear year' + daysBeforeMonth year' month' := Nat.le_add_right _ _
    _ < ordinal year' month' day' := Nat.lt_add_of_pos_right some

theorem ordinal_lt_of_month_lt (date : isDate year month day = true)
    (date' : isDate year month' day' = true) (earlier : month < month') :
    ordinal year month day < ordinal year month' day' := by
  obtain ⟨-, -, some, -⟩ := isDate_iff.mp date'
  calc ordinal year month day
    _ = daysBeforeYear year + (daysBeforeMonth year month + day) := Nat.add_assoc _ _ _
    _ ≤ daysBeforeYear year + daysBeforeMonth year month' :=
      Nat.add_le_add_left (daysBeforeMonth_add_le date earlier) _
    _ < ordinal year month' day' := Nat.lt_add_of_pos_right some

/-- No two dates have one number. -/
theorem ordinal_inj (first : 1 ≤ year) (first' : 1 ≤ year') (date : isDate year month day = true)
    (date' : isDate year' month' day' = true)
    (same : ordinal year month day = ordinal year' month' day') :
    year = year' ∧ month = month' ∧ day = day' := by
  obtain earlier | rfl | later := lt_trichotomy year year'
  · exact absurd same (ordinal_lt_of_year_lt first date date' earlier).ne
  · obtain earlier | rfl | later := lt_trichotomy month month'
    · exact absurd same (ordinal_lt_of_month_lt date date' earlier).ne
    · exact ⟨rfl, rfl, Nat.add_left_cancel same⟩
    · exact absurd same (ordinal_lt_of_month_lt date' date later).ne'
  · exact absurd same (ordinal_lt_of_year_lt first' date' date later).ne'

end Calendar

namespace Moment

variable {a b : Moment}

/-- Two valid moments with one offset and one local time are equal. -/
theorem eq_of_localSeconds (ha : a.Valid) (hb : b.Valid) (zone : a.zone = b.zone)
    (seconds : a.localSeconds = b.localSeconds) (micro : a.micro = b.micro) : a = b := by
  have := ha.hour
  have := ha.minute
  have := ha.second
  have := hb.hour
  have := hb.minute
  have := hb.second
  simp only [localSeconds] at seconds
  have number : Calendar.ordinal a.year a.month a.day = Calendar.ordinal b.year b.month b.day := by
    omega
  have hour : a.hour = b.hour := by omega
  have minute : a.minute = b.minute := by omega
  have second : a.second = b.second := by omega
  obtain ⟨year, month, day⟩ := Calendar.ordinal_inj ha.least hb.least ha.date hb.date number
  cases a
  cases b
  simp_all

/-- A digest of a moment depends on nothing that sameness leaves open. -/
theorem ofMoment_eq_of_same (ha : a.Valid) (hb : b.Valid) (same : a.same b = true) :
    Digest.ofMoment a = Digest.ofMoment b := by
  have := ha.micro
  have := hb.micro
  simp only [Moment.same, Bool.and_eq_true, beq_iff_eq, instant] at same
  obtain ⟨zones, instants⟩ := same
  cases hz : a.zone with
  | none =>
      cases hz' : b.zone with
      | none =>
          rw [hz, hz'] at instants
          simp only at instants
          rw [eq_of_localSeconds ha hb (hz.trans hz'.symm) (by omega) (by omega)]
      | some z => simp [hz, hz'] at zones
  | some z =>
      cases hz' : b.zone with
      | none => simp [hz, hz'] at zones
      | some z' =>
          rw [hz, hz'] at instants
          simp only at instants
          have seconds : a.localSeconds - z.offset = b.localSeconds - z'.offset := by omega
          have micro : a.micro = b.micro := by omega
          simp only [Digest.ofMoment, hz, hz', seconds, micro]

end Moment

end ClientRegistry
