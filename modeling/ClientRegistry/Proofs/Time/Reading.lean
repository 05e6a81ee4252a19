import ClientRegistry.Proofs.Time.Text

/-! Whatever is read as a moment is a moment of the calendar with an offset in whole minutes, and
is marked as read: calendar texts, counts of seconds, and the texts of such counts. -/

namespace ClientRegistry.Moment

variable {n : Nat} {cs rest : List Char} {m : Moment}

/-- What a reading can be: a moment that its own snapshot text gives back as it is. -/
structure Legible (m : Moment) : Prop where
  valid : m.Valid
  whole : m.WholeMinutes
  marked : m.reread = m

theorem Legible.readText (h : m.Legible) : Moment.readText m.snapshotText = .moment m := by
  rw [readText_snapshotText h.valid h.whole, h.marked]

theorem legible_ofUnix {seconds : Int} {micro : Nat} (low : leastUnix ≤ seconds)
    (high : seconds ≤ mostUnix) (fraction : micro < 1000000) : (ofUnix seconds micro).Legible := by
  simp only [leastUnix] at low
  simp only [mostUnix] at high
  have first : 1 ≤ (seconds / 86400 + (Calendar.epoch : Int)).toNat := by
    simp only [Calendar.epoch]
    omega
  have last : (seconds / 86400 + (Calendar.epoch : Int)).toNat ≤ 3652059 := by
    simp only [Calendar.epoch]
    omega
  obtain ⟨least, most, date⟩ := Calendar.ofOrdinal_spec first last
  refine ⟨⟨date, least, most, ?_, ?_, ?_, fraction⟩, ?_, rfl⟩
  · show (seconds % 86400).toNat / 3600 < 24
    omega
  · show (seconds % 86400).toNat / 60 % 60 < 60
    omega
  · show (seconds % 86400).toNat % 60 < 60
    omega
  · intro z member
    cases member
    decide

theorem legible_of_ofUnix? {seconds : Int} {micro : Nat} (h : ofUnix? seconds micro = some m) :
    m.Legible := by
  simp only [ofUnix?, Option.ite_none_right_eq_some] at h
  obtain ⟨⟨low, high⟩, same⟩ := h
  cases same
  exact legible_ofUnix low high (Nat.mod_lt _ (by decide))

theorem legible_of_ofUnixInt? {n : Int} (h : ofUnixInt? n = some m) : m.Legible := by
  simp only [ofUnixInt?] at h
  split at h
  · exact legible_of_ofUnix? h
  · exact legible_of_ofUnix? h

theorem legible_of_ofUnixReal? {x : Binary64} (h : ofUnixReal? x = some m) : m.Legible := by
  cases x with
  | finite negative mant exp =>
      simp only [ofUnixReal?] at h
      split at h
      · exact legible_of_ofUnix? h
      · exact legible_of_ofUnix? h
  | infinite negative => cases h
  | nan mark => cases h

theorem legible_of_readCount (h : readCount cs = some m) : m.Legible := by
  simp only [readCount] at h
  split at h
  · simp only [Option.ite_none_left_eq_some] at h
    exact legible_of_ofUnixInt? h.2
  · simp only [Option.ite_none_left_eq_some] at h
    obtain ⟨-, h⟩ := h
    split at h
    · exact legible_of_ofUnixReal? h
    · cases h
  · cases h

theorem digit?_lt {c : Char} (h : digit? c = some n) : n < 10 := by
  simp only [digit?, Option.ite_none_right_eq_some] at h
  obtain ⟨⟨low, high⟩, same⟩ := h
  cases same
  have most : c.toNat ≤ 57 := high
  have zero : '0'.toNat = 48 := rfl
  omega

theorem takeTwo_lt (h : takeTwo cs = some (n, rest)) : n < 100 := by
  match cs with
  | [] => cases h
  | [_] => cases h
  | a :: b :: tail =>
      simp only [takeTwo, Option.bind_eq_bind, Option.bind_eq_some_iff] at h
      obtain ⟨x, hx, y, hy, same⟩ := h
      cases same
      have := digit?_lt hx
      have := digit?_lt hy
      omega

theorem takeFour_lt (h : takeFour cs = some (n, rest)) : n < 10000 := by
  simp only [takeFour, Option.bind_eq_bind, Option.bind_eq_some_iff] at h
  obtain ⟨⟨x, _⟩, hx, ⟨y, _⟩, hy, same⟩ := h
  cases same
  have := takeTwo_lt hx
  have := takeTwo_lt hy
  omega

theorem takeDate_spec {year month day : Nat}
    (h : takeDate cs = some ((year, month, day), rest)) :
    year ≤ 9999 ∧ Calendar.isDate year month day = true := by
  simp only [takeDate, Option.bind_eq_bind, Option.bind_eq_some_iff,
    Option.ite_none_right_eq_some] at h
  obtain ⟨⟨y, _⟩, taken, _, -, ⟨m, _⟩, -, _, -, ⟨d, _⟩, -, date, same⟩ := h
  cases same
  exact ⟨Nat.le_of_lt_succ (takeFour_lt taken), date⟩

theorem microOf_lt {ds : List Char} (digits : ∀ c ∈ ds, Numeral.isDigit c = true) :
    microOf ds < 1000000 := by
  have value := Numeral.value_lt fun c member => digits c (List.mem_of_mem_take (i := 6) member)
  have short : (ds.take 6).length ≤ 6 := List.length_take_le 6 ds
  simp only [microOf]
  generalize (ds.take 6).length = k at value short ⊢
  calc Numeral.value (ds.take 6) * tenTo (6 - k)
      < tenTo k * tenTo (6 - k) := Nat.mul_lt_mul_of_pos_right value (tenTo_pos _)
    _ = 1000000 := by
        rw [tenTo_eq, tenTo_eq, ← Nat.pow_add]
        have all : k + (6 - k) = 6 := by omega
        rw [all]

theorem takeSeconds_spec {second micro : Nat} (h : takeSeconds cs = some ((second, micro), rest)) :
    second < 60 ∧ micro < 1000000 := by
  simp only [takeSeconds, Option.bind_eq_bind, Option.bind_eq_some_iff] at h
  obtain ⟨⟨s, tail⟩, -, h⟩ := h
  simp only [Option.ite_none_left_eq_some, not_lt] at h
  obtain ⟨most, h⟩ := h
  split at h
  · split at h
    · simp only [Option.ite_none_left_eq_some] at h
      obtain ⟨-, same⟩ := h
      cases same
      refine ⟨Nat.lt_succ_of_le most, microOf_lt fun _ member => ?_⟩
      exact Numeral.isDigit_of_mem_takeDigits member
    · cases h
      exact ⟨Nat.lt_succ_of_le most, by decide⟩
  · cases h
    exact ⟨Nat.lt_succ_of_le most, by decide⟩

theorem takeTime_spec {hour minute second micro : Nat}
    (h : takeTime cs = some ((hour, minute, second, micro), rest)) :
    hour < 24 ∧ minute < 60 ∧ second < 60 ∧ micro < 1000000 := by
  simp only [takeTime, Option.bind_eq_bind, Option.bind_eq_some_iff] at h
  obtain ⟨⟨x, _⟩, -, _, -, ⟨y, _⟩, -, h⟩ := h
  simp only [Option.ite_none_left_eq_some, not_or, not_lt] at h
  obtain ⟨⟨hours, minutes⟩, h⟩ := h
  split at h
  · simp only [Option.bind_eq_some_iff] at h
    obtain ⟨⟨⟨s, f⟩, _⟩, seconds, same⟩ := h
    obtain ⟨second, micro⟩ := takeSeconds_spec seconds
    cases same
    exact ⟨Nat.lt_succ_of_le hours, Nat.lt_succ_of_le minutes, second, micro⟩
  · cases h
    exact ⟨Nat.lt_succ_of_le hours, Nat.lt_succ_of_le minutes, by decide, by decide⟩

theorem readZone_spec {offset : Int} (h : readZone cs = some (some offset)) :
    offset % 60 = 0 ∧ offset.natAbs < 86400 := by
  match cs with
  | [] => cases h
  | c :: tail =>
      simp only [readZone] at h
      split at h
      · cases h
        decide
      · simp only [Option.bind_eq_bind, Option.bind_eq_some_iff, Option.ite_none_left_eq_some, not_or,
          not_lt] at h
        obtain ⟨sign, signed, ⟨hours, _⟩, -, ⟨minutes, _⟩, -, ⟨day, hour, -⟩, same⟩ := h
        cases same
        have unit : sign = 1 ∨ sign = -1 := by
          simp only [sign?] at signed
          split at signed
          · cases signed
            exact .inl rfl
          · simp only [Option.ite_none_right_eq_some] at signed
            exact .inr (Option.some.inj signed.2).symm
        rcases unit with rfl | rfl <;> omega

theorem legible_of_readCalendar (h : readCalendar cs = some m) (year : m.year ≠ 0) :
    m.Legible := by
  simp only [readCalendar, Option.bind_eq_bind, Option.bind_eq_some_iff] at h
  obtain ⟨⟨⟨y, month, day⟩, _⟩, taken, h⟩ := h
  obtain ⟨most, date⟩ := takeDate_spec taken
  simp only at h
  split at h
  · cases h
    refine ⟨⟨date, Nat.pos_of_ne_zero year, most, ?_, ?_, ?_, ?_⟩, ?_, rfl⟩
    · exact Nat.zero_lt_succ 23
    · exact Nat.zero_lt_succ 59
    · exact Nat.zero_lt_succ 59
    · exact Nat.zero_lt_succ 999999
    · intro z member
      cases member
  · simp only [Option.ite_none_right_eq_some, Option.bind_eq_some_iff] at h
    obtain ⟨-, ⟨⟨hour, minute, second, micro⟩, _⟩, time, zone, zoned, same⟩ := h
    cases same
    obtain ⟨hours, minutes, seconds, fraction⟩ := takeTime_spec time
    refine ⟨⟨date, Nat.pos_of_ne_zero year, most, hours, minutes, seconds, fraction⟩, ?_, ?_⟩
    · intro z member
      obtain ⟨offset, given, rfl⟩ := Option.map_eq_some_iff.mp member
      exact readZone_spec (zoned.trans (congrArg some given))
    · cases zone <;> rfl

theorem legible_of_readText (h : Moment.readText cs = .moment m) : m.Legible := by
  simp only [Moment.readText] at h
  split at h
  next calendar =>
    split at h
    · cases h
    next year =>
      cases h
      exact legible_of_readCalendar calendar year
  · split at h
    next count =>
      cases h
      exact legible_of_readCount count
    · cases h

end ClientRegistry.Moment
