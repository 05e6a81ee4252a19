import ClientRegistry.Proofs.Json.Shaped
import ClientRegistry.Proofs.Settings.Bag

/-! What is read has a JSON shape: its integers have few enough digits to be read again, its
doubles are in their canonical form, and no key is repeated. -/

namespace ClientRegistry.Json

variable {fuel room : Nat} {cs ds rest : List Char} {v : Value} {negative : Bool}

theorem digits_of_readWhole (h : readWhole cs = some (ds, rest)) :
    (∀ c ∈ ds, Numeral.isDigit c = true) ∧ ds ≠ [] := by
  simp only [readWhole, Option.ite_none_left_eq_some] at h
  obtain ⟨plain, found⟩ := h
  cases found
  refine ⟨fun c member => Numeral.isDigit_of_mem_takeDigits member, fun none => ?_⟩
  simp [none] at plain

/-- An integer has no more digits than the text from which it was read. -/
theorem intReadable_negated (digits : ∀ c ∈ ds, Numeral.isDigit c = true) (nonempty : ds ≠ [])
    (short : ds.length + negative.toNat ≤ mostDigits) :
    IntReadable (Binary64.negated negative (Numeral.value ds)) := by
  have length : (RealLayout.digitChars (Numeral.value ds)).length ≤ ds.length :=
    Numeral.length_digitChars_le (List.length_pos_iff.mpr nonempty) (Numeral.value_lt digits)
  rw [IntReadable, Printed.intChars]
  cases negative with
  | false =>
      simp only [Binary64.negated, Bool.false_eq_true, if_false, Bool.toNat_false] at short ⊢
      rw [if_neg (by omega), Int.natAbs_natCast]
      omega
  | true =>
      simp only [Binary64.negated, if_true, Bool.toNat_true, Int.natAbs_neg, Int.natAbs_natCast]
        at short ⊢
      split
      · rw [List.length_cons]
        omega
      · omega

theorem readNumber_shaped (h : readNumber negative cs = some (v, rest)) :
    Shaped Binary64.Canonical room v := by
  simp only [readNumber, Option.bind_eq_bind, Option.bind_eq_some_iff] at h
  obtain ⟨⟨ds, _⟩, whole, h⟩ := h
  obtain ⟨digits, nonempty⟩ := digits_of_readWhole whole
  simp only at h
  split at h
  · cases h
  next short =>
    simp only [Option.bind_eq_some_iff] at h
    obtain ⟨⟨fraction, _⟩, -, ⟨exponent, _⟩, -, h⟩ := h
    split at h
    · cases h
      exact .int room _ (intReadable_negated digits nonempty (not_lt.mp short))
    · cases h
      exact .real room _ (Binary64.canonical_ofDecimal _ _ _)

theorem readLeaf_shaped (h : readLeaf cs = some (v, rest)) : Shaped Binary64.Canonical room v := by
  have named : ∀ {w : Value} {es cs : List Char}, Shaped Binary64.Canonical room w →
      (expect es cs).map (w, ·) = some (v, rest) → Shaped Binary64.Canonical room v := by
    intro w es cs shaped found
    obtain ⟨_, -, same⟩ := Option.map_eq_some_iff.mp found
    cases same
    exact shaped
  rw [readLeaf.eq_def] at h
  split at h
  · exact named (.null room) h
  · exact named (.bool room true) h
  · exact named (.bool room false) h
  · exact named (.real room (.nan 0) trivial) h
  · exact named (.real room (.infinite false) trivial) h
  · exact named (.real room (.infinite true) trivial) h
  · obtain ⟨_, -, same⟩ := Option.map_eq_some_iff.mp h
    cases same
    exact .text room _
  · exact readNumber_shaped h
  · exact readNumber_shaped h

/-- What is read with so much fuel has a JSON shape. -/
structure ReadsShaped (fuel : Nat) : Prop where
  value : ∀ {room cs v rest}, readValue fuel room cs = some (v, rest) →
    Shaped Binary64.Canonical room v
  items : ∀ {room cs xs rest}, readItems fuel room cs = some (xs, rest) →
    ∀ x ∈ xs, Shaped Binary64.Canonical room x
  members : ∀ {room cs es rest}, readMembers fuel room cs = some (es, rest) →
    ∀ e ∈ es, e.1.IsText ∧ Shaped Binary64.Canonical room e.2

namespace ReadsShaped

theorem value_step (h : ReadsShaped fuel) (read : readValue (fuel + 1) room cs = some (v, rest)) :
    Shaped Binary64.Canonical room v := by
  rw [readValue.eq_def] at read
  simp only at read
  split at read
  · split at read
    · cases read
      exact .emptyList room
    · simp only [Option.ite_none_left_eq_some] at read
      obtain ⟨some, read⟩ := read
      obtain ⟨⟨xs, _⟩, items, same⟩ := Option.map_eq_some_iff.mp read
      cases same
      obtain ⟨room, rfl⟩ := Nat.exists_eq_succ_of_ne_zero some
      exact .list room xs (h.items items)
  · split at read
    · cases read
      exact .emptyDict room
    · simp only [Option.ite_none_left_eq_some] at read
      obtain ⟨some, read⟩ := read
      obtain ⟨⟨es, _⟩, members, same⟩ := Option.map_eq_some_iff.mp read
      cases same
      obtain ⟨room, rfl⟩ := Nat.exists_eq_succ_of_ne_zero some
      obtain ⟨keyed, values⟩ := Entries.ofList_keyed (h.members members)
      exact .dict room _ keyed values
  · exact readLeaf_shaped read

theorem items_step {xs : List Value} (h : ReadsShaped fuel)
    (read : readItems (fuel + 1) room cs = some (xs, rest)) :
    ∀ x ∈ xs, Shaped Binary64.Canonical room x := by
  rw [readItems.eq_def] at read
  simp only at read
  split at read
  · cases read
  next first =>
    split at read
    · obtain ⟨⟨others, _⟩, items, same⟩ := Option.map_eq_some_iff.mp read
      cases same
      exact List.forall_mem_cons.mpr ⟨h.value first, h.items items⟩
    · cases read
      exact List.forall_mem_singleton.mpr (h.value first)
    · cases read

theorem members_step {es : Options} (h : ReadsShaped fuel)
    (read : readMembers (fuel + 1) room cs = some (es, rest)) :
    ∀ e ∈ es, e.1.IsText ∧ Shaped Binary64.Canonical room e.2 := by
  rw [readMembers.eq_def] at read
  simp only at read
  split at read
  · split at read
    · cases read
    next key _ _ =>
      split at read
      · split at read
        · cases read
        next value =>
          split at read
          · obtain ⟨⟨others, _⟩, members, same⟩ := Option.map_eq_some_iff.mp read
            cases same
            exact List.forall_mem_cons.mpr ⟨⟨⟨_, rfl⟩, h.value value⟩, h.members members⟩
          · cases read
            exact List.forall_mem_singleton.mpr ⟨⟨_, rfl⟩, h.value value⟩
          · cases read
      · cases read
  · cases read

end ReadsShaped

theorem readsShaped (fuel : Nat) : ReadsShaped fuel := by
  induction fuel with
  | zero =>
      refine ⟨fun read => ?_, fun read => ?_, fun read => ?_⟩
      · cases read
      · cases read
      · cases read
  | succ fuel ih => exact ⟨ih.value_step, ih.items_step, ih.members_step⟩

theorem read?_shaped (h : read? cs = some v) : Shaped Binary64.Canonical mostNested v := by
  simp only [read?] at h
  split at h
  next v' rest read =>
    simp only [Option.ite_none_right_eq_some] at h
    cases h.2
    exact (readsShaped _).value read
  · cases h

end ClientRegistry.Json
