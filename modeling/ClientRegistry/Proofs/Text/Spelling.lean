import ClientRegistry.Text.Blank
import ClientRegistry.Text.Lowercase
import Mathlib.Data.List.TakeWhile

/-! Texts in other spellings. Lower-casing does not see the case of ASCII letters, not even where
a capital sigma looks for letters around it, and trimming does not see how much white space
surrounds a text. -/

namespace ClientRegistry.Text

variable {c : Char} {cs ds front back : List Char}

/-- The same characters, but for the case of ASCII letters. -/
def Recased (cs ds : List Char) : Prop := cs.map Char.toLower = ds.map Char.toLower

instance (cs ds : List Char) : Decidable (Recased cs ds) :=
  inferInstanceAs (Decidable (cs.map Char.toLower = ds.map Char.toLower))

theorem toNat_toLower (c : Char) :
    c.toLower.toNat = if 0x41 ≤ c.toNat ∧ c.toNat ≤ 0x5A then c.toNat + 32 else c.toNat := by
  have bounds : c.val ≥ 'A'.val ∧ c.val ≤ 'Z'.val ↔ 0x41 ≤ c.toNat ∧ c.toNat ≤ 0x5A := Iff.rfl
  unfold Char.toLower
  by_cases capital : c.val ≥ 'A'.val ∧ c.val ≤ 'Z'.val
  · have small := bounds.mp capital
    rw [dif_pos capital, if_pos small]
    change (c.val + 32).toNat = c.toNat + 32
    rw [UInt32.toNat_add]
    change (c.toNat + 32) % 2 ^ 32 = c.toNat + 32
    omega
  · rw [dif_neg capital, if_neg (mt bounds.mpr capital)]

theorem toLower_of_not_capital (plain : ¬(0x41 ≤ c.toNat ∧ c.toNat ≤ 0x5A)) : c.toLower = c := by
  apply Char.toNat_inj.mp
  rw [toNat_toLower, if_neg plain]

theorem toLower_toLower (c : Char) : c.toLower.toLower = c.toLower := by
  apply toLower_of_not_capital
  rw [toNat_toLower]
  split <;> omega

/-- Behind the capitals of ASCII no run begins within ASCII. -/
theorem first_of_mem_lowerRuns {r : CaseRun} (member : r ∈ lowerRuns) :
    r = ⟨0x41, 0x5A, 1, 32⟩ ∨ 0x80 ≤ r.first := by
  have later : ∀ r ∈ lowerRuns.tail, 0x80 ≤ r.first := by decide +kernel
  exact (List.mem_cons.mp member).imp_right (later r)

theorem lowerChar_ascii (ascii : c.toNat < 0x80) : lowerChar c = [c.toLower] := by
  have plain : c.toNat ≠ 0x130 := by omega
  rw [lowerChar, if_neg plain]
  by_cases capital : 0x41 ≤ c.toNat ∧ c.toNat ≤ 0x5A
  · have head : lowerRuns.find? (·.lowers c.toNat) = some ⟨0x41, 0x5A, 1, 32⟩ := by
      apply List.find?_cons_of_pos
      simp only [CaseRun.lowers, capital, decide_true, Nat.mod_one, beq_self_eq_true, Bool.and_self]
    have shifted : ((c.toNat : Int) + 32).toNat = c.toLower.toNat := by
      rw [toNat_toLower, if_pos capital]
      omega
    rw [head]
    simp only [shifted, Char.ofNat_toNat]
  · have none : lowerRuns.find? (·.lowers c.toNat) = none := by
      rw [List.find?_eq_none]
      intro r member
      simp only [CaseRun.lowers, Bool.and_eq_true, decide_eq_true_eq, not_and]
      rcases first_of_mem_lowerRuns member with rfl | high
      · intro within
        exact absurd within capital
      · intro within
        omega
    rw [none, toLower_of_not_capital capital]

theorem lowerChar_toLower (c : Char) : lowerChar c.toLower = lowerChar c := by
  by_cases capital : 0x41 ≤ c.toNat ∧ c.toNat ≤ 0x5A
  · have ascii : c.toLower.toNat < 0x80 := by
      rw [toNat_toLower, if_pos capital]
      omega
    rw [lowerChar_ascii ascii, lowerChar_ascii (by omega), toLower_toLower]
  · rw [toLower_of_not_capital capital]

/-- A table that has both cases of each ASCII letter, or none, does not tell them apart. -/
theorem covers_toLower {table : List (Nat × Nat)}
    (alike : ∀ i < 26, covers table (0x61 + i) = covers table (0x41 + i)) (c : Char) :
    covers table c.toLower.toNat = covers table c.toNat := by
  rw [toNat_toLower]
  split
  · next capital =>
      have letter := alike (c.toNat - 0x41) (by omega)
      have small : 0x61 + (c.toNat - 0x41) = c.toNat + 32 := by omega
      have large : 0x41 + (c.toNat - 0x41) = c.toNat := by omega
      rwa [small, large] at letter
  · rfl

theorem startsCased_map_toLower (cs : List Char) :
    startsCased (cs.map Char.toLower) = startsCased cs := by
  have skipped : ∀ c : Char, covers skippedRanges c.toLower.toNat = covers skippedRanges c.toNat :=
    covers_toLower (by decide +kernel)
  have cased : ∀ c : Char, covers casedRanges c.toLower.toNat = covers casedRanges c.toNat :=
    covers_toLower (by decide +kernel)
  have same : (fun c : Char => covers skippedRanges c.toNat) ∘ Char.toLower =
      fun c => covers skippedRanges c.toNat := funext skipped
  rw [startsCased, startsCased, List.dropWhile_map, same]
  cases cs.dropWhile fun c => covers skippedRanges c.toNat with
  | nil => rfl
  | cons c rest => exact cased c

theorem lowerFrom_map_toLower (before cs : List Char) :
    lowerFrom (before.map Char.toLower) (cs.map Char.toLower) = lowerFrom before cs := by
  induction cs generalizing before with
  | nil => rfl
  | cons c rest ih =>
      have sigma : c.toLower.toNat = 0x3A3 ↔ c.toNat = 0x3A3 := by
        rw [toNat_toLower]
        split <;> omega
      have tail := ih (c :: before)
      rw [List.map_cons] at tail
      simp only [List.map_cons, lowerFrom, sigma, startsCased_map_toLower, lowerChar_toLower, tail]

theorem lower_map_toLower (cs : List Char) : lower (cs.map Char.toLower) = lower cs :=
  lowerFrom_map_toLower [] cs

theorem Recased.lower_eq (h : Recased cs ds) : lower cs = lower ds := by
  rw [← lower_map_toLower cs, h, lower_map_toLower]

/-- Within ASCII the lower-case form has no context. -/
theorem lower_ascii (ascii : ∀ c ∈ cs, c.toNat < 0x80) : lower cs = cs.map Char.toLower := by
  have each : ∀ before, lowerFrom before cs = cs.map Char.toLower := by
    induction cs with
    | nil => exact fun _ => rfl
    | cons c rest ih =>
        intro before
        rw [List.forall_mem_cons] at ascii
        have plain : c.toNat ≠ 0x3A3 := by omega
        simp only [lowerFrom, if_neg plain, lowerChar_ascii ascii.1, ih ascii.2, List.map_cons,
          List.singleton_append]
  exact each []

/-- White space is added in front of a text and behind it. -/
def Padded (cs ds : List Char) : Prop :=
  ∃ front back, (∀ c ∈ front, isBlank c = true) ∧ (∀ c ∈ back, isBlank c = true) ∧
    ds = front ++ cs ++ back

/-- No white space stands at either end. -/
structure Bare (cs : List Char) : Prop where
  front : ∀ c, cs.head? = some c → isBlank c = false
  back : ∀ c, cs.getLast? = some c → isBlank c = false

theorem padded_of_all (front back : List Char) (before : front.all isBlank = true)
    (behind : back.all isBlank = true) (shape : ds = front ++ cs ++ back) : Padded cs ds :=
  ⟨front, back, List.all_eq_true.mp before, List.all_eq_true.mp behind, shape⟩

theorem trimBlanks_append_left (blank : ∀ c ∈ front, isBlank c = true) (cs : List Char) :
    trimBlanks (front ++ cs) = trimBlanks cs := by
  unfold trimBlanks dropBlanks
  rw [List.dropWhile_append_of_pos blank]

theorem trimBlanks_append_right (blank : ∀ c ∈ back, isBlank c = true) (cs : List Char) :
    trimBlanks (cs ++ back) = trimBlanks cs := by
  have blank' : ∀ c ∈ back.reverse, isBlank c = true := fun c member =>
    blank c (List.mem_reverse.mp member)
  have gone : back.dropWhile isBlank = [] := List.dropWhile_eq_nil_iff.mpr blank
  unfold trimBlanks dropBlanks
  rw [List.dropWhile_append]
  split
  · next empty => rw [gone, List.isEmpty_iff.mp empty]
  · rw [List.reverse_append, List.dropWhile_append_of_pos blank']

theorem Padded.trimBlanks_eq (h : Padded cs ds) : trimBlanks ds = trimBlanks cs := by
  obtain ⟨front, back, before, behind, rfl⟩ := h
  rw [trimBlanks_append_right behind, trimBlanks_append_left before]

theorem exists_front (cs : List Char) :
    ∃ front, (∀ c ∈ front, isBlank c = true) ∧ cs = front ++ dropBlanks cs := by
  refine ⟨cs.takeWhile isBlank, ?_, List.takeWhile_append_dropWhile.symm⟩
  intro c member
  exact List.all_eq_true.mp List.all_takeWhile c member

theorem exists_back (cs : List Char) :
    ∃ back, (∀ c ∈ back, isBlank c = true) ∧ dropBlanks cs = trimBlanks cs ++ back := by
  obtain ⟨front, blank, shape⟩ := exists_front (dropBlanks cs).reverse
  refine ⟨front.reverse, fun c member => blank c (List.mem_reverse.mp member), ?_⟩
  rw [trimBlanks, ← List.reverse_append, ← shape, List.reverse_reverse]

/-- What trimming takes away is white space. -/
theorem padded_trimBlanks (cs : List Char) : Padded (trimBlanks cs) cs := by
  obtain ⟨front, before, shape⟩ := exists_front cs
  obtain ⟨back, behind, shape'⟩ := exists_back cs
  refine ⟨front, back, before, behind, ?_⟩
  rw [List.append_assoc, ← shape', ← shape]

theorem isBlank_of_head?_dropBlanks (first : (dropBlanks cs).head? = some c) :
    isBlank c = false := by
  have stops := List.head?_dropWhile_not isBlank cs
  rw [← dropBlanks, first] at stops
  exact stops

theorem bare_trimBlanks (cs : List Char) : Bare (trimBlanks cs) where
  front c first := by
    obtain ⟨back, _, shape⟩ := exists_back cs
    have first' : (dropBlanks cs).head? = some c := by
      rw [shape, List.head?_append, first]
      rfl
    exact isBlank_of_head?_dropBlanks first'
  back c last := by
    rw [trimBlanks, List.getLast?_reverse] at last
    exact isBlank_of_head?_dropBlanks last

theorem dropBlanks_map_toLower (cs : List Char) :
    dropBlanks (cs.map Char.toLower) = (dropBlanks cs).map Char.toLower := by
  have blank : isBlank ∘ Char.toLower = isBlank := funext (covers_toLower (by decide))
  rw [dropBlanks, List.dropWhile_map, blank, dropBlanks]

theorem trimBlanks_map_toLower (cs : List Char) :
    trimBlanks (cs.map Char.toLower) = (trimBlanks cs).map Char.toLower := by
  simp only [trimBlanks, dropBlanks_map_toLower, ← List.map_reverse]

theorem Recased.trimBlanks (h : Recased cs ds) : Recased (trimBlanks cs) (trimBlanks ds) := by
  unfold Recased
  rw [← trimBlanks_map_toLower, h, trimBlanks_map_toLower]

/-- ASCII letters may be in another case, and white space is added. -/
def Respelled (cs ds : List Char) : Prop := ∃ es, Recased cs es ∧ Padded es ds

theorem Respelled.lower_trimBlanks_eq (h : Respelled cs ds) :
    lower (Text.trimBlanks ds) = lower (Text.trimBlanks cs) := by
  obtain ⟨es, recased, padded⟩ := h
  rw [padded.trimBlanks_eq, recased.trimBlanks.lower_eq]

end ClientRegistry.Text
