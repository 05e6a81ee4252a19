import ClientRegistry.Json.Reading
import ClientRegistry.Json.Written

/-! Texts are read back as they were written: each escape stands for its character, and the
closing quote is the first that is not escaped. -/

namespace ClientRegistry.Json

theorem hexValue?_digitChar : ∀ d < 16, Numeral.hexValue? (Nat.digitChar d) = some d := by
  decide

theorem unit?_hexDigits {n : Nat} (small : n < 0x10000) :
    ∃ a b c d, Text.hexDigits 4 n = [a, b, c, d] ∧ unit? a b c d = some n := by
  refine ⟨_, _, _, _, rfl, ?_⟩
  have digit := fun k => hexValue?_digitChar (k % 16) (Nat.mod_lt k (by decide))
  simp only [unit?, digit, bind, Option.bind]
  congr 1
  omega

/-- The units of a pair are not among the characters. -/
theorem not_surrogate (c : Char) :
    isHighUnit c.toNat = false ∧ isLowUnit c.toNat = false := by
  have valid : c.toNat < 0xD800 ∨ 0xDFFF < c.toNat ∧ c.toNat < 0x110000 := c.valid
  simp only [isHighUnit, isLowUnit, Bool.and_eq_false_iff, decide_eq_false_iff_not]
  omega

/-- The three forms in which a character is written: after a backslash, by its code, or as it
is. -/
inductive Escape (c : Char) : List Char → Prop
  | short (e : Char) (named : shortEscape? e = some c) : Escape c ['\\', e]
  | code (control : c.toNat < 0x20) : Escape c ('\\' :: 'u' :: Text.hexDigits 4 c.toNat)
  | plain (quote : c ≠ '"') (backslash : c ≠ '\\') (visible : ¬c.toNat < 0x20) : Escape c [c]

theorem escape_escapeChar (c : Char) : Escape c (escapeChar c) := by
  have named : ∀ n, c.toNat = n → c = Char.ofNat n := fun n code => by
    rw [← code, Char.ofNat_toNat]
  simp only [escapeChar]
  split
  next same => exact .short '"' (by rw [same]; rfl)
  next quote =>
  split
  next same => exact .short '\\' (by rw [same]; rfl)
  next backslash =>
  split
  next code => exact .short 'b' (by rw [named 8 code]; rfl)
  split
  next same => exact .short 't' (by rw [same]; rfl)
  split
  next same => exact .short 'n' (by rw [same]; rfl)
  split
  next code => exact .short 'f' (by rw [named 12 code]; rfl)
  split
  next same => exact .short 'r' (by rw [same]; rfl)
  split
  next control => exact .code control
  next visible => exact .plain quote backslash visible

/-- Whatever its form, a character is read as itself. -/
theorem Escape.readChars {c : Char} {cs : List Char} (h : Escape c cs) (rest : List Char) :
    Json.readChars (cs ++ rest) = (Json.readChars rest).map fun (cs, r) => (c :: cs, r) := by
  cases h with
  | short e named =>
      have other : e ≠ 'u' := by
        rintro rfl
        cases named
      rw [List.cons_append, List.singleton_append, Json.readChars.eq_def]
      split
      next shape => cases shape
      next shape => exact absurd (List.cons.inj shape).1 (by decide)
      next shape => exact absurd (List.cons.inj (List.cons.inj shape).2).1 other
      next shape =>
        obtain ⟨rfl, rfl⟩ := List.cons.inj (List.cons.inj shape).2
        rw [named]
      next apart shape =>
        obtain ⟨rfl, rfl⟩ := List.cons.inj shape
        exact (apart e rest rfl rfl).elim
  | code control =>
      obtain ⟨a, b, d, e, digits, unit⟩ := unit?_hexDigits (n := c.toNat) (by omega)
      obtain ⟨high, low⟩ := not_surrogate c
      simp [digits, Json.readChars, unit, high, low, Char.ofNat_toNat]
  | plain quote backslash visible =>
      rw [List.singleton_append, Json.readChars.eq_def]
      split
      next shape => cases shape
      next shape => exact absurd (List.cons.inj shape).1 quote
      next shape => exact absurd (List.cons.inj shape).1 backslash
      next shape => exact absurd (List.cons.inj shape).1 backslash
      next shape =>
        obtain ⟨rfl, rfl⟩ := List.cons.inj shape
        rw [if_neg (not_or.mpr ⟨visible, backslash⟩)]

theorem readChars_escapeChar (c : Char) (rest : List Char) :
    readChars (escapeChar c ++ rest) = (readChars rest).map fun (cs, r) => (c :: cs, r) :=
  (escape_escapeChar c).readChars rest

theorem readChars_append (cs rest : List Char) :
    readChars (cs.flatMap escapeChar ++ '"' :: rest) = some (cs, rest) := by
  induction cs with
  | nil => simp [readChars]
  | cons c more ih =>
      rw [List.flatMap_cons, List.append_assoc, readChars_escapeChar, ih]
      rfl

theorem writeText_injective {cs ds : List Char} (h : writeText cs = writeText ds) : cs = ds := by
  have quoted : cs.flatMap escapeChar ++ ['"'] = ds.flatMap escapeChar ++ ['"'] :=
    (List.cons.inj h).2
  have read := readChars_append cs []
  rw [quoted, readChars_append ds []] at read
  exact (Prod.mk.inj (Option.some.inj read)).1.symm

theorem readLeaf_text (s : String) (rest : List Char) :
    readLeaf (writeText s.toList ++ rest) = some (.text s, rest) := by
  have chars := readChars_append s.toList rest
  simp only [writeText, List.cons_append, List.append_assoc, List.nil_append, readLeaf, chars,
    Option.map_some, String.ofList_toList]

end ClientRegistry.Json
