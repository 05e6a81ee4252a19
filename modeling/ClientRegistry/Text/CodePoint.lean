/-! Code points. Character classes are given as ascending lists of inclusive ranges of them. A text
of code points may hold halves of surrogate pairs, which are no characters. -/

namespace ClientRegistry.Text

/-- A code point belongs to a table when some range of it covers the point. -/
def covers (table : List (Nat × Nat)) (n : Nat) : Bool :=
  table.any fun r => r.1 ≤ n && n ≤ r.2

abbrev CodePoint := Fin 0x110000

namespace CodePoint

def ofNat (n : Nat) : CodePoint := Fin.ofNat 0x110000 n

def ofChar (c : Char) : CodePoint := ofNat c.toNat

def char? (p : CodePoint) : Option Char :=
  if p.val.isValidChar then some (Char.ofNat p.val) else none

theorem val_ofNat {n : Nat} (small : n < 0x110000) : (ofNat n).val = n :=
  Nat.mod_eq_of_lt small

@[simp] theorem val_ofChar (c : Char) : (ofChar c).val = c.toNat := by
  have valid : c.toNat < 0xD800 ∨ 0xDFFF < c.toNat ∧ c.toNat < 0x110000 := c.valid
  exact val_ofNat (by omega)

@[simp] theorem char?_ofChar (c : Char) : (ofChar c).char? = some c := by
  have valid : c.toNat.isValidChar := c.valid
  rw [char?, val_ofChar, if_pos valid, Char.ofNat_toNat]

end CodePoint

def points (cs : List Char) : List CodePoint := cs.map CodePoint.ofChar

/-- The characters of a text, unless it holds half a pair. -/
def chars? (ps : List CodePoint) : Option (List Char) := ps.mapM CodePoint.char?

theorem chars?_points (cs : List Char) : chars? (points cs) = some cs := by
  induction cs with
  | nil => rfl
  | cons c rest ih =>
      rw [chars?, points] at ih
      simp [chars?, points, ih]

theorem points_injective {cs ds : List Char} (same : points cs = points ds) : cs = ds := by
  have texts := chars?_points cs
  rw [same, chars?_points] at texts
  exact (Option.some.inj texts).symm

end ClientRegistry.Text
