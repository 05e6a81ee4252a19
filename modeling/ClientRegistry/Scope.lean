/-! Scope tokens: one or more visible ASCII characters other than the double quote and the
backslash. The check of a registration is `isAdmissible`, which looks at the characters only. -/

namespace ClientRegistry.Scope

def ranges : List (Nat × Nat) :=
  [(0x21, 0x21), (0x23, 0x5B), (0x5D, 0x7E)]

def isTokenChar (c : Char) : Bool :=
  ranges.any fun r => r.1 ≤ c.toNat && c.toNat ≤ r.2

/-- A scope token has at least one character. -/
def IsToken (cs : List Char) : Prop :=
  cs ≠ [] ∧ ∀ c ∈ cs, isTokenChar c

/-- Every character is one of a scope token. -/
def isAdmissible (cs : List Char) : Bool :=
  cs.all isTokenChar

theorem isToken_iff {cs : List Char} : IsToken cs ↔ cs ≠ [] ∧ isAdmissible cs = true := by
  simp [IsToken, isAdmissible]

end ClientRegistry.Scope
