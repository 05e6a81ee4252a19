/-! UTF-8 read leniently, one byte at a time. A byte that fits nowhere and a sequence that breaks
off each yield one replacement character. -/

namespace ClientRegistry.Utf8

/-- A sequence that is not complete: the bytes it still needs, the bounds of the next one, and the
bits so far. -/
structure Sequence where
  needed : Nat
  low : Nat
  high : Nat
  bits : Nat

/-- What stands for bytes that are no text. -/
def replacement : Char := '\uFFFD'

/-- A byte at the start of a character: the character, or the sequence that it opens. -/
def start (b : Nat) : List Char × Option Sequence :=
  if b < 0x80 then ([Char.ofNat b], none)
  else if 0xC2 ≤ b ∧ b ≤ 0xDF then ([], some ⟨1, 0x80, 0xBF, b - 0xC0⟩)
  else if 0xE0 ≤ b ∧ b ≤ 0xEF then
    ([], some ⟨2, if b = 0xE0 then 0xA0 else 0x80, if b = 0xED then 0x9F else 0xBF, b - 0xE0⟩)
  else if 0xF0 ≤ b ∧ b ≤ 0xF4 then
    ([], some ⟨3, if b = 0xF0 then 0x90 else 0x80, if b = 0xF4 then 0x8F else 0xBF, b - 0xF0⟩)
  else ([replacement], none)

/-- What an unfinished sequence leaves behind. -/
def flush : Option Sequence → List Char
  | none => []
  | some _ => [replacement]

/-- The next byte: the characters that it completes, and the sequence that is open after it. -/
def feed (opened : Option Sequence) (b : Nat) : List Char × Option Sequence :=
  match opened with
  | none => start b
  | some s =>
    if s.low ≤ b ∧ b ≤ s.high then
      let bits := 64 * s.bits + (b - 0x80)
      if s.needed = 1 then ([Char.ofNat bits], none)
      else ([], some ⟨s.needed - 1, 0x80, 0xBF, bits⟩)
    else
      let (done, opened) := start b
      (replacement :: done, opened)

/-- The text of bytes that follow an open sequence. -/
def decodeFrom (opened : Option Sequence) : List Nat → List Char
  | [] => flush opened
  | b :: bs => (feed opened b).1 ++ decodeFrom (feed opened b).2 bs

example : decodeFrom none [0x61, 0xE2, 0x82, 0xAC] = ['a', '€'] := by decide
example : decodeFrom none [0xE2, 0x82, 0x61, 0xFF] = [replacement, 'a', replacement] := by decide

end ClientRegistry.Utf8
