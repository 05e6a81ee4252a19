import ClientRegistry.Proofs.Json.Text
import ClientRegistry.Proofs.Number.Digits

/-! Where a JSON value ends. A scan that counts brackets and knows strings finds the end of every
value that was written, so that parts which are written one after the other can be told apart. -/

namespace ClientRegistry.Json

/-- Where a scan stands: outside of strings, in one, or after a backslash in one; with the number
of brackets that are open. -/
inductive Scan where
  | outside (depth : Nat)
  | inside (depth : Nat)
  | escaped (depth : Nat)

namespace Scan

/-- A comma or a closing bracket ends the value in front of it if no bracket is open. -/
def step : Scan → Char → Option Scan
  | outside depth, c =>
    if c = '"' then some (inside depth)
    else if c = '[' ∨ c = '{' then some (outside (depth + 1))
    else if c = ']' ∨ c = '}' then
      if depth = 0 then none else some (outside (depth - 1))
    else if c = ',' ∧ depth = 0 then none
    else some (outside depth)
  | inside depth, c =>
    if c = '"' then some (outside depth)
    else if c = '\\' then some (escaped depth)
    else some (inside depth)
  | escaped depth, _ => some (inside depth)

def run (s : Scan) : List Char → Option Scan
  | [] => some s
  | c :: cs => (s.step c).bind fun next => run next cs

variable {s next : Scan} {c d : Char} {p q t : List Char} {depth : Nat}

theorem run_append (s : Scan) (p q : List Char) :
    s.run (p ++ q) = (s.run p).bind fun next => next.run q := by
  induction p generalizing s with
  | nil => rfl
  | cons c p ih =>
      rw [List.cons_append, run, run]
      cases s.step c with
      | none => rfl
      | some next => exact ih next

theorem run_cons (h : s.step c = some next) : s.run (c :: t) = next.run t := by
  rw [run, h, Option.bind_some]

/-- Two values are told apart from what follows them by the character that ends them. -/
theorem eq_of_append {r r' : List Char} (hp : s.run p = some (outside 0))
    (hq : s.run q = some (outside 0)) (ends : step (outside 0) c = none)
    (ends' : step (outside 0) d = none) (h : p ++ c :: r = q ++ d :: r') :
    p = q ∧ c :: r = d :: r' := by
  induction p generalizing s q with
  | nil =>
      cases hp
      cases q with
      | nil => exact ⟨rfl, h⟩
      | cons x q =>
          obtain ⟨rfl, -⟩ := List.cons.inj h
          rw [run, ends] at hq
          cases hq
  | cons x p ih =>
      cases q with
      | nil =>
          cases hq
          obtain ⟨rfl, -⟩ := List.cons.inj h
          rw [run, ends'] at hp
          cases hp
      | cons y q =>
          obtain ⟨rfl, rest⟩ := List.cons.inj h
          rw [run, Option.bind_eq_some_iff] at hp hq
          obtain ⟨next, stepped, hp⟩ := hp
          obtain ⟨next', stepped', hq⟩ := hq
          rw [stepped] at stepped'
          cases stepped'
          obtain ⟨rfl, tail⟩ := ih hp hq rest
          exact ⟨rfl, tail⟩

end Scan

open Scan

/-- Texts that leave as many brackets open as they find, and no string. -/
def Closed (t : List Char) : Prop := ∀ depth, (outside depth).run t = some (outside depth)

/-- Characters that mean nothing to a scan outside of strings. -/
def isBare (c : Char) : Bool := !(['"', '[', '{', ']', '}', ','].contains c)

theorem Closed.append {p q : List Char} (hp : Closed p) (hq : Closed q) : Closed (p ++ q) := by
  intro depth
  rw [run_append, hp depth]
  exact hq depth

theorem step_bare {c : Char} (h : isBare c = true) (depth : Nat) :
    step (outside depth) c = some (outside depth) := by
  simp only [isBare, Bool.not_eq_true', List.contains_eq_mem, decide_eq_false_iff_not, List.mem_cons,
    List.not_mem_nil, or_false, not_or] at h
  simp [step, h]

theorem closed_of_bare {t : List Char} (h : ∀ c ∈ t, isBare c = true) : Closed t := by
  intro depth
  induction t with
  | nil => rfl
  | cons c t ih =>
      rw [List.forall_mem_cons] at h
      rw [run_cons (step_bare h.1 depth), ih h.2]

theorem digitChar_plain : ∀ n < 16, Nat.digitChar n ≠ '"' ∧ Nat.digitChar n ≠ '\\' := by
  decide

theorem step_inside {c : Char} (quote : c ≠ '"') (backslash : c ≠ '\\') (depth : Nat) :
    step (inside depth) c = some (inside depth) := by
  rw [step, if_neg quote, if_neg backslash]

theorem run_hexDigits (width n depth : Nat) :
    (inside depth).run (Text.hexDigits width n) = some (inside depth) := by
  induction width generalizing n with
  | zero => rfl
  | succ width ih =>
      obtain ⟨quote, backslash⟩ := digitChar_plain (n % 16) (Nat.mod_lt n (by decide))
      rw [Text.hexDigits, run_append, ih, Option.bind_some,
        run_cons (step_inside quote backslash depth)]
      rfl

/-- An escape leaves the scan in the string. -/
theorem run_escape {c : Char} {cs : List Char} (h : Escape c cs) (depth : Nat) :
    (inside depth).run cs = some (inside depth) := by
  cases h with
  | short e named => rfl
  | code control =>
      rw [run_cons rfl, run_cons rfl]
      exact run_hexDigits 4 c.toNat depth
  | plain quote backslash visible =>
      rw [run_cons (step_inside quote backslash depth)]
      rfl

theorem run_escaped (cs : List Char) (depth : Nat) :
    (inside depth).run (cs.flatMap escapeChar) = some (inside depth) := by
  induction cs with
  | nil => rfl
  | cons c cs ih =>
      rw [List.flatMap_cons, run_append, run_escape (escape_escapeChar c)]
      exact ih

theorem closed_writeText (cs : List Char) : Closed (writeText cs) := by
  intro depth
  rw [writeText, List.cons_append, run_cons rfl, run_append, run_escaped]
  rfl

theorem isBare_of_isDigit {c : Char} (h : Numeral.isDigit c = true) : isBare c = true := by
  by_contra mark
  simp only [isBare, Bool.not_eq_true', List.contains_eq_mem, decide_eq_false_iff_not, not_not,
    List.mem_cons, List.not_mem_nil, or_false] at mark
  rcases mark with rfl | rfl | rfl | rfl | rfl | rfl <;> cases h

theorem isBare_of_mem_digitChars {n : Nat} :
    ∀ c ∈ RealLayout.digitChars n, isBare c = true :=
  fun _ member => isBare_of_isDigit (Numeral.isDigit_of_mem_digitChars member)

theorem isBare_of_mem_zeros {n : Nat} : ∀ c ∈ List.replicate n '0', isBare c = true := by
  intro c member
  rw [(List.mem_replicate.mp member).2]
  rfl

theorem isBare_of_mem_positional {ds : List Char} (point : Int)
    (digits : ∀ c ∈ ds, isBare c = true) : ∀ c ∈ RealLayout.positional ds point, isBare c = true := by
  simp only [RealLayout.positional]
  split
  · simp only [List.forall_mem_append, List.forall_mem_cons]
    exact ⟨⟨⟨rfl, rfl, by simp⟩, isBare_of_mem_zeros⟩, digits⟩
  split
  · rw [List.forall_mem_append, List.forall_mem_cons]
    exact ⟨fun c member => digits c (List.mem_of_mem_take member), rfl,
      fun c member => digits c (List.mem_of_mem_drop member)⟩
  · simp only [List.forall_mem_append, List.forall_mem_cons]
    exact ⟨⟨digits, isBare_of_mem_zeros⟩, rfl, rfl, by simp⟩

theorem isBare_of_mem_exponentText (width : Nat) (e : Int) :
    ∀ c ∈ RealLayout.exponentText width e, isBare c = true := by
  rw [RealLayout.exponentText, List.forall_mem_cons]
  refine ⟨by split <;> rfl, fun c member => ?_⟩
  exact isBare_of_isDigit (Numeral.isDigit_of_mem_padLeft member)

theorem isBare_of_mem_scientific (layout : RealLayout) {ds : List Char} (point : Int)
    (digits : ∀ c ∈ ds, isBare c = true) :
    ∀ c ∈ layout.scientific ds point, isBare c = true := by
  unfold RealLayout.scientific
  rw [List.forall_mem_append, List.forall_mem_cons]
  refine ⟨?_, rfl, isBare_of_mem_exponentText _ _⟩
  split
  · exact digits
  · exact digits
  · rw [List.forall_mem_cons, List.forall_mem_cons]
    rw [List.forall_mem_cons] at digits
    exact ⟨digits.1, rfl, digits.2⟩

theorem isBare_of_mem_writeReal (x : Binary64) : ∀ c ∈ writeReal x, isBare c = true := by
  cases x with
  | finite negative m e =>
      have body : ∀ c ∈ (if m = 0 then ['0', '.', '0'] else
          RealLayout.json.write (ShortDecimal.ofDouble m e)), isBare c = true := by
        split
        · exact List.all_eq_true.mp rfl
        · rw [RealLayout.write]
          split
          · exact isBare_of_mem_positional _ isBare_of_mem_digitChars
          · exact isBare_of_mem_scientific _ _ isBare_of_mem_digitChars
      rw [writeReal, Binary64.write]
      cases negative with
      | true => exact List.forall_mem_cons.mpr ⟨rfl, body⟩
      | false => exact body
  | _ => exact List.all_eq_true.mp rfl

theorem isBare_of_mem_intChars (n : Int) : ∀ c ∈ Printed.intChars n, isBare c = true := by
  simp only [Printed.intChars]
  split
  · exact List.forall_mem_cons.mpr ⟨rfl, isBare_of_mem_digitChars⟩
  · exact isBare_of_mem_digitChars

theorem closed_bracketed {opening closing : Char} {t : List Char}
    (opens : ∀ depth, step (outside depth) opening = some (outside (depth + 1)))
    (closes : ∀ depth, step (outside (depth + 1)) closing = some (outside depth))
    (inner : ∀ depth, (outside (depth + 1)).run t = some (outside (depth + 1))) :
    Closed (opening :: t ++ [closing]) := by
  intro depth
  rw [List.cons_append, run_cons (opens depth), run_append, inner, Option.bind_some,
    run_cons (closes depth)]
  rfl

theorem run_separated {parts : List (List Char)} (closed : ∀ p ∈ parts, Closed p) (depth : Nat) :
    (outside (depth + 1)).run (separated parts) = some (outside (depth + 1)) := by
  induction parts with
  | nil => rfl
  | cons p parts ih =>
      rw [List.forall_mem_cons] at closed
      cases parts with
      | nil => exact closed.1 (depth + 1)
      | cons q parts =>
          rw [separated, run_append, closed.1, Option.bind_some, run_cons rfl]
          · exact ih closed.2
          · exact List.cons_ne_nil q parts

theorem closed_member (cs : List Char) {u : List Char} (h : Closed u) :
    Closed (writeText cs ++ ':' :: u) := by
  have colon : Closed [':'] := closed_of_bare (List.forall_mem_singleton.mpr rfl)
  exact (closed_writeText cs).append (colon.append h)

theorem closed_writeToken {t : List Char} (h : Closed t) : Closed (writeToken t) := by
  have shape : writeToken t = '{' :: (writeText "value".toList ++ ':' :: t) ++ ['}'] := rfl
  rw [shape]
  exact closed_bracketed (fun _ => rfl) (fun _ => rfl) fun depth => closed_member _ h (depth + 1)

theorem closed_brackets {parts : List (List Char)} (closed : ∀ p ∈ parts, Closed p) :
    Closed ('[' :: separated parts ++ [']']) :=
  closed_bracketed (fun _ => rfl) (fun _ => rfl) (run_separated closed)

theorem closed_braces {parts : List (List Char)} (closed : ∀ p ∈ parts, Closed p) :
    Closed ('{' :: separated parts ++ ['}']) :=
  closed_bracketed (fun _ => rfl) (fun _ => rfl) (run_separated closed)

theorem writeArray_eq_ok {xs : List Value} {t : List Char} (h : writeArray xs = .ok t) :
    ∃ parts, writeList xs = .ok parts ∧ t = '[' :: separated parts ++ [']'] := by
  rw [writeArray] at h
  split at h
  next parts written =>
    cases h
    exact ⟨parts, written, rfl⟩
  · cases h

theorem write_dict_eq_ok {es : Options} {t : List Char} (h : write (.dict es) = .ok t) :
    ∃ parts, writeEntries es = .ok parts ∧ t = '{' :: separated parts ++ ['}'] := by
  rw [write] at h
  split at h
  next parts written =>
    cases h
    exact ⟨parts, written, rfl⟩
  · cases h

theorem writeList_cons_eq_ok {x : Value} {xs : List Value} {parts : List (List Char)}
    (h : writeList (x :: xs) = .ok parts) :
    ∃ t ts, write x = .ok t ∧ writeList xs = .ok ts ∧ parts = t :: ts := by
  rw [writeList] at h
  split at h
  next t ts first rest =>
    cases h
    exact ⟨t, ts, first, rest, rfl⟩
  · cases h
  · cases h

theorem writeEntries_cons_eq_ok {k v : Value} {es : Options} {parts : List (List Char)}
    (h : writeEntries ((k, v) :: es) = .ok parts) : ∃ t u us, keyText k = .ok t ∧
      write v = .ok u ∧ writeEntries es = .ok us ∧ parts = (writeText t ++ ':' :: u) :: us := by
  rw [writeEntries] at h
  split at h
  next t u us key value rest =>
    cases h
    exact ⟨t, u, us, key, value, rest, rfl⟩
  · cases h
  · cases h
  · cases h

theorem length_writeEntries {es : Options} {parts : List (List Char)}
    (h : writeEntries es = .ok parts) : parts.length = es.length := by
  induction es generalizing parts with
  | nil =>
      rw [writeEntries] at h
      cases h
      rfl
  | cons e es ih =>
      obtain ⟨t, u, us, -, -, rest, rfl⟩ := writeEntries_cons_eq_ok h
      rw [List.length_cons, List.length_cons, ih rest]

mutual

/-- Every JSON text closes what it opens. -/
theorem closed_write : ∀ (v : Value) {t : List Char}, write v = .ok t → Closed t
  | .null, _, h => by
      rw [write] at h
      cases h
      exact closed_of_bare (List.all_eq_true.mp rfl)
  | .bool b, _, h => by
      rw [write] at h
      cases h
      cases b <;> exact closed_of_bare (List.all_eq_true.mp rfl)
  | .int n, _, h => by
      rw [write] at h
      cases h
      exact closed_of_bare (isBare_of_mem_intChars n)
  | .real x, _, h => by
      rw [write] at h
      cases h
      exact closed_of_bare (isBare_of_mem_writeReal x)
  | .text s, _, h => by
      rw [write] at h
      cases h
      exact closed_writeText s.toList
  | .bytes bs, _, h => by
      rw [write] at h
      split at h
      · cases h
        exact closed_writeText _
      · cases h
  | .moment m, _, h => by
      rw [write] at h
      cases h
      exact closed_writeText _
  | .token _ name, _, h => by
      rw [write] at h
      split at h
      next written =>
        cases h
        exact closed_writeToken (closed_write name written)
      · cases h
  | .bag _ _, _, h => by
      rw [write] at h
      cases h
  | .list xs, _, h | .tuple xs, _, h | .set xs, _, h | .frozen xs, _, h => by
      rw [write] at h
      obtain ⟨parts, written, rfl⟩ := writeArray_eq_ok h
      exact closed_brackets (closed_writeList xs written)
  | .dict es, _, h => by
      obtain ⟨parts, written, rfl⟩ := write_dict_eq_ok h
      exact closed_braces (closed_writeEntries es written)

theorem closed_writeList : ∀ (xs : List Value) {parts : List (List Char)},
    writeList xs = .ok parts → ∀ p ∈ parts, Closed p
  | [], _, h => by
      rw [writeList] at h
      cases h
      exact fun p member => absurd member List.not_mem_nil
  | x :: xs, _, h => by
      obtain ⟨t, ts, first, rest, rfl⟩ := writeList_cons_eq_ok h
      exact List.forall_mem_cons.mpr ⟨closed_write x first, closed_writeList xs rest⟩

theorem closed_writeEntries : ∀ (es : Options) {parts : List (List Char)},
    writeEntries es = .ok parts → ∀ p ∈ parts, Closed p
  | [], _, h => by
      rw [writeEntries] at h
      cases h
      exact fun p member => absurd member List.not_mem_nil
  | (k, v) :: es, _, h => by
      obtain ⟨t, u, us, -, value, rest, rfl⟩ := writeEntries_cons_eq_ok h
      exact List.forall_mem_cons.mpr
        ⟨closed_member t (closed_write v value), closed_writeEntries es rest⟩

end

/-- As many closed parts are told apart in a text that lists them. -/
theorem separated_inj {ps qs : List (List Char)} {r r' : List Char} {closing : Char}
    (hp : ∀ p ∈ ps, Closed p) (hq : ∀ q ∈ qs, Closed q) (count : ps.length = qs.length)
    (ends : step (outside 0) closing = none)
    (h : separated ps ++ closing :: r = separated qs ++ closing :: r') : ps = qs := by
  induction ps generalizing qs with
  | nil => exact (List.length_eq_zero_iff.mp count.symm).symm
  | cons p ps ih =>
      cases qs with
      | nil => cases count
      | cons q qs =>
          rw [List.forall_mem_cons] at hp hq
          have others := Nat.succ.inj count
          cases ps with
          | nil =>
              cases qs with
              | nil => rw [(eq_of_append (hp.1 0) (hq.1 0) ends ends h).1]
              | cons => cases others
          | cons p' ps =>
              cases qs with
              | nil => cases others
              | cons q' qs =>
                  have comma : step (outside 0) ',' = none := rfl
                  simp only [separated, List.append_assoc, List.cons_append] at h
                  obtain ⟨rfl, rest⟩ := eq_of_append (hp.1 0) (hq.1 0) comma comma h
                  rw [ih hp.2 hq.2 others (List.cons.inj rest).2]

end ClientRegistry.Json
