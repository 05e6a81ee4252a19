import ClientRegistry.Proofs.Store.Parts
import Mathlib.Data.Finset.Card

/-! Stores without cycles. Every cell ranks above the cells that it mentions, so there are at most
as many cells on a way as in the store: what is read does not depend on the fuel, and the cells
that a copy gathers are closed. -/

namespace ClientRegistry.Store

variable {s s' : Store} {rank : Address → Nat} {a b : Address} {x : Shared}

/-- A cell mentions cells of the store only, and only cells that rank below it. -/
def RankedBy (s : Store) (rank : Address → Nat) : Prop :=
  ∀ a b, s.Mentions a b → b < s.length ∧ rank b < rank a

def Ranked (s : Store) : Prop := ∃ rank, s.RankedBy rank

/-- Ranks can be counted: no cell has more cells below it than there are. -/
theorem Ranked.bounded (h : s.Ranked) :
    ∃ rank, s.RankedBy rank ∧ ∀ a < s.length, rank a < s.length := by
  obtain ⟨rank, ranked⟩ := h
  let below := fun a => (Finset.range s.length).filter fun b => rank b < rank a
  refine ⟨fun a => (below a).card, fun a b mentions => ?_, fun a inside => ?_⟩
  · obtain ⟨inside, less⟩ := ranked a b mentions
    refine ⟨inside, Finset.card_lt_card (Finset.ssubset_iff_of_subset ?_ |>.mpr ⟨b, ?_, ?_⟩)⟩
    · intro c member
      simp only [below, Finset.mem_filter] at member ⊢
      exact ⟨member.1, Nat.lt_trans member.2 less⟩
    · simpa [below] using ⟨inside, less⟩
    · simp [below]
  · have proper : below a ⊂ Finset.range s.length :=
      Finset.ssubset_iff_of_subset (Finset.filter_subset _ _) |>.mpr
        ⟨a, Finset.mem_range.mpr inside, by simp⟩
    simpa using Finset.card_lt_card proper

/-- Two stores that agree on a closed set of cells are read alike there. -/
theorem readWithin_congr {P : Address → Prop}
    (closed : ∀ a b, P a → s.Mentions a b → P b ∧ rank b < rank a)
    (same : ∀ a, P a → a < s.length ∧ a < s'.length ∧ s'.cellAt a = s.cellAt a)
    {fuel fuel' : Nat} (known : ∀ a, x.address? = some a → P a ∧ rank a < fuel ∧ rank a < fuel') :
    s'.readWithin fuel' x = s.readWithin fuel x := by
  induction fuel generalizing fuel' x with
  | zero =>
      cases x with
      | leaf v => cases fuel' <;> rfl
      | cell a => exact absurd (known a rfl).2.1 (Nat.not_lt_zero _)
      | bag kind a => exact absurd (known a rfl).2.1 (Nat.not_lt_zero _)
  | succ fuel ih =>
      -- a part ranks below its cell, so there is fuel for it on both sides
      have parts : ∀ a, P a → rank a < fuel + 1 → rank a < fuel' → ∀ y ∈ (s.cellAt a).parts,
          s'.readWithin (fuel' - 1) y = s.readWithin fuel y := by
        intro a inside less less' y member
        refine ih fun b at' => ?_
        obtain ⟨inside', lower⟩ := closed a b inside ⟨y, member, at'⟩
        exact ⟨inside', by omega, by omega⟩
      cases x with
      | leaf v => cases fuel' <;> rfl
      | cell a =>
          obtain ⟨inside, less, less'⟩ := known a rfl
          obtain ⟨present, present', cell⟩ := same a inside
          have parts := parts a inside less less'
          obtain ⟨m, rfl⟩ : ∃ m, fuel' = m + 1 := ⟨fuel' - 1, by omega⟩
          simp only [readWithin, getElem?_eq_cellAt present, getElem?_eq_cellAt present', cell]
          cases found : s.cellAt a with
          | leaf v => rfl
          | set xs => rfl
          | list xs =>
              rw [found] at parts
              exact congrArg Value.list (List.map_congr_left parts)
          | tuple xs =>
              rw [found] at parts
              exact congrArg Value.tuple (List.map_congr_left parts)
          | dict es =>
              rw [found] at parts
              have values : ∀ e ∈ es, s'.readWithin m e.2 = s.readWithin fuel e.2 :=
                fun e member => parts e.2 (List.mem_map_of_mem member)
              exact congrArg Value.dict
                (List.map_congr_left fun e member => by rw [values e member])
      | bag kind a =>
          obtain ⟨inside, less, less'⟩ := known a rfl
          obtain ⟨present, present', cell⟩ := same a inside
          have parts := parts a inside less less'
          obtain ⟨m, rfl⟩ : ∃ m, fuel' = m + 1 := ⟨fuel' - 1, by omega⟩
          simp only [readWithin, getElem?_eq_cellAt present, getElem?_eq_cellAt present', cell]
          cases found : s.cellAt a with
          | dict es =>
              rw [found] at parts
              have values : ∀ e ∈ es, s'.readWithin m e.2 = s.readWithin fuel e.2 :=
                fun e member => parts e.2 (List.mem_map_of_mem member)
              exact congrArg (Value.bag kind)
                (List.map_congr_left fun e member => by rw [values e member])
          | _ => rfl

variable {kept : Address → Bool}

theorem mem_reachWithin_self {fuel : Nat} (known : x.address? = some a) (copied : kept a = false)
    (some' : 0 < fuel) : a ∈ s.reachWithin kept fuel x := by
  obtain ⟨fuel, rfl⟩ : ∃ n, fuel = n + 1 := ⟨fuel - 1, by omega⟩
  cases x with
  | leaf v => cases known
  | cell b =>
      cases known
      simp [reachWithin, copied]
  | bag kind b =>
      cases known
      simp [reachWithin]

/-- The cells that are reached mention cells that are kept or reached. -/
theorem reachWithin_closed (ranked : s.RankedBy rank) {fuel : Nat}
    (room : ∀ c, x.address? = some c → rank c < fuel) (member : a ∈ s.reachWithin kept fuel x)
    (mentions : s.Mentions a b) : kept b = true ∨ b ∈ s.reachWithin kept fuel x := by
  induction fuel generalizing x with
  | zero => cases x <;> simp [reachWithin] at member
  | succ fuel ih =>
      have below : ∀ c, rank c < fuel + 1 →
          a ∈ c :: (s.cellAt c).parts.flatMap (fun y => s.reachWithin kept fuel y) →
          kept b = true ∨ b ∈ (s.cellAt c).parts.flatMap fun y => s.reachWithin kept fuel y := by
        intro c top member
        have room : ∀ y ∈ (s.cellAt c).parts, ∀ d, y.address? = some d → rank d < fuel := by
          intro y part d at'
          exact Nat.lt_of_lt_of_le (ranked c d ⟨y, part, at'⟩).2 (Nat.lt_succ_iff.mp top)
        rcases List.mem_cons.mp member with rfl | deeper
        · obtain ⟨y, part, at'⟩ := mentions
          cases keep : kept b with
          | true => exact .inl rfl
          | false =>
              have more := mem_reachWithin_self (s := s) at' keep
                (Nat.lt_of_le_of_lt (Nat.zero_le _) (room y part b at'))
              exact .inr (List.mem_flatMap.mpr ⟨y, part, more⟩)
        · obtain ⟨y, part, deeper⟩ := List.mem_flatMap.mp deeper
          exact (ih (room y part) deeper).imp_right fun more => List.mem_flatMap.mpr ⟨y, part, more⟩
      cases x with
      | leaf v => simp [reachWithin] at member
      | cell c =>
          simp only [reachWithin] at member ⊢
          split at member
          · cases member
          next copied =>
            rw [if_neg copied]
            exact (below c (room c rfl) member).imp_right (List.mem_cons_of_mem c)
      | bag kind c =>
          simp only [reachWithin] at member ⊢
          exact (below c (room c rfl) member).imp_right (List.mem_cons_of_mem c)

theorem mem_reach {xs : List Shared} :
    a ∈ s.reach kept xs ↔ ∃ x ∈ xs, a ∈ s.reachWithin kept s.length x := by
  rw [reach, List.mem_eraseDups, List.mem_flatMap]

/-- A cell that is reached is that of the value, or is mentioned on the way. -/
theorem mentioned_of_reachWithin {fuel : Nat} (member : a ∈ s.reachWithin kept fuel x) :
    x.address? = some a ∨ ∃ b, s.Mentions b a := by
  induction fuel generalizing x with
  | zero => cases x <;> simp [reachWithin] at member
  | succ fuel ih =>
      have below : ∀ c, a ∈ c :: (s.cellAt c).parts.flatMap (fun y => s.reachWithin kept fuel y) →
          some c = some a ∨ ∃ b, s.Mentions b a := by
        intro c member
        rcases List.mem_cons.mp member with rfl | deeper
        · exact .inl rfl
        · obtain ⟨y, part, deeper⟩ := List.mem_flatMap.mp deeper
          exact .inr ((ih deeper).elim (fun at' => ⟨c, y, part, at'⟩) id)
      cases x with
      | leaf v => simp [reachWithin] at member
      | cell c =>
          simp only [reachWithin] at member
          split at member
          · cases member
          · exact below c member
      | bag kind c =>
          simp only [reachWithin] at member
          exact below c member

/-- What is copied mentions what is kept or copied. -/
theorem Ranked.reach_closed (h : s.Ranked) {xs : List Shared}
    (known : ∀ x ∈ xs, ∀ a, x.address? = some a → a < s.length) (member : a ∈ s.reach kept xs)
    (mentions : s.Mentions a b) : kept b = true ∨ b ∈ s.reach kept xs := by
  obtain ⟨rank, ranked, bounded⟩ := h.bounded
  obtain ⟨x, given, reached⟩ := mem_reach.mp member
  have room := fun c at' => bounded c (known x given c at')
  exact (reachWithin_closed ranked room reached mentions).imp_right fun more =>
    mem_reach.mpr ⟨x, given, more⟩

theorem Ranked.lt_of_reach (h : s.Ranked) {xs : List Shared}
    (known : ∀ x ∈ xs, ∀ a, x.address? = some a → a < s.length) (member : a ∈ s.reach kept xs) :
    a < s.length := by
  obtain ⟨rank, ranked⟩ := h
  obtain ⟨x, given, reached⟩ := mem_reach.mp member
  rcases mentioned_of_reachWithin reached with at' | ⟨b, mentions⟩
  · exact known x given a at'
  · exact (ranked b a mentions).1

theorem mem_reach_self {xs : List Shared} (given : x ∈ xs) (known : x.address? = some a)
    (inside : a < s.length) (copied : kept a = false) : a ∈ s.reach kept xs :=
  mem_reach.mpr
    ⟨x, given, mem_reachWithin_self known copied (Nat.lt_of_le_of_lt (Nat.zero_le _) inside)⟩

end ClientRegistry.Store
