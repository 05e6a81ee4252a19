import ClientRegistry.Client.Listing

/-! The order of texts by code points is total, so a set of texts has one sorted listing, which
ascends strictly. -/

namespace ClientRegistry

namespace Text

variable {a b : Char} {s t u : List Char}

theorem before_cons : before (a :: s) (b :: t) = true ↔
    a.toNat < b.toNat ∨ a = b ∧ before s t = true := by
  rw [before]
  split
  next same => simp [same]
  next other => simp [other]

theorem before_trans (first : before s t = true) (second : before t u = true) :
    before s u = true := by
  induction s generalizing t u with
  | nil => rfl
  | cons a s ih =>
      cases t with
      | nil => cases first
      | cons b t =>
          cases u with
          | nil => cases second
          | cons c u =>
              rw [before_cons] at first second ⊢
              rcases first with less | ⟨rfl, rest⟩
              · rcases second with less' | ⟨rfl, _⟩
                · exact .inl (Nat.lt_trans less less')
                · exact .inl less
              · rcases second with less' | ⟨rfl, rest'⟩
                · exact .inl less'
                · exact .inr ⟨rfl, ih rest rest'⟩

theorem before_total (s t : List Char) : before s t = true ∨ before t s = true := by
  induction s generalizing t with
  | nil => exact .inl rfl
  | cons a s ih =>
      cases t with
      | nil => exact .inr rfl
      | cons b t =>
          rw [before_cons, before_cons]
          rcases Nat.lt_trichotomy a.toNat b.toNat with less | same | more
          · exact .inl (.inl less)
          · have eq := Char.toNat_inj.mp same
            exact (ih t).imp (fun rest => .inr ⟨eq, rest⟩) (fun rest => .inr ⟨eq.symm, rest⟩)
          · exact .inr (.inl more)

theorem before_antisymm (first : before s t = true) (second : before t s = true) : s = t := by
  induction s generalizing t with
  | nil =>
      cases t with
      | nil => rfl
      | cons b t => cases second
  | cons a s ih =>
      cases t with
      | nil => cases first
      | cons b t =>
          rcases before_cons.mp first with less | ⟨rfl, rest⟩
          · rcases before_cons.mp second with less' | ⟨rfl, _⟩
            · exact absurd less' (Nat.lt_asymm less)
            · exact absurd less (Nat.lt_irrefl _)
          · rcases before_cons.mp second with less' | ⟨_, rest'⟩
            · exact absurd less' (Nat.lt_irrefl _)
            · rw [ih rest rest']

/-- Different texts stand in the order of their characters. -/
theorem lt_of_before (first : before s t = true) (ne : s ≠ t) : s < t := by
  induction s generalizing t with
  | nil =>
      cases t with
      | nil => exact absurd rfl ne
      | cons b t => exact List.nil_lt_cons b t
  | cons a s ih =>
      cases t with
      | nil => cases first
      | cons b t =>
          rw [List.cons_lt_cons_iff]
          rcases before_cons.mp first with less | ⟨rfl, rest⟩
          · exact .inl (Char.lt_def.mpr less)
          · exact .inr ⟨rfl, ih rest fun same => ne (by rw [same])⟩

end Text

namespace Listing

variable {xs : List String}

theorem pairwise_sortTexts (xs : List String) :
    (sortTexts xs).Pairwise fun s t => Text.before s.toList t.toList = true := by
  refine @List.pairwise_mergeSort String (fun s t => Text.before s.toList t.toList)
    (fun _ _ _ => Text.before_trans) (fun s t => ?_) xs
  rw [Bool.or_eq_true]
  exact Text.before_total s.toList t.toList

@[simp] theorem sortTexts_sortTexts (xs : List String) : sortTexts (sortTexts xs) = sortTexts xs :=
  List.mergeSort_of_pairwise (pairwise_sortTexts xs)

/-- Without repetitions every text comes strictly before the next. -/
theorem ascending_sortTexts (once : xs.Nodup) : (sortTexts xs).Pairwise (· < ·) := by
  have distinct : (sortTexts xs).Pairwise (· ≠ ·) := (List.mergeSort_perm xs _).nodup_iff.mpr once
  refine (pairwise_sortTexts xs).imp₂ (fun s t first ne => ?_) distinct
  exact String.lt_iff.mpr (Text.lt_of_before first fun same => ne (String.toList_inj.mp same))

end Listing

end ClientRegistry
