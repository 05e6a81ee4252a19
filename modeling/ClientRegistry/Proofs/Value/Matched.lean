import Mathlib.Data.List.Perm.Basic

/-! Lists that can be paired off: to each entry of the one belongs an entry of the other, whatever
the order of both. Sets and dictionaries that are the same are paired off by their members and
entries, and so are the digests of these. -/

namespace ClientRegistry

variable {α β : Type} {r : α → β → Prop} {xs : List α} {ys zs : List β} {x : α} {y z : β}

/-- A rearrangement of the second list is related to the first entry by entry. -/
def Matched (r : α → β → Prop) (xs : List α) (ys : List β) : Prop :=
  ∃ zs, List.Forall₂ r xs zs ∧ zs.Perm ys

namespace Matched

theorem nil : Matched r [] [] := ⟨[], .nil, .refl _⟩

theorem cons (related : r x y) (rest : Matched r xs ys) : Matched r (x :: xs) (y :: ys) := by
  obtain ⟨zs, all, perm⟩ := rest
  exact ⟨y :: zs, .cons related all, perm.cons y⟩

theorem trans_perm (h : Matched r xs ys) (perm : ys.Perm zs) : Matched r xs zs := by
  obtain ⟨us, all, perm'⟩ := h
  exact ⟨us, all, perm'.trans perm⟩

theorem length_eq (h : Matched r xs ys) : xs.length = ys.length := by
  obtain ⟨zs, all, perm⟩ := h
  rw [all.length_eq, perm.length_eq]

theorem exists_right (h : Matched r xs ys) (member : x ∈ xs) : ∃ y ∈ ys, r x y := by
  obtain ⟨zs, all, perm⟩ := h
  induction all generalizing ys with
  | nil => cases member
  | @cons a b as bs related _ ih =>
      rcases List.mem_cons.mp member with rfl | later
      · exact ⟨b, perm.subset List.mem_cons_self, related⟩
      · obtain ⟨y, listed, found⟩ := ih later (.refl bs)
        exact ⟨y, perm.subset (List.mem_cons_of_mem b listed), found⟩

/-- Pairs are turned round and mapped together. -/
theorem flip_of {s : β → α → Prop} (h : Matched r xs ys)
    (turned : ∀ x ∈ xs, ∀ y ∈ ys, r x y → s y x) : Matched s ys xs := by
  obtain ⟨zs, all, perm⟩ := h
  have turned' : List.Forall₂ s zs xs := by
    have members : ∀ y ∈ zs, y ∈ ys := fun y listed => perm.subset listed
    clear perm
    induction all with
    | nil => exact .nil
    | @cons a b as bs related _ ih =>
        rw [List.forall_mem_cons] at turned members
        exact .cons (turned.1 b members.1 related)
          (ih (fun x member => turned.2 x member) members.2)
  obtain ⟨us, all', perm'⟩ := List.perm_comp_forall₂ perm.symm turned'
  exact ⟨us, all', perm'⟩

theorem map_of {γ δ : Type} {s : γ → δ → Prop} {f : α → γ} {g : β → δ} (h : Matched r xs ys)
    (mapped : ∀ x ∈ xs, ∀ y ∈ ys, r x y → s (f x) (g y)) :
    Matched s (xs.map f) (ys.map g) := by
  obtain ⟨zs, all, perm⟩ := h
  refine ⟨zs.map g, ?_, perm.map g⟩
  have members : ∀ y ∈ zs, y ∈ ys := fun y listed => perm.subset listed
  clear perm
  induction all with
  | nil => exact .nil
  | @cons a b as bs related _ ih =>
      rw [List.forall_mem_cons] at mapped members
      exact .cons (mapped.1 b members.1 related)
        (ih (fun x member => mapped.2 x member) members.2)

/-- What is kept of each pair is kept of both. -/
theorem filter_of {p : α → Bool} {q : β → Bool} (h : Matched r xs ys)
    (kept : ∀ x ∈ xs, ∀ y ∈ ys, r x y → p x = q y) : Matched r (xs.filter p) (ys.filter q) := by
  obtain ⟨zs, all, perm⟩ := h
  refine ⟨zs.filter q, ?_, perm.filter q⟩
  have members : ∀ y ∈ zs, y ∈ ys := fun y listed => perm.subset listed
  clear perm
  induction all with
  | nil => exact .nil
  | @cons a b as bs related _ ih =>
      rw [List.forall_mem_cons] at kept members
      have rest := ih (fun x member => kept.2 x member) members.2
      rw [List.filter_cons, List.filter_cons, kept.1 b members.1 related]
      split
      · exact .cons related rest
      · exact rest

theorem trans_of {γ : Type} {s : β → γ → Prop} {t : α → γ → Prop} {zs : List γ}
    (first : Matched r xs ys) (second : Matched s ys zs)
    (composed : ∀ x ∈ xs, ∀ y z, r x y → s y z → t x z) : Matched t xs zs := by
  obtain ⟨us, all, perm⟩ := first
  obtain ⟨vs, all', perm'⟩ := second
  obtain ⟨ws, moved, perm''⟩ := List.perm_comp_forall₂ perm all'
  refine ⟨ws, ?_, perm''.trans perm'⟩
  clear perm perm' perm'' all'
  induction all generalizing ws with
  | nil =>
      cases moved
      exact .nil
  | @cons a b as bs related _ ih =>
      rw [List.forall_mem_cons] at composed
      obtain ⟨c, cs, related', moved', rfl⟩ := List.forall₂_cons_left_iff.mp moved
      exact .cons (composed.1 b c related related') (ih composed.2 cs moved')

/-- Lists of one length are paired off if every entry of the first has a partner, and no two
entries share one. -/
theorem of_injective (length : xs.length = ys.length) (total : ∀ x ∈ xs, ∃ y ∈ ys, r x y)
    (apart : xs.Pairwise fun x x' => ∀ y ∈ ys, r x y → ¬r x' y) : Matched r xs ys := by
  induction xs generalizing ys with
  | nil =>
      rw [List.length_eq_zero_iff.mp length.symm]
      exact .nil
  | cons x rest ih =>
      rw [List.forall_mem_cons] at total
      rw [List.pairwise_cons] at apart
      obtain ⟨⟨y, member, related⟩, others⟩ := total
      obtain ⟨before, after, rfl⟩ := List.append_of_mem member
      have remaining : Matched r rest (before ++ after) := by
        refine ih ?_ (fun x' listed => ?_) (apart.2.imp fun distinct y' member' => ?_)
        · simp only [List.length_cons, List.length_append] at length ⊢
          omega
        · obtain ⟨y', member', related'⟩ := others x' listed
          rcases List.mem_append.mp member' with first | second
          · exact ⟨y', List.mem_append_left _ first, related'⟩
          · rcases List.mem_cons.mp second with rfl | second
            · exact absurd related' (apart.1 x' listed y' member related)
            · exact ⟨y', List.mem_append_right _ second, related'⟩
        · refine distinct y' ?_
          rcases List.mem_append.mp member' with first | second
          · exact List.mem_append_left _ first
          · exact List.mem_append_right _ (List.mem_cons_of_mem y second)
      exact (remaining.cons related).trans_perm List.perm_middle.symm

end Matched

/-- In a list that is related entry by entry one entry is replaced by another that may stand in
its place. -/
theorem forall₂_replaced (all : List.Forall₂ r xs zs) (member : y ∈ zs)
    (stands : ∀ x ∈ xs, r x y → r x z) :
    ∃ us, List.Forall₂ r xs us ∧ (y :: us).Perm (z :: zs) := by
  induction all with
  | nil => cases member
  | @cons a b as bs related rest ih =>
      rw [List.forall_mem_cons] at stands
      rcases List.mem_cons.mp member with rfl | later
      · exact ⟨z :: bs, .cons (stands.1 related) rest, .swap z y bs⟩
      · obtain ⟨us, all, perm⟩ := ih later stands.2
        refine ⟨b :: us, .cons related all, ?_⟩
        calc y :: b :: us
          _ |>.Perm (b :: y :: us) := .swap b y us
          _ |>.Perm (b :: z :: bs) := perm.cons b
          _ |>.Perm (z :: b :: bs) := .swap z b bs

/-- An entry may be paired with any partner, if entries that share one partner share all. -/
theorem Matched.tail (h : Matched r (x :: xs) (y :: ys))
    (shared : ∀ x' ∈ xs, ∀ z ∈ y :: ys, r x z → r x' y → r x' z) : Matched r xs ys := by
  obtain ⟨zs, all, perm⟩ := h
  obtain ⟨z, rest, first, all', rfl⟩ := List.forall₂_cons_left_iff.mp all
  rcases List.mem_cons.mp (perm.symm.subset List.mem_cons_self) with rfl | member
  · exact ⟨rest, all', perm.cons_inv⟩
  · obtain ⟨us, replaced, perm'⟩ :=
      forall₂_replaced all' member fun x' listed =>
        shared x' listed z (perm.subset List.mem_cons_self) first
    exact ⟨us, replaced, (perm'.trans perm).cons_inv⟩

end ClientRegistry
