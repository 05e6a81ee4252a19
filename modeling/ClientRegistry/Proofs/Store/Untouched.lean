import ClientRegistry.Proofs.Store.Leading

/-! What moves leave as it is. Only cells of drafts and cells that may be edited ever change, so
what is made of other cells reads as before, whoever has looked into it. -/

namespace ClientRegistry

namespace Store

variable {s : Store} {a b : Address}

/-- The cells that a bag is made of. -/
def bagCells (s : Store) (a : Address) : List Address := s.reach (fun _ => false) [.cell a]

theorem mem_bagCells_self (inside : a < s.length) : a ∈ s.bagCells a :=
  mem_reach_self (List.mem_singleton_self (Shared.cell a)) rfl inside rfl

theorem Ranked.bagCells_closed (h : s.Ranked) (inside : a < s.length) {c d : Address}
    (member : c ∈ s.bagCells a) (mentions : s.Mentions c d) : d ∈ s.bagCells a := by
  refine (h.reach_closed ?_ member mentions).resolve_left Bool.false_ne_true
  intro x listed b at'
  rw [List.mem_singleton.mp listed] at at'
  cases at'
  exact inside

theorem mentioned_of_bagCells (member : b ∈ s.bagCells a) : b = a ∨ ∃ c, s.Mentions c b := by
  obtain ⟨x, listed, reached⟩ := mem_reach.mp member
  rw [List.mem_singleton.mp listed] at reached
  exact (mentioned_of_reachWithin reached).imp_left fun same => (Option.some.inj same).symm

end Store

namespace Holding

variable {rights : Rights} {σ τ υ : Holding} {a root : Address}

/-- The second holding has the cells of the first, and no more drafts among them. Cells that are no
drafts are as they were, unless they can be edited and may be. -/
structure Leaves (rights : Rights) (σ τ : Holding) : Prop where
  length_le : σ.store.length ≤ τ.store.length
  keeps : σ.store.Keeps τ.store
  drafts : ∀ a < σ.store.length, τ.drafts a → σ.drafts a
  cells : ∀ a < σ.store.length, ¬σ.drafts a →
    ((σ.store.cellAt a).editable = true → ¬rights.edit a) →
    τ.store.cellAt a = σ.store.cellAt a

namespace Leaves

theorem refl (σ : Holding) : σ.Leaves rights σ :=
  ⟨Nat.le_refl _, .refl _, fun _ _ => id, fun _ _ _ _ => rfl⟩

theorem trans (first : σ.Leaves rights τ) (second : τ.Leaves rights υ) : σ.Leaves rights υ where
  length_le := Nat.le_trans first.length_le second.length_le
  keeps := first.keeps.trans second.keeps
  drafts a inside draft :=
    first.drafts a inside (second.drafts a (Nat.lt_of_lt_of_le inside first.length_le) draft)
  cells a inside plain spared := by
    have same := first.cells a inside plain spared
    rw [second.cells a (Nat.lt_of_lt_of_le inside first.length_le)
      (fun draft => plain (first.drafts a inside draft)) (same.symm ▸ spared), same]

end Leaves

theorem leaves_of_cellAt (length_le : σ.store.length ≤ τ.store.length)
    (same : ∀ a < σ.store.length, τ.store.cellAt a = σ.store.cellAt a)
    (drafts : ∀ a < σ.store.length, τ.drafts a → σ.drafts a) : σ.Leaves rights τ where
  length_le := length_le
  keeps a fixed := same a (Store.lt_of_fixed_cell fixed)
  drafts := drafts
  cells a inside _ _ := same a inside

theorem leaves_of_set {c : Cell} (editable : (σ.store.cellAt a).editable = true)
    (may : rights.edit a ∨ σ.drafts a) : σ.Leaves rights (σ.withStore (σ.store.set a c)) where
  length_le := Nat.le_of_eq List.length_set.symm
  keeps := Store.keeps_set editable c
  drafts _ _ := id
  cells b _ plain spared := by
    refine Store.cellAt_set_ne ?_ c
    rintro rfl
    exact may.elim (spared editable) plain

theorem Grounded.leaves_move (h : σ.Grounded) (m : Move rights σ τ) : σ.Leaves rights τ := by
  cases m with
  | forget fewer fewer' =>
      exact leaves_of_cellAt (Nat.le_refl _) (fun _ _ => rfl) fun a _ => fewer' a
  | lay lays => exact leaves_of_cellAt lays.length_le (fun _ => lays.cellAt) fun _ _ => id
  | gather held =>
      refine leaves_of_cellAt (by simp [withStore, draft]) ?_ ?_
      · exact fun a inside => Store.cellAt_append_left inside _
      · rintro a inside (old | rfl)
        · exact old
        · exact absurd inside (Nat.lt_irrefl _)
  | release draft => exact leaves_of_cellAt (Nat.le_refl _) (fun _ _ => rfl) fun _ _ old => old.1
  | part held => exact leaves_of_cellAt (Nat.le_refl _) (fun _ _ => rfl) fun _ _ => id
  | view held allowed => exact leaves_of_cellAt (Nat.le_refl _) (fun _ _ => rfl) fun _ _ => id
  | copy known copies =>
      refine leaves_of_cellAt copies.length_le (fun _ => copies.cellAt) ?_
      rintro a inside (old | ⟨b, copy, draft⟩)
      · exact old
      · exact absurd inside (Nat.not_lt_of_le (h.copied_draft copies copy draft).2.2.1)
  | @stow es known =>
      refine leaves_of_cellAt (Store.copyEntries_length_le _ _)
        (fun _ => Store.copyEntries_cellAt) ?_
      rintro a inside (old | rfl)
      · exact old
      · have new := (Store.copyEntries_new σ.store es).1
        rw [List.length_append, List.length_singleton] at new
        exact absurd inside (Nat.not_lt_of_lt new)
  | @amend a laid store held lays edits =>
      have laidOut : σ.Leaves rights (σ.withStore laid) :=
        leaves_of_cellAt lays.length_le (fun _ => lays.cellAt) fun _ _ => id
      rcases edits with rfl | ⟨c, rfl, -, editable, -⟩
      · exact laidOut
      · have set : (σ.withStore laid).Leaves rights (σ.withStore (laid.set a c)) :=
          leaves_of_set editable (held.imp_left And.right)
        exact laidOut.trans set
  | put draft parts => exact leaves_of_set (h.drafts _ draft).2 (.inr draft)

theorem Grounded.leaves_moves (h : σ.Grounded) (ms : Moves rights σ τ) : σ.Leaves rights τ := by
  induction ms with
  | refl => exact .refl σ
  | tail before last ih => exact ih.trans ((h.moves before).leaves_move last)

/-- A bag reads as before if none of the cells that it is made of was edited. -/
theorem Grounded.bag_moves (h : σ.Grounded) (ms : Moves rights σ τ) {kind : BagKind}
    (held : σ.Holds (.bag kind root))
    (spared : ∀ a ∈ σ.store.bagCells root, (σ.store.cellAt a).editable = true → ¬rights.edit a) :
    τ.store.optionsAt root = σ.store.optionsAt root ∧
      ∀ x : Shared, x.address? = some root → τ.store.read x = σ.store.read x := by
  have leaves := h.leaves_moves ms
  obtain ⟨inside, plain⟩ := h.holds held rfl
  have known : ∀ a ∈ σ.store.bagCells root, a < σ.store.length ∧ ¬σ.drafts a := by
    intro a member
    rcases Store.mentioned_of_bagCells member with rfl | ⟨b, mentions⟩
    · exact ⟨inside, plain⟩
    · exact h.mentioned mentions
  have spares : σ.store.Spares τ.store (· ∈ σ.store.bagCells root) := by
    refine ⟨leaves.length_le, leaves.keeps, fun a member => ?_⟩
    exact leaves.cells a (known a member).1 (known a member).2 (spared a member)
  have closed : ∀ a b, a ∈ σ.store.bagCells root → σ.store.Mentions a b →
      b ∈ σ.store.bagCells root ∨ σ.store.Rigid b :=
    fun a b member mentions => .inl (h.ranked.bagCells_closed inside member mentions)
  have bounded := fun a member => (known a member).1
  have rooted := Store.mem_bagCells_self inside
  refine ⟨spares.optionsAt h.ranked closed bounded (.inl rooted), fun x at' => ?_⟩
  refine spares.read h.ranked closed bounded fun a at'' => ?_
  cases at'.symm.trans at''
  exact .inl rooted

end Holding

end ClientRegistry
