import ClientRegistry.Proofs.Store.Parts

/-! Laying values out. The new cells stand behind the old ones and mention only new cells that
stand before them, so a value that is laid out shares nothing with what was there. -/

namespace ClientRegistry.Store

variable {s s₁ s₂ : Store} {x : Shared}

/-- The second store is the first with new cells, each made of new cells before it. -/
def Lays (s s' : Store) : Prop :=
  ∃ cells, s' = s ++ cells ∧ ∀ a b, s.length ≤ a → s'.Mentions a b → s.length ≤ b ∧ b < a

/-- If the value has a cell, it is one that the second store has and the first has not. -/
def New (s s' : Store) (x : Shared) : Prop :=
  ∀ a, x.address? = some a → s.length ≤ a ∧ a < s'.length

theorem Lays.refl (s : Store) : s.Lays s := by
  refine ⟨[], (List.append_nil s).symm, fun a b outside mentions => ?_⟩
  exact absurd mentions.lt (Nat.not_lt_of_le outside)

theorem Lays.length_le (h : s.Lays s₁) : s.length ≤ s₁.length := by
  obtain ⟨cells, rfl, -⟩ := h
  exact List.length_append ▸ Nat.le_add_right _ _

theorem Lays.cellAt (h : s.Lays s₁) {a : Address} (inside : a < s.length) :
    s₁.cellAt a = s.cellAt a := by
  obtain ⟨cells, rfl, -⟩ := h
  exact cellAt_append_left inside cells

theorem Lays.keeps (h : s.Lays s₁) : s.Keeps s₁ := by
  obtain ⟨cells, rfl, -⟩ := h
  exact keeps_append s cells

theorem Lays.trans (first : s.Lays s₁) (second : s₁.Lays s₂) : s.Lays s₂ := by
  have less := first.length_le
  obtain ⟨cells, rfl, inner⟩ := first
  obtain ⟨more, rfl, outer⟩ := second
  refine ⟨cells ++ more, List.append_assoc s cells more, fun a b new mentions => ?_⟩
  by_cases early : a < (s ++ cells).length
  · refine inner a b new ?_
    rw [Mentions, cellAt_append_left early] at mentions
    exact mentions
  · obtain ⟨later, before⟩ := outer a b (Nat.le_of_not_lt early) mentions
    exact ⟨Nat.le_trans less later, before⟩

/-- One more cell, made of new values. -/
theorem Lays.concat (h : s.Lays s₁) {c : Cell} (parts : ∀ x ∈ c.parts, s.New s₁ x) :
    s.Lays (s₁ ++ [c]) := by
  obtain ⟨cells, rfl, inner⟩ := h
  refine ⟨cells ++ [c], List.append_assoc s cells [c], fun a b new mentions => ?_⟩
  have inside := mentions.lt
  rw [List.length_append, List.length_singleton] at inside
  rcases Nat.lt_succ_iff_lt_or_eq.mp inside with early | rfl
  · refine inner a b new ?_
    rw [Mentions, cellAt_append_left early] at mentions
    exact mentions
  · obtain ⟨x, member, known⟩ := mentions
    rw [cellAt_concat] at member
    exact parts x member b known

theorem New.leaf (v : Value) : s.New s₁ (.leaf v) := fun _ known => by cases known

theorem New.later (h : s.New s₁ x) (more : s₁.length ≤ s₂.length) : s.New s₂ x :=
  fun a known => ⟨(h a known).1, Nat.lt_of_lt_of_le (h a known).2 more⟩

theorem New.earlier (h : s₁.New s₂ x) (less : s.length ≤ s₁.length) : s.New s₂ x :=
  fun a known => ⟨Nat.le_trans less (h a known).1, (h a known).2⟩

theorem new_last (less : s.length ≤ s₁.length) {c : Cell} {a : Address}
    (known : x.address? = some a) (last : a = s₁.length) : s.New (s₁ ++ [c]) x := by
  intro b known'
  cases known.symm.trans known'
  subst last
  exact ⟨less, by simp⟩

mutual

theorem alloc_lays : ∀ (s : Store) (v : Value),
    s.Lays (alloc s v).1 ∧ s.New (alloc s v).1 (alloc s v).2
  | s, .list xs => by
      obtain ⟨laid, new⟩ := allocList_lays s xs
      simp only [alloc]
      exact ⟨laid.concat new, new_last laid.length_le rfl rfl⟩
  | s, .tuple xs => by
      obtain ⟨laid, new⟩ := allocList_lays s xs
      simp only [alloc]
      exact ⟨laid.concat new, new_last laid.length_le rfl rfl⟩
  | s, .dict es => by
      obtain ⟨laid, new⟩ := allocEntries_lays s es
      simp only [alloc]
      exact ⟨laid.concat (List.forall_mem_map.mpr new), new_last laid.length_le rfl rfl⟩
  | s, .bag kind es => by
      obtain ⟨laid, new⟩ := allocEntries_lays s es
      simp only [alloc]
      exact ⟨laid.concat (List.forall_mem_map.mpr new), new_last laid.length_le rfl rfl⟩
  | s, .set xs => ⟨(Lays.refl s).concat (fun _ member => by cases member), new_last .refl rfl rfl⟩
  | s, .null | s, .bool _ | s, .int _ | s, .real _ | s, .text _ | s, .bytes _ | s, .moment _
  | s, .token _ _ | s, .frozen _ =>
      ⟨(Lays.refl s).concat (fun _ member => by cases member), new_last .refl rfl rfl⟩

theorem allocList_lays : ∀ (s : Store) (xs : List Value),
    s.Lays (allocList s xs).1 ∧ ∀ y ∈ (allocList s xs).2, s.New (allocList s xs).1 y
  | s, [] => ⟨.refl s, fun _ member => by cases member⟩
  | s, x :: xs => by
      obtain ⟨laid, new⟩ := alloc_lays s x
      obtain ⟨laid', new'⟩ := allocList_lays (alloc s x).1 xs
      simp only [allocList]
      refine ⟨laid.trans laid', List.forall_mem_cons.mpr ⟨new.later laid'.length_le, ?_⟩⟩
      exact fun y member => (new' y member).earlier laid.length_le

theorem allocEntries_lays : ∀ (s : Store) (es : List (Value × Value)),
    s.Lays (allocEntries s es).1 ∧ ∀ e ∈ (allocEntries s es).2, s.New (allocEntries s es).1 e.2
  | s, [] => ⟨.refl s, fun _ member => by cases member⟩
  | s, (k, v) :: es => by
      obtain ⟨laid, new⟩ := alloc_lays s v
      obtain ⟨laid', new'⟩ := allocEntries_lays (alloc s v).1 es
      simp only [allocEntries]
      refine ⟨laid.trans laid', List.forall_mem_cons.mpr ⟨new.later laid'.length_le, ?_⟩⟩
      exact fun e member => (new' e member).earlier laid.length_le

end

theorem allocOptions_lays (s : Store) (options : Options) :
    s.Lays (s.allocOptions options).1 ∧
      s.length ≤ (s.allocOptions options).2 ∧
      (s.allocOptions options).2 < (s.allocOptions options).1.length := by
  obtain ⟨laid, new⟩ := allocEntries_lays s options
  simp only [allocOptions]
  exact ⟨laid.concat (List.forall_mem_map.mpr new), laid.length_le, by simp⟩

end ClientRegistry.Store
