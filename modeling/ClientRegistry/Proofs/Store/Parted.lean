import ClientRegistry.Proofs.Store.Extended
import ClientRegistry.Proofs.Store.Sealed

/-! Stores in regions. Every cell is in one region and mentions rigid cells and cells of its own
region only, so an edit of a cell changes nothing that is read of another region. New cells that
share nothing but rigid cells with the old ones can be given to any region. -/

namespace ClientRegistry.Store

variable {ι : Type} {region : Address → ι} {r : ι} {s s' s'' : Store} {kept : Address → Bool}
  {xs : List Shared} {x : Shared} {a : Address} {P : Shared → Prop}

/-- The second store has new cells behind those of the first, made of new and rigid cells; no cell
comes to hold itself. -/
structure Grows (s s' : Store) : Prop extends s.Extends s' where
  ranked : s.Ranked → s'.Ranked
  parts : ∀ a b, s.length ≤ a → s'.Mentions a b → s'.Rigid b ∨ s.length ≤ b

/-- If the value has a cell, the cell is new or rigid. -/
def Free (s s' : Store) (x : Shared) : Prop :=
  ∀ a, x.address? = some a → s'.Rigid a ∨ s.length ≤ a ∧ a < s'.length

theorem Extends.keeps (h : s.Extends s') : s.Keeps s' :=
  fun a fixed => h.cells a (lt_of_fixed_cell fixed)

theorem Free.later (h : s.Free s' x) (more : s'.Extends s'') : s.Free s'' x :=
  fun a at' => (h a at').imp (fun rigid => rigid.keep more.keeps)
    (And.imp_right fun inside => Nat.lt_of_lt_of_le inside more.length_le)

theorem Free.earlier (h : s'.Free s'' x) (less : s.length ≤ s'.length) : s.Free s'' x :=
  fun a at' => (h a at').imp_right (And.imp_left (Nat.le_trans less))

theorem Free.lt (h : s.Free s' x) : ∀ a, x.address? = some a → a < s'.length :=
  fun a at' => (h a at').elim Rigid.lt And.right

theorem New.free (h : s.New s' x) : s.Free s' x := fun a at' => .inr (h a at')

namespace Grows

theorem refl (s : Store) : s.Grows s where
  toExtends := .refl s
  ranked := id
  parts _ _ outside mentions := absurd mentions.lt (Nat.not_lt_of_le outside)

theorem trans (first : s.Grows s') (second : s'.Grows s'') : s.Grows s'' where
  toExtends := first.toExtends.trans second.toExtends
  ranked := second.ranked ∘ first.ranked
  parts a b new mentions := by
    by_cases early : a < s'.length
    · rw [Mentions, second.cells a early] at mentions
      exact (first.parts a b new mentions).imp_left fun rigid => rigid.keep second.keeps
    · exact (second.parts a b (Nat.le_of_not_lt early) mentions).imp_right
        (Nat.le_trans first.length_le)

/-- One more cell, made of what is new or rigid. -/
theorem concat (h : s.Grows s') {c : Cell} (parts : ∀ x ∈ c.parts, s.Free s' x) :
    s.Grows (s' ++ [c]) where
  toExtends := h.toExtends.trans (.append s' [c])
  ranked ranked := (h.ranked ranked).concat fun x member => (parts x member).lt
  parts a b new mentions := by
    have keeps := keeps_append s' [c]
    have inside := mentions.lt
    rw [List.length_append, List.length_singleton] at inside
    rcases Nat.lt_succ_iff_lt_or_eq.mp inside with early | rfl
    · rw [Mentions, cellAt_append_left early] at mentions
      exact (h.parts a b new mentions).imp_left fun rigid => rigid.keep keeps
    · obtain ⟨x, member, at'⟩ := mentions
      rw [cellAt_concat] at member
      exact (parts x member b at').imp (fun rigid => rigid.keep keeps) And.left

/-- What new cells are made of is new or rigid. -/
theorem free_part (h : s.Grows s') (ranked : s.Ranked) (new : s.length ≤ a)
    (member : x ∈ (s'.cellAt a).parts) : s.Free s' x := by
  intro b at'
  obtain ⟨rank, below⟩ := h.ranked ranked
  exact (h.parts a b new ⟨x, member, at'⟩).imp_right fun later =>
    ⟨later, (below a b ⟨x, member, at'⟩).1⟩

end Grows

theorem Lays.grows (h : s.Lays s') : s.Grows s' where
  toExtends := h.extends
  ranked ranked := ranked.lays h
  parts a b new mentions := by
    obtain ⟨cells, -, inner⟩ := h
    exact .inr (inner a b new mentions).1

theorem Copies.grows (h : s.Copies kept xs s') (ranked : s.Ranked)
    (known : ∀ x ∈ xs, ∀ a, x.address? = some a → a < s.length) : s.Grows s' where
  toExtends := h.extends
  ranked ranked := h.ranked ranked known
  parts _ _ new mentions :=
    (h.rigid_or_new ranked known new mentions).imp (fun rigid => rigid.keep h.keeps) And.left

/-- The copy of a value is new, as far as it is not rigid. -/
theorem copy_grows (ranked : s.Ranked) (inside : ∀ a, x.address? = some a → a < s.length) :
    s.Grows (s.copy x).1 ∧ s.Free (s.copy x).1 (s.copy x).2 := by
  have copies := copied_copies s [x]
  have known : ∀ y ∈ [x], ∀ a, y.address? = some a → a < s.length := by
    intro y member
    rw [List.mem_singleton.mp member]
    exact inside
  refine ⟨copies.grows ranked known, fun b at' => ?_⟩
  have relocated : x.address?.map (s.copied [x]).2 = some b :=
    (Shared.address?_relocate _ x).symm.trans at'
  obtain ⟨a, own, rfl⟩ := Option.map_eq_some_iff.mp relocated
  refine (copies.place_rigid_or_new ?_).imp_left fun rigid => rigid.keep copies.keeps
  cases keep : s.isFixed a with
  | true => exact .inl rfl
  | false => exact .inr (mem_reach_self (List.mem_singleton_self x) own (inside a own) keep)

theorem copyCell_grows (ranked : s.Ranked) (inside : a < s.length) :
    s.Grows (s.copyCell a).1 ∧ s.Free (s.copyCell a).1 (.cell (s.copyCell a).2) :=
  copy_grows (x := .cell a) ranked fun b at' => by
    cases at'
    exact inside

/-- Every cell mentions rigid cells and cells of its own region only. -/
def Parted (s : Store) (region : Address → ι) : Prop :=
  ∀ a b, s.Mentions a b → s.Rigid b ∨ region b = region a

/-- The regions with the cells from a bound on in one region. -/
def regionFrom (region : Address → ι) (bound : Nat) (r : ι) (a : Address) : ι :=
  if a < bound then region a else r

theorem regionFrom_of_lt {bound : Nat} (inside : a < bound) :
    regionFrom region bound r a = region a := if_pos inside

theorem regionFrom_of_le {bound : Nat} (outside : bound ≤ a) : regionFrom region bound r a = r :=
  if_neg (Nat.not_lt_of_le outside)

/-- New cells can be given to any region. -/
theorem Parted.grows (h : s.Parted region) (ranked : s.Ranked) (grows : s.Grows s') (r : ι) :
    s'.Parted (regionFrom region s.length r) := by
  intro a b mentions
  by_cases old : a < s.length
  · rw [Mentions, grows.cells a old] at mentions
    obtain ⟨rank, below⟩ := ranked
    rw [regionFrom_of_lt old, regionFrom_of_lt (below a b mentions).1]
    exact (h a b mentions).imp_left fun rigid => rigid.keep grows.keeps
  · have new := Nat.le_of_not_lt old
    refine (grows.parts a b new mentions).imp_right fun later => ?_
    rw [regionFrom_of_le new, regionFrom_of_le later]

/-- An edit leaves every cell in its region, if what it brings is of the region of the cell. -/
theorem Parted.edits (h : s.Parted region) (edits : s.Edits P a s')
    (brought : ∀ x, P x → ∀ b, x.address? = some b → s.Rigid b ∨ region b = region a) :
    s'.Parted region := by
  rcases edits with rfl | ⟨c, rfl, inside, editable, -, -, parts⟩
  · exact h
  intro d b mentions
  have keep : s.Rigid b ∨ region b = region d →
      Rigid (s.set a c) b ∨ region b = region d :=
    Or.imp_left fun rigid => rigid.keep (keeps_set editable c)
  by_cases same : a = d
  · subst same
    obtain ⟨x, member, at'⟩ := mentions
    rw [cellAt_set_self inside] at member
    rcases parts x member with old | new
    · exact keep (h a b ⟨x, old, at'⟩)
    · exact keep (brought x new b at')
  · rw [Mentions, cellAt_set_ne same] at mentions
    exact keep (h d b mentions)

end ClientRegistry.Store
