import ClientRegistry.Proofs.Store.Grounded

/-! What a store reads as. In a store without cycles a cell reads as its parts do, a value that is
laid out reads as that value, and a deep copy reads as what it is a copy of. -/

namespace ClientRegistry

namespace Cell

variable {view view' : Shared → Value} {c : Cell}

/-- The value of a cell whose parts are seen as values. -/
def value (view : Shared → Value) : Cell → Value
  | leaf v => v
  | list xs => .list (xs.map view)
  | tuple xs => .tuple (xs.map view)
  | set xs => .set xs
  | dict es => .dict (es.map fun e => (e.1, view e.2))

/-- The options of a bag with the cell. -/
def options (view : Shared → Value) : Cell → Options
  | dict es => es.map fun e => (e.1, view e.2)
  | _ => []

theorem value_congr (same : ∀ x ∈ c.parts, view' x = view x) : c.value view' = c.value view := by
  cases c with
  | leaf v => rfl
  | set xs => rfl
  | list xs => exact congrArg Value.list (List.map_congr_left same)
  | tuple xs => exact congrArg Value.tuple (List.map_congr_left same)
  | dict es =>
      refine congrArg Value.dict (List.map_congr_left fun e member => ?_)
      rw [same e.2 (List.mem_map_of_mem member)]

theorem options_congr (same : ∀ x ∈ c.parts, view' x = view x) :
    c.options view' = c.options view := by
  cases c with
  | dict es =>
      refine List.map_congr_left fun e member => ?_
      rw [same e.2 (List.mem_map_of_mem member)]
  | _ => rfl

theorem value_relocate (f : Address → Address) (c : Cell) :
    (c.relocate f).value view = c.value fun x => view (x.relocate f) := by
  cases c <;> simp [value, relocate, Function.comp_def]

theorem options_relocate (f : Address → Address) (c : Cell) :
    (c.relocate f).options view = c.options fun x => view (x.relocate f) := by
  cases c <;> simp [options, relocate, Function.comp_def]

theorem relocate_eq {f : Address → Address}
    (same : ∀ x ∈ c.parts, ∀ a, x.address? = some a → f a = a) : c.relocate f = c := by
  have stays : ∀ x ∈ c.parts, x.relocate f = x := fun x member => by
    cases x with
    | leaf v => rfl
    | cell a => exact congrArg Shared.cell (same _ member a rfl)
    | bag kind a => exact congrArg (Shared.bag kind) (same _ member a rfl)
  cases c with
  | leaf v => rfl
  | set xs => rfl
  | list xs => exact congrArg list ((List.map_congr_left stays).trans (List.map_id xs))
  | tuple xs => exact congrArg tuple ((List.map_congr_left stays).trans (List.map_id xs))
  | dict es =>
      refine congrArg dict ((List.map_congr_left fun e member => ?_).trans (List.map_id es))
      rw [stays e.2 (List.mem_map_of_mem member)]
      rfl

/-- The value of a cell tells how its parts are seen. -/
theorem views_of_value (same : c.value view' = c.value view) : ∀ x ∈ c.parts, view' x = view x := by
  cases c with
  | leaf v => exact fun _ member => by cases member
  | set xs => exact fun _ member => by cases member
  | list xs => exact List.map_inj_left.mp (Value.list.inj same)
  | tuple xs => exact List.map_inj_left.mp (Value.tuple.inj same)
  | dict es =>
      have entries := List.map_inj_left.mp (Value.dict.inj same)
      exact List.forall_mem_map.mpr fun e member => (Prod.mk.inj (entries e member)).2

end Cell

namespace Store

variable {s s' : Store} {a b : Address} {x : Shared}

theorem optionsAt_eq (s : Store) (a : Address) : s.optionsAt a = (s.cellAt a).options s.read := by
  rw [optionsAt, entriesAt, cellAt]
  cases s[a]? with
  | none => rfl
  | some c => cases c <;> rfl

theorem readWithin_leaf (s : Store) (fuel : Nat) (v : Value) : s.readWithin fuel (.leaf v) = v := by
  rw [readWithin]

theorem readWithin_cell (inside : a < s.length) (fuel : Nat) :
    s.readWithin (fuel + 1) (.cell a) = (s.cellAt a).value (s.readWithin fuel) := by
  rw [readWithin, getElem?_eq_cellAt inside]
  cases s.cellAt a <;> rfl

theorem readWithin_bag (inside : a < s.length) (fuel : Nat) (kind : BagKind) :
    s.readWithin (fuel + 1) (.bag kind a) =
      .bag kind ((s.cellAt a).options (s.readWithin fuel)) := by
  rw [readWithin, getElem?_eq_cellAt inside]
  cases s.cellAt a <;> rfl

/-- The fuel is what the store has cells, and more does not matter. -/
theorem Ranked.readWithin_eq (h : s.Ranked) {fuel : Nat} (less : s.length ≤ fuel)
    (inside : ∀ a, x.address? = some a → a < s.length) : s.readWithin fuel x = s.read x := by
  obtain ⟨rank, below, bounded⟩ := h.bounded
  refine readWithin_congr (P := fun b => b < s.length) (fun c d _ => below c d) ?_ ?_
  · exact fun b there => ⟨there, there, rfl⟩
  · intro a at'
    have there := inside a at'
    exact ⟨there, bounded a there, Nat.lt_of_lt_of_le (bounded a there) less⟩

/-- There is fuel to spare for the parts of a cell. -/
theorem Ranked.readWithin_part (h : s.Ranked) (member : x ∈ (s.cellAt a).parts) :
    s.read x = s.readWithin (s.length - 1) x := by
  obtain ⟨rank, below, bounded⟩ := h.bounded
  have inside := lt_of_mem_parts member
  refine readWithin_congr (P := fun b => b < s.length) (fun c d _ => below c d) ?_ ?_
  · exact fun b there => ⟨there, there, rfl⟩
  · intro b at'
    obtain ⟨there, lower⟩ := below a b ⟨x, member, at'⟩
    have less := bounded a inside
    exact ⟨there, by omega, by omega⟩

theorem Ranked.read_cell (h : s.Ranked) (inside : a < s.length) :
    s.read (.cell a) = (s.cellAt a).value s.read := by
  rw [read, ← Nat.sub_add_cancel (Nat.one_le_of_lt inside), readWithin_cell inside]
  exact (Cell.value_congr fun x => h.readWithin_part).symm

theorem Ranked.read_bag (h : s.Ranked) (inside : a < s.length) (kind : BagKind) :
    s.read (.bag kind a) = .bag kind (s.optionsAt a) := by
  rw [read, ← Nat.sub_add_cancel (Nat.one_le_of_lt inside), readWithin_bag inside, optionsAt_eq]
  exact congrArg (Value.bag kind) (Cell.options_congr fun x => h.readWithin_part).symm

/-- What is in new cells only does not change what is read of the old ones. -/
theorem Ranked.read_of_cellAt (h : s.Ranked) (less : s.length ≤ s'.length)
    (same : ∀ a < s.length, s'.cellAt a = s.cellAt a)
    (inside : ∀ a, x.address? = some a → a < s.length) : s'.read x = s.read x := by
  obtain ⟨rank, below, bounded⟩ := h.bounded
  refine readWithin_congr (P := fun b => b < s.length) (fun c d _ => below c d) ?_ ?_
  · exact fun b there => ⟨there, Nat.lt_of_lt_of_le there less, same b there⟩
  · intro a at'
    have there := inside a at'
    exact ⟨there, bounded a there, Nat.lt_of_lt_of_le (bounded a there) less⟩

theorem Lays.read (h : s.Lays s') (ranked : s.Ranked)
    (inside : ∀ a, x.address? = some a → a < s.length) : s'.read x = s.read x :=
  ranked.read_of_cellAt h.length_le (fun _ => h.cellAt) inside

theorem Lays.optionsAt (h : s.Lays s') (ranked : s.Ranked) (inside : a < s.length) :
    s'.optionsAt a = s.optionsAt a := by
  rw [optionsAt_eq, optionsAt_eq, h.cellAt inside]
  refine Cell.options_congr fun x member => h.read ranked fun b at' => ?_
  obtain ⟨rank, below⟩ := ranked
  exact (below a b ⟨x, member, at'⟩).1

section Concat

variable {c : Cell}

theorem Ranked.read_concat_part (h : s.Ranked)
    (parts : ∀ x ∈ c.parts, ∀ b, x.address? = some b → b < s.length) :
    ∀ x ∈ c.parts, read (s ++ [c]) x = s.read x := fun x member =>
  h.read_of_cellAt (by simp) (fun _ there => cellAt_append_left there _) (parts x member)

theorem Ranked.read_concat (h : s.Ranked)
    (parts : ∀ x ∈ c.parts, ∀ b, x.address? = some b → b < s.length) :
    read (s ++ [c]) (.cell s.length) = c.value s.read := by
  rw [(h.concat parts).read_cell (by simp), cellAt_concat]
  exact Cell.value_congr (h.read_concat_part parts)

theorem Ranked.read_concat_bag (h : s.Ranked)
    (parts : ∀ x ∈ c.parts, ∀ b, x.address? = some b → b < s.length) (kind : BagKind) :
    read (s ++ [c]) (.bag kind s.length) = .bag kind (c.options s.read) := by
  rw [(h.concat parts).read_bag (by simp), optionsAt_eq, cellAt_concat]
  exact congrArg (Value.bag kind) (Cell.options_congr (h.read_concat_part parts))

end Concat

mutual

theorem Ranked.read_alloc : ∀ {s : Store} (_ : s.Ranked) (v : Value),
    (alloc s v).1.read (alloc s v).2 = v
  | s, h, .list xs => by
      obtain ⟨laid, new⟩ := allocList_lays s xs
      refine ((h.lays laid).read_concat ?_).trans (congrArg Value.list (h.read_allocList xs))
      exact fun x member b at' => (new x member b at').2
  | s, h, .tuple xs => by
      obtain ⟨laid, new⟩ := allocList_lays s xs
      refine ((h.lays laid).read_concat ?_).trans (congrArg Value.tuple (h.read_allocList xs))
      exact fun x member b at' => (new x member b at').2
  | s, h, .dict es => by
      obtain ⟨laid, new⟩ := allocEntries_lays s es
      refine ((h.lays laid).read_concat ?_).trans (congrArg Value.dict (h.read_allocEntries es))
      exact List.forall_mem_map.mpr fun e member b at' => (new e member b at').2
  | s, h, .bag kind es => by
      obtain ⟨laid, new⟩ := allocEntries_lays s es
      refine ((h.lays laid).read_concat_bag ?_ kind).trans
        (congrArg (Value.bag kind) (h.read_allocEntries es))
      exact List.forall_mem_map.mpr fun e member b at' => (new e member b at').2
  | s, h, .set xs => h.read_concat fun _ member => by cases member
  | s, h, .null | s, h, .bool _ | s, h, .int _ | s, h, .real _ | s, h, .text _ | s, h, .bytes _
  | s, h, .moment _ | s, h, .token _ _ | s, h, .frozen _ =>
      h.read_concat fun _ member => by cases member

theorem Ranked.read_allocList : ∀ {s : Store} (_ : s.Ranked) (xs : List Value),
    (allocList s xs).2.map (allocList s xs).1.read = xs
  | s, h, [] => rfl
  | s, h, x :: xs => by
      obtain ⟨laid, new⟩ := alloc_lays s x
      obtain ⟨laid', -⟩ := allocList_lays (alloc s x).1 xs
      have first := laid'.read (h.lays laid) fun b at' => (new b at').2
      simp only [allocList, List.map_cons]
      rw [first, h.read_alloc x, (h.lays laid).read_allocList xs]

theorem Ranked.read_allocEntries : ∀ {s : Store} (_ : s.Ranked) (es : List (Value × Value)),
    ((allocEntries s es).2.map fun e => (e.1, (allocEntries s es).1.read e.2)) = es
  | s, h, [] => rfl
  | s, h, (k, v) :: es => by
      obtain ⟨laid, new⟩ := alloc_lays s v
      obtain ⟨laid', -⟩ := allocEntries_lays (alloc s v).1 es
      have first := laid'.read (h.lays laid) fun b at' => (new b at').2
      simp only [allocEntries, List.map_cons]
      rw [first, h.read_alloc v, (h.lays laid).read_allocEntries es]

end

theorem fixedWithin_succ {fuel : Nat} (h : s.fixedWithin fuel x = true) :
    s.fixedWithin (fuel + 1) x = true := by
  induction fuel generalizing x with
  | zero => cases x <;> simp_all [fixedWithin]
  | succ fuel ih =>
      cases x with
      | leaf v => exact h
      | bag kind a => exact h
      | cell a =>
          rw [fixedWithin] at h ⊢
          split at h
          next v found => exact h
          next xs found =>
            simp only [List.all_eq_true] at h ⊢
            exact fun x member => ih (h x member)
          · cases h

theorem isFixed_part (h : s.isFixed a = true) (member : x ∈ (s.cellAt a).parts)
    (at' : x.address? = some b) : s.isFixed b = true := by
  have inner := (fixedWithin_cell h).2 x member
  have inside := lt_of_mem_parts member
  cases x with
  | leaf v => cases at'
  | cell c =>
      cases at'
      have fixed := fixedWithin_succ inner
      rwa [Nat.sub_add_cancel (Nat.one_le_of_lt inside)] at fixed
  | bag kind c => cases s.length - 1 <;> simp [fixedWithin] at inner

/-- The copy of a cell that is reached is made of the copies of its parts. -/
theorem copied_cellAt {xs : List Shared} (reached : a ∈ s.reach s.isFixed xs)
    (copied : s.isFixed a = false) :
    (s.copied xs).1.cellAt ((s.copied xs).2 a) = (s.cellAt a).relocate (s.copied xs).2 := by
  have bound := List.idxOf_lt_length_of_mem reached
  simp only [Store.copied]
  rw [place, copied, if_neg Bool.false_ne_true, cellAt_append_right, block]
  refine cellAt_eq_of_getElem? ?_
  rw [List.getElem?_map, List.getElem?_eq_getElem bound, List.getElem_idxOf bound]
  rfl

/-- A store with the cells elsewhere reads the same. -/
theorem readWithin_relocate {f : Address → Address} {P : Address → Prop}
    (cells : ∀ a, P a → a < s.length ∧ f a < s'.length ∧ s'.cellAt (f a) = (s.cellAt a).relocate f)
    (closed : ∀ a b, P a → s.Mentions a b → P b) (fuel : Nat)
    (known : ∀ a, x.address? = some a → P a) :
    s'.readWithin fuel (x.relocate f) = s.readWithin fuel x := by
  induction fuel generalizing x with
  | zero => cases x <;> simp only [Shared.relocate, readWithin]
  | succ fuel ih =>
      have parts : ∀ a, P a → ∀ y ∈ (s.cellAt a).parts,
          s'.readWithin fuel (y.relocate f) = s.readWithin fuel y :=
        fun a known y member => ih fun b at' => closed a b known ⟨y, member, at'⟩
      cases x with
      | leaf v => simp only [Shared.relocate, readWithin]
      | cell a =>
          obtain ⟨inside, inside', same⟩ := cells a (known a rfl)
          rw [Shared.relocate, readWithin_cell inside, readWithin_cell inside', same,
            Cell.value_relocate]
          exact Cell.value_congr (parts a (known a rfl))
      | bag kind a =>
          obtain ⟨inside, inside', same⟩ := cells a (known a rfl)
          rw [Shared.relocate, readWithin_bag inside, readWithin_bag inside', same,
            Cell.options_relocate]
          exact congrArg (Value.bag kind) (Cell.options_congr (parts a (known a rfl)))

/-- What is reached is copied as a whole, and the copy reads as what it is a copy of. -/
theorem Ranked.read_copied (h : s.Ranked) {xs : List Shared}
    (known : ∀ x ∈ xs, ∀ a, x.address? = some a → a < s.length)
    (reached : ∀ a, x.address? = some a → s.isFixed a = true ∨ a ∈ s.reach s.isFixed xs) :
    (s.copied xs).1.read (x.relocate (s.copied xs).2) = s.read x := by
  have copies := copied_copies s xs
  have inside : ∀ a, s.isFixed a = true ∨ a ∈ s.reach s.isFixed xs → a < s.length := by
    rintro a (fixed | member)
    · exact (rigid_of_isFixed fixed).lt
    · exact h.lt_of_reach known member
  have cells : ∀ a, s.isFixed a = true ∨ a ∈ s.reach s.isFixed xs →
      a < s.length ∧ (s.copied xs).2 a < (s.copied xs).1.length ∧
        (s.copied xs).1.cellAt ((s.copied xs).2 a) = (s.cellAt a).relocate (s.copied xs).2 := by
    intro a listed
    cases kept : s.isFixed a with
    | true =>
        have stays : (s.copied xs).2 a = a := if_pos kept
        rw [stays, copies.cellAt (inside a listed)]
        refine ⟨inside a listed, Nat.lt_of_lt_of_le (inside a listed) copies.length_le, ?_⟩
        exact (Cell.relocate_eq fun x member b at' => if_pos (isFixed_part kept member at')).symm
    | false =>
        have member := listed.resolve_left (by simp [kept])
        exact ⟨inside a listed, (copies.place_new member kept).2, copied_cellAt member kept⟩
  have closed : ∀ a b, s.isFixed a = true ∨ a ∈ s.reach s.isFixed xs → s.Mentions a b →
      s.isFixed b = true ∨ b ∈ s.reach s.isFixed xs := by
    rintro a b (fixed | member) mentions
    · obtain ⟨x, part, at'⟩ := mentions
      exact .inl (isFixed_part fixed part at')
    · exact h.reach_closed known member mentions
  rw [read, readWithin_relocate cells closed _ reached]
  exact h.readWithin_eq copies.length_le fun a at' => inside a (reached a at')

/-- A copy reads as what it is a copy of. -/
theorem Ranked.read_copy (h : s.Ranked) (known : ∀ a, x.address? = some a → a < s.length) :
    (s.copy x).1.read (s.copy x).2 = s.read x := by
  have source : ∀ y ∈ [x], ∀ a, y.address? = some a → a < s.length := by
    intro y member
    rw [List.mem_singleton.mp member]
    exact known
  refine h.read_copied source fun a at' => ?_
  cases kept : s.isFixed a with
  | true => exact .inl rfl
  | false => exact .inr (mem_reach_self (List.mem_singleton_self x) at' (known a at') kept)

end Store

end ClientRegistry
