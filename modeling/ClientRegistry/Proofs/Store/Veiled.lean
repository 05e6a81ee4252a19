import ClientRegistry.Proofs.Client.Secret
import ClientRegistry.Proofs.Store.Extended
import ClientRegistry.Proofs.Value.Edited

/-! Two stores that differ in secrets only. The cells that hold secrets are hidden: no cell mentions
them, and what is clear of them reads, is walked through, is copied and is edited in both stores
alike. -/

namespace ClientRegistry.Store

variable {hidden hidden' : Address → Prop} {s s' t : Store} {a : Address} {x y : Shared}
  {xs : List Shared}

/-- If the value has a cell, it is in the store and is not hidden. -/
def Clear (s : Store) (hidden : Address → Prop) (x : Shared) : Prop :=
  ∀ a, x.address? = some a → a < s.length ∧ ¬hidden a

/-- The stores have the same cells but for the hidden ones, which hold secrets. -/
structure Veiled (hidden : Address → Prop) (s s' : Store) : Prop where
  length_eq : s'.length = s.length
  cells : ∀ a, ¬hidden a → s'.cellAt a = s.cellAt a
  secrets : ∀ a, hidden a → ∃ v v' : Value, v.IsSecret ∧ v'.IsSecret ∧ s.cellAt a = .leaf v ∧
    s'.cellAt a = .leaf v'
  parts : ∀ a, ∀ x ∈ (s.cellAt a).parts, s.Clear hidden x

/-- The second store has more cells, and of those of the first the same are hidden. -/
structure Later (hidden : Address → Prop) (s : Store) (hidden' : Address → Prop) (t : Store) :
    Prop where
  length_le : s.length ≤ t.length
  old : ∀ a < s.length, hidden' a → hidden a
  kept : ∀ a, hidden a → hidden' a

theorem clear_leaf (s : Store) (hidden : Address → Prop) (v : Value) : s.Clear hidden (.leaf v) :=
  fun _ at' => by cases at'

theorem clear_bag (kind : BagKind) : s.Clear hidden (.bag kind a) ↔ s.Clear hidden (.cell a) :=
  Iff.rfl

theorem Clear.later (h : s.Clear hidden x) (later : Later hidden s hidden' t) :
    t.Clear hidden' x := fun a at' =>
  ⟨Nat.lt_of_lt_of_le (h a at').1 later.length_le, fun veiled =>
    (h a at').2 (later.old a (h a at').1 veiled)⟩

theorem later_of_length_le (less : s.length ≤ t.length) : Later hidden s hidden t :=
  ⟨less, fun _ _ => id, fun _ => id⟩

theorem Later.trans {hidden'' : Address → Prop} {u : Store} (first : Later hidden s hidden' t)
    (second : Later hidden' t hidden'' u) : Later hidden s hidden'' u where
  length_le := Nat.le_trans first.length_le second.length_le
  old a inside veiled :=
    first.old a inside (second.old a (Nat.lt_of_lt_of_le inside first.length_le) veiled)
  kept a veiled := second.kept a (first.kept a veiled)

namespace Veiled

theorem lt (h : Veiled hidden s s') (veiled : hidden a) : a < s.length := by
  obtain ⟨v, -, -, -, leaf, -⟩ := h.secrets a veiled
  exact lt_of_fixed_cell (by rw [leaf]; rfl)

theorem closed (h : Veiled hidden s s') : s.Closed (s.Clear hidden) where
  leaf v := clear_leaf s hidden v
  parts a _ := h.parts a

theorem getElem?_eq (h : Veiled hidden s s') (clear : ¬hidden a) : s'[a]? = s[a]? := by
  by_cases inside : a < s.length
  · rw [getElem?_eq_cellAt inside, getElem?_eq_cellAt (h.length_eq ▸ inside), h.cells a clear]
  · rw [List.getElem?_eq_none (Nat.le_of_not_lt inside),
      List.getElem?_eq_none (h.length_eq ▸ Nat.le_of_not_lt inside)]

theorem readWithin (h : Veiled hidden s s') (clear : s.Clear hidden x) (fuel : Nat) :
    s'.readWithin fuel x = s.readWithin fuel x := by
  induction fuel generalizing x with
  | zero => cases x <;> rfl
  | succ fuel ih =>
      have parts : ∀ a, ∀ y ∈ (s.cellAt a).parts, s'.readWithin fuel y = s.readWithin fuel y :=
        fun a y member => ih (h.parts a y member)
      cases x with
      | leaf v => rw [readWithin_leaf, readWithin_leaf]
      | cell a =>
          obtain ⟨inside, plain⟩ := clear a rfl
          rw [readWithin_cell inside, readWithin_cell (h.length_eq ▸ inside), h.cells a plain]
          exact Cell.value_congr (parts a)
      | bag kind a =>
          obtain ⟨inside, plain⟩ := clear a rfl
          rw [readWithin_bag inside, readWithin_bag (h.length_eq ▸ inside), h.cells a plain]
          exact congrArg (Value.bag kind) (Cell.options_congr (parts a))

theorem read (h : Veiled hidden s s') (clear : s.Clear hidden x) : s'.read x = s.read x := by
  rw [Store.read, Store.read, h.length_eq, h.readWithin clear]

theorem entriesAt (h : Veiled hidden s s') (clear : ¬hidden a) :
    s'.entriesAt a = s.entriesAt a := by
  simp only [Store.entriesAt, h.getElem?_eq clear]

theorem entries_clear (h : Veiled hidden s s') (a : Address) :
    ∀ e ∈ s.entriesAt a, s.Clear hidden e.2 :=
  fun e listed => h.parts a e.2 (mem_parts_of_entriesAt listed)

theorem optionsAt (h : Veiled hidden s s') (clear : ¬hidden a) :
    s'.optionsAt a = s.optionsAt a := by
  rw [Store.optionsAt, Store.optionsAt, h.entriesAt clear]
  exact List.map_congr_left fun e listed => by rw [h.read (h.entries_clear a e listed)]

theorem items? (h : Veiled hidden s s') (clear : s.Clear hidden x) : s'.items? x = s.items? x := by
  cases x with
  | leaf v => rfl
  | bag kind a => rfl
  | cell a => simp only [Store.items?, h.getElem?_eq (clear a rfl).2]

theorem pairs (h : Veiled hidden s s') (clear : s.Clear hidden x) :
    Child.pairs s'.items? s'.read x = Child.pairs s.items? s.read x := by
  simp only [Child.pairs, h.items? clear]
  cases found : s.items? x with
  | none => rfl
  | some xs =>
      refine congrArg Except.ok (List.map_congr_left fun p listed => ?_)
      have item := h.closed.items clear found p.1 (List.fst_mem_of_mem_zipIdx listed)
      simp only [Child.pair, h.items? item]
      split
      next k v inner =>
        rw [h.read (h.closed.items item inner k List.mem_cons_self)]
      · rfl
      · rfl

theorem entries (h : Veiled hidden s s') (clear : s.Clear hidden x) :
    s'.entries x = s.entries x := by
  cases x with
  | leaf v => exact h.pairs clear
  | bag kind a => exact h.pairs clear
  | cell a => simp only [Store.entries, h.getElem?_eq (clear a rfl).2, h.pairs clear]

theorem part (h : Veiled hidden s s') (clear : s.Clear hidden x) (key : Value) :
    s'.part x key = s.part x key := by
  cases x with
  | leaf v => rfl
  | bag kind a => rfl
  | cell a => simp only [Store.part, h.getElem?_eq (clear a rfl).2]

theorem walk (h : Veiled hidden s s') (clear : s.Clear hidden x) (path : List Value) :
    s'.walk x path = s.walk x path := by
  induction path generalizing x with
  | nil => rfl
  | cons key rest ih =>
      simp only [Store.walk, h.part clear key]
      split
      next y found => exact ih (h.closed.part clear found)
      · rfl

/-- The same new cells, which mention none that are hidden. -/
theorem append (h : Veiled hidden s s') {cells : List Cell}
    (plain : ∀ a b, s.length ≤ a → Mentions (s ++ cells) a b →
      b < (s ++ cells).length ∧ ¬hidden b) : Veiled hidden (s ++ cells) (s' ++ cells) where
  length_eq := by rw [List.length_append, List.length_append, h.length_eq]
  cells a clear := by
    by_cases old : a < s.length
    · rw [cellAt_append_left old, cellAt_append_left (h.length_eq ▸ old), h.cells a clear]
    · obtain ⟨i, rfl⟩ := Nat.exists_eq_add_of_le (Nat.le_of_not_lt old)
      have new := cellAt_append_right (s := s') cells i
      rw [h.length_eq] at new
      rw [cellAt_append_right, new]
  secrets a veiled := by
    obtain ⟨v, v', secret, secret', leaf, leaf'⟩ := h.secrets a veiled
    refine ⟨v, v', secret, secret', ?_, ?_⟩
    · rw [cellAt_append_left (h.lt veiled), leaf]
    · rw [cellAt_append_left (h.length_eq ▸ h.lt veiled), leaf']
  parts a x member b at' := by
    by_cases old : a < s.length
    · rw [cellAt_append_left old] at member
      obtain ⟨inside, clear⟩ := h.parts a x member b at'
      exact ⟨Nat.lt_of_lt_of_le inside (List.length_append ▸ Nat.le_add_right _ _), clear⟩
    · exact plain a b (Nat.le_of_not_lt old) ⟨x, member, at'⟩

/-- A secret on each side, in a hidden cell. -/
theorem hide (h : Veiled hidden s s') {v v' : Value} (secret : v.IsSecret) (secret' : v'.IsSecret) :
    Veiled (fun a => hidden a ∨ a = s.length) (s ++ [.leaf v]) (s' ++ [.leaf v']) ∧
      Later hidden s (fun a => hidden a ∨ a = s.length) (s ++ [.leaf v]) := by
  have later : Later hidden s (fun a => hidden a ∨ a = s.length) (s ++ [Cell.leaf v]) := by
    refine ⟨by simp, fun a inside veiled => veiled.resolve_right ?_, fun a => .inl⟩
    exact Nat.ne_of_lt inside
  have outside : ∀ {a}, ¬(hidden a ∨ a = s.length) → ¬a < s.length → s.length < a := by
    intro a clear out
    exact Nat.lt_of_le_of_ne (Nat.le_of_not_lt out) fun same => clear (.inr same.symm)
  refine ⟨⟨by simp [h.length_eq], ?_, ?_, ?_⟩, later⟩
  · intro a clear
    by_cases old : a < s.length
    · rw [cellAt_append_left old, cellAt_append_left (h.length_eq ▸ old),
        h.cells a fun veiled => clear (.inl veiled)]
    · have far := outside clear old
      rw [cellAt_of_length_le, cellAt_of_length_le]
      · simpa using Nat.succ_le_of_lt far
      · simpa [h.length_eq] using Nat.succ_le_of_lt far
  · rintro a (veiled | rfl)
    · obtain ⟨w, w', plain, plain', leaf, leaf'⟩ := h.secrets a veiled
      refine ⟨w, w', plain, plain', ?_, ?_⟩
      · rw [cellAt_append_left (h.lt veiled), leaf]
      · rw [cellAt_append_left (h.length_eq ▸ h.lt veiled), leaf']
    · refine ⟨v, v', secret, secret', cellAt_concat _ _, ?_⟩
      rw [← h.length_eq, cellAt_concat]
  · intro a x member
    by_cases old : a < s.length
    · rw [cellAt_append_left old] at member
      exact (h.parts a x member).later later
    · have inside := lt_of_mem_parts member
      rw [List.length_append, List.length_singleton] at inside
      obtain rfl : a = s.length := Nat.le_antisymm (Nat.lt_succ_iff.mp inside) (Nat.le_of_not_lt old)
      rw [cellAt_concat] at member
      cases member

/-- The same change of a cell that is not hidden. -/
theorem set (h : Veiled hidden s s') (clear : ¬hidden a) {c : Cell}
    (parts : ∀ x ∈ c.parts, s.Clear hidden x) : Veiled hidden (s.set a c) (s'.set a c) := by
  have later : Later hidden s hidden (s.set a c) := later_of_length_le (List.length_set ..).ge
  have other : ∀ b, hidden b → a ≠ b := by
    rintro b veiled rfl
    exact clear veiled
  by_cases inside : a < s.length
  · refine ⟨by simp [h.length_eq], fun b plain => ?_, fun b veiled => ?_, fun b x member => ?_⟩
    · by_cases same : a = b
      · subst same
        rw [cellAt_set_self inside, cellAt_set_self (h.length_eq ▸ inside)]
      · rw [cellAt_set_ne same, cellAt_set_ne same, h.cells b plain]
    · rw [cellAt_set_ne (other b veiled), cellAt_set_ne (other b veiled)]
      exact h.secrets b veiled
    · by_cases same : a = b
      · subst same
        rw [cellAt_set_self inside] at member
        exact (parts x member).later later
      · rw [cellAt_set_ne same] at member
        exact (h.parts b x member).later later
  · rw [List.set_eq_of_length_le (Nat.le_of_not_lt inside),
      List.set_eq_of_length_le (h.length_eq ▸ Nat.le_of_not_lt inside)]
    exact h

end Veiled

mutual

/-- Where a value is laid out depends on the size of the store only. -/
theorem alloc_appends : ∀ {s s' : Store} (_ : s'.length = s.length) (v : Value),
    ∃ cells, (alloc s v).1 = s ++ cells ∧ (alloc s' v).1 = s' ++ cells ∧
      (alloc s' v).2 = (alloc s v).2
  | s, s', same, .list xs => by
      obtain ⟨cells, first, second, held⟩ := allocList_appends same xs
      refine ⟨cells ++ [.list (allocList s xs).2], ?_⟩
      simp only [alloc, first, second, held, List.append_assoc, List.length_append, same, and_self]
  | s, s', same, .tuple xs => by
      obtain ⟨cells, first, second, held⟩ := allocList_appends same xs
      refine ⟨cells ++ [.tuple (allocList s xs).2], ?_⟩
      simp only [alloc, first, second, held, List.append_assoc, List.length_append, same, and_self]
  | s, s', same, .dict es => by
      obtain ⟨cells, first, second, held⟩ := allocEntries_appends same es
      refine ⟨cells ++ [.dict (allocEntries s es).2], ?_⟩
      simp only [alloc, first, second, held, List.append_assoc, List.length_append, same, and_self]
  | s, s', same, .bag kind es => by
      obtain ⟨cells, first, second, held⟩ := allocEntries_appends same es
      refine ⟨cells ++ [.dict (allocEntries s es).2], ?_⟩
      simp only [alloc, first, second, held, List.append_assoc, List.length_append, same, and_self]
  | s, s', same, .set xs => ⟨[.set xs], rfl, rfl, congrArg Shared.cell same⟩
  | s, s', same, .null | s, s', same, .bool _ | s, s', same, .int _ | s, s', same, .real _
  | s, s', same, .text _ | s, s', same, .bytes _ | s, s', same, .moment _
  | s, s', same, .token _ _ | s, s', same, .frozen _ =>
      ⟨[.leaf _], rfl, rfl, congrArg Shared.cell same⟩

theorem allocList_appends : ∀ {s s' : Store} (_ : s'.length = s.length) (xs : List Value),
    ∃ cells, (allocList s xs).1 = s ++ cells ∧ (allocList s' xs).1 = s' ++ cells ∧
      (allocList s' xs).2 = (allocList s xs).2
  | s, s', same, [] => ⟨[], (List.append_nil s).symm, (List.append_nil s').symm, rfl⟩
  | s, s', same, x :: xs => by
      obtain ⟨cells, first, second, held⟩ := alloc_appends same x
      have same' : (alloc s' x).1.length = (alloc s x).1.length := by
        rw [first, second, List.length_append, List.length_append, same]
      obtain ⟨more, first', second', held'⟩ := allocList_appends same' xs
      refine ⟨cells ++ more, ?_⟩
      simp only [allocList, first', second', held, held', and_true]
      rw [first, second, List.append_assoc, List.append_assoc]
      exact ⟨rfl, rfl⟩

theorem allocEntries_appends : ∀ {s s' : Store} (_ : s'.length = s.length)
    (es : List (Value × Value)),
    ∃ cells, (allocEntries s es).1 = s ++ cells ∧ (allocEntries s' es).1 = s' ++ cells ∧
      (allocEntries s' es).2 = (allocEntries s es).2
  | s, s', same, [] => ⟨[], (List.append_nil s).symm, (List.append_nil s').symm, rfl⟩
  | s, s', same, (k, v) :: es => by
      obtain ⟨cells, first, second, held⟩ := alloc_appends same v
      have same' : (alloc s' v).1.length = (alloc s v).1.length := by
        rw [first, second, List.length_append, List.length_append, same]
      obtain ⟨more, first', second', held'⟩ := allocEntries_appends same' es
      refine ⟨cells ++ more, ?_⟩
      simp only [allocEntries, first', second', held, held', and_true]
      rw [first, second, List.append_assoc, List.append_assoc]
      exact ⟨rfl, rfl⟩

end

namespace Veiled

theorem lays (h : Veiled hidden s s') (lays : s.Lays t) {cells : List Cell}
    (same : t = s ++ cells) : Veiled hidden t (s' ++ cells) := by
  subst same
  refine h.append fun a b new mentions => ?_
  have inside := mentions.lt
  obtain ⟨_, -, inner⟩ := lays
  obtain ⟨later, before⟩ := inner a b new mentions
  exact ⟨Nat.lt_trans before inside, fun veiled => Nat.not_lt_of_le later (h.lt veiled)⟩

theorem clear_new (h : Veiled hidden s s') (new : s.New t x) : t.Clear hidden x :=
  fun a at' => ⟨(new a at').2, fun veiled => Nat.not_lt_of_le (new a at').1 (h.lt veiled)⟩

/-- A value that is laid out in both stores. -/
theorem alloc (h : Veiled hidden s s') (v : Value) :
    Veiled hidden (s.alloc v).1 (s'.alloc v).1 ∧ (s'.alloc v).2 = (s.alloc v).2 ∧
      (s.alloc v).1.Clear hidden (s.alloc v).2 := by
  obtain ⟨laid, new⟩ := alloc_lays s v
  obtain ⟨cells, first, second, held⟩ := alloc_appends h.length_eq v
  exact ⟨second ▸ h.lays laid first, held, h.clear_new new⟩

theorem allocEntries (h : Veiled hidden s s') (es : List (Value × Value)) :
    Veiled hidden (s.allocEntries es).1 (s'.allocEntries es).1 ∧
      (s'.allocEntries es).2 = (s.allocEntries es).2 ∧
      ∀ e ∈ (s.allocEntries es).2, (s.allocEntries es).1.Clear hidden e.2 := by
  obtain ⟨laid, new⟩ := allocEntries_lays s es
  obtain ⟨cells, first, second, held⟩ := allocEntries_appends h.length_eq es
  exact ⟨second ▸ h.lays laid first, held, fun e member => h.clear_new (new e member)⟩

/-- One more cell, the same in both stores. -/
theorem concat (h : Veiled hidden s s') {c : Cell} (parts : ∀ x ∈ c.parts, s.Clear hidden x) :
    Veiled hidden (s ++ [c]) (s' ++ [c]) := by
  refine h.append fun a b new mentions => ?_
  have inside := mentions.lt
  rw [List.length_append, List.length_singleton] at inside ⊢
  obtain rfl : a = s.length := Nat.le_antisymm (Nat.lt_succ_iff.mp inside) new
  obtain ⟨x, member, at'⟩ := mentions
  rw [cellAt_concat] at member
  exact ⟨Nat.lt_succ_of_lt (parts x member b at').1, (parts x member b at').2⟩

theorem clear_last (h : Veiled hidden s s') (c : Cell) (at' : x.address? = some s.length) :
    Clear (s ++ [c]) hidden x :=
  h.clear_new (new_last (Nat.le_refl _) at' rfl)

theorem allocOptions (h : Veiled hidden s s') (options : Options) :
    Veiled hidden (s.allocOptions options).1 (s'.allocOptions options).1 ∧
      (s'.allocOptions options).2 = (s.allocOptions options).2 ∧
      (s.allocOptions options).1.Clear hidden (.cell (s.allocOptions options).2) := by
  obtain ⟨laid, held, clear⟩ := h.allocEntries options
  simp only [Store.allocOptions, held]
  exact ⟨laid.concat (List.forall_mem_map.mpr clear), laid.length_eq, laid.clear_last _ rfl⟩

theorem fixedWithin (h : Veiled hidden s s') (fuel : Nat) (x : Shared) :
    s'.fixedWithin fuel x = s.fixedWithin fuel x := by
  induction fuel generalizing x with
  | zero => cases x <;> rfl
  | succ fuel ih =>
      cases x with
      | leaf v => rfl
      | bag kind a => rfl
      | cell a =>
          by_cases veiled : hidden a
          · obtain ⟨v, v', secret, secret', leaf, leaf'⟩ := h.secrets a veiled
            have fixed : ∀ {v : Value}, v.IsSecret → v.isFixed = true := fun secret => by
              obtain ⟨o, rfl⟩ := Snapshot.isSecret_iff.mp secret
              cases o <;> rfl
            simp only [Store.fixedWithin, leaf, leaf', fixed secret, fixed secret']
          · simp only [Store.fixedWithin, h.cells a veiled, ih]

theorem isFixed (h : Veiled hidden s s') : s'.isFixed = s.isFixed := by
  funext a
  rw [Store.isFixed, Store.isFixed, h.length_eq, h.fixedWithin]

theorem reachWithin (h : Veiled hidden s s') (kept : Address → Bool) (fuel : Nat)
    (clear : s.Clear hidden x) : s'.reachWithin kept fuel x = s.reachWithin kept fuel x := by
  induction fuel generalizing x with
  | zero => cases x <;> rfl
  | succ fuel ih =>
      have parts : ∀ a, ((s.cellAt a).parts.flatMap fun y => s'.reachWithin kept fuel y) =
          (s.cellAt a).parts.flatMap fun y => s.reachWithin kept fuel y := fun a =>
        List.flatMap_congr fun y member => ih (h.parts a y member)
      cases x with
      | leaf v => rfl
      | cell a => simp only [Store.reachWithin, h.cells a (clear a rfl).2, parts]
      | bag kind a => simp only [Store.reachWithin, h.cells a (clear a rfl).2, parts]

theorem reach (h : Veiled hidden s s') (kept : Address → Bool)
    (clear : ∀ x ∈ xs, s.Clear hidden x) : s'.reach kept xs = s.reach kept xs := by
  rw [Store.reach, Store.reach, h.length_eq]
  exact congrArg _ (List.flatMap_congr fun x member => h.reachWithin kept _ (clear x member))

theorem clear_reached (h : Veiled hidden s s') {kept : Address → Bool}
    (clear : ∀ x ∈ xs, s.Clear hidden x) (member : a ∈ s.reach kept xs) : ¬hidden a := by
  obtain ⟨x, given, reached⟩ := mem_reach.mp member
  rcases mentioned_of_reachWithin reached with at' | ⟨b, y, part, at'⟩
  · exact (clear x given a at').2
  · exact (h.parts b y part a at').2

/-- The copies are at the same places. -/
theorem place (h : Veiled hidden s s') (clear : ∀ x ∈ xs, s.Clear hidden x) :
    s'.place s'.isFixed (s'.reach s'.isFixed xs) = s.place s.isFixed (s.reach s.isFixed xs) := by
  funext a
  rw [Store.place, Store.place, h.isFixed, h.reach _ clear, h.length_eq]

/-- The copies are the same cells. -/
theorem block (h : Veiled hidden s s') (clear : ∀ x ∈ xs, s.Clear hidden x) :
    s'.block s'.isFixed (s'.reach s'.isFixed xs) = s.block s.isFixed (s.reach s.isFixed xs) := by
  rw [Store.block, Store.block, h.place clear, h.isFixed, h.reach _ clear]
  exact List.map_congr_left fun a member => by rw [h.cells a (h.clear_reached clear member)]

/-- A clear cell that is kept stays clear, and the copy of one that is copied is new. -/
theorem clear_place (h : Veiled hidden s s') (clear : ¬hidden a) (inside : a < s.length)
    (known : s.isFixed a = true ∨ a ∈ s.reach s.isFixed xs) :
    (s.copied xs).2 a < (s.copied xs).1.length ∧ ¬hidden ((s.copied xs).2 a) := by
  have copies := copied_copies s xs
  cases kept : s.isFixed a with
  | true =>
      have stays : (s.copied xs).2 a = a := if_pos kept
      rw [stays]
      exact ⟨Nat.lt_of_lt_of_le inside copies.length_le, clear⟩
  | false =>
      have new := copies.place_new (known.resolve_left (by simp [kept])) kept
      exact ⟨new.2, fun veiled => Nat.not_lt_of_le new.1 (h.lt veiled)⟩

/-- A deep copy of clear values in both stores. -/
theorem copied (h : Veiled hidden s s') (ranked : s.Ranked)
    (clear : ∀ x ∈ xs, s.Clear hidden x) :
    Veiled hidden (s.copied xs).1 (s'.copied xs).1 ∧ (s'.copied xs).2 = (s.copied xs).2 ∧
      ∀ x ∈ xs, (s.copied xs).1.Clear hidden (x.relocate (s.copied xs).2) := by
  have known := fun x member a at' => (clear x member a at').1
  refine ⟨?_, h.place clear, fun x member b at' => ?_⟩
  · show Veiled hidden (s ++ _) (s' ++ _)
    rw [h.block clear]
    refine h.append fun a b new mentions => ?_
    obtain ⟨c, d, -, -, ⟨y, part, at'⟩, rfl, closed⟩ :=
      (copied_copies s xs).mentions_new ranked known new mentions
    obtain ⟨inside, plain⟩ := h.parts c y part d at'
    exact h.clear_place plain inside closed
  · have relocated : x.address?.map (s.copied xs).2 = some b :=
      (Shared.address?_relocate _ x).symm.trans at'
    obtain ⟨a, own, rfl⟩ := Option.map_eq_some_iff.mp relocated
    obtain ⟨inside, plain⟩ := clear x member a own
    refine h.clear_place plain inside ?_
    cases kept : s.isFixed a with
    | true => exact .inl rfl
    | false => exact .inr (mem_reach_self member own inside kept)

theorem copy (h : Veiled hidden s s') (ranked : s.Ranked) (clear : s.Clear hidden x) :
    Veiled hidden (s.copy x).1 (s'.copy x).1 ∧ (s'.copy x).2 = (s.copy x).2 ∧
      (s.copy x).1.Clear hidden (s.copy x).2 := by
  obtain ⟨veiled, same, copy⟩ := h.copied ranked (List.forall_mem_singleton.mpr clear)
  refine ⟨veiled, ?_, copy x (List.mem_singleton_self x)⟩
  simp only [Store.copy, same]

theorem copyCell (h : Veiled hidden s s') (ranked : s.Ranked) (clear : s.Clear hidden (.cell a)) :
    Veiled hidden (s.copyCell a).1 (s'.copyCell a).1 ∧ (s'.copyCell a).2 = (s.copyCell a).2 ∧
      (s.copyCell a).1.Clear hidden (.cell (s.copyCell a).2) := by
  obtain ⟨veiled, same, copy⟩ := h.copy ranked clear
  exact ⟨veiled, Shared.cell.inj same, copy⟩

theorem copyEntries (h : Veiled hidden s s') (ranked : s.Ranked) {es : List (Value × Shared)}
    (clear : ∀ e ∈ es, s.Clear hidden e.2) :
    Veiled hidden (s.copyEntries es).1 (s'.copyEntries es).1 ∧
      (s'.copyEntries es).2 = (s.copyEntries es).2 ∧
      (s.copyEntries es).1.Clear hidden (.cell (s.copyEntries es).2) := by
  have parts := List.forall_mem_map.mpr clear
  have gathered := h.concat (c := .dict es) parts
  have ranked' : (s ++ [Cell.dict es]).Ranked :=
    ranked.concat fun x member b at' => (parts x member b at').1
  rw [Store.copyEntries, Store.copyEntries, h.length_eq]
  exact gathered.copyCell ranked' (h.clear_last _ rfl)

theorem copyBag (h : Veiled hidden s s') (ranked : s.Ranked) (clear : s.Clear hidden x) :
    Veiled hidden (s.copyBag x).1 (s'.copyBag x).1 ∧ (s'.copyBag x).2 = (s.copyBag x).2 ∧
      (s.copyBag x).1.Clear hidden (.cell (s.copyBag x).2) := by
  have none : Veiled hidden (s ++ [.dict []]) (s' ++ [.dict []]) ∧ s'.length = s.length ∧
      Clear (s ++ [.dict []]) hidden (.cell s.length) :=
    ⟨h.concat (fun _ member => by cases member), h.length_eq, h.clear_last _ rfl⟩
  cases x with
  | bag kind a => exact h.copyCell ranked clear
  | leaf v => exact none
  | cell a => exact none

theorem agrees (h : Veiled hidden s s') : s.child.Agrees s'.child (s.Clear hidden) where
  view _ clear := h.read clear
  items _ clear := h.items? clear
  entries _ clear := h.entries clear
  null := rfl

theorem map_read (h : Veiled hidden s s') {edits : List (Edit Shared)}
    (given : ∀ e ∈ edits, ∀ x ∈ e.args, s.Clear hidden x) :
    (edits.map fun e => e.map s'.read) = edits.map fun e => e.map s.read :=
  List.map_congr_left fun e member => by
    cases e with
    | stop reason => rfl
    | call method args =>
        refine congrArg (Edit.call method) (List.map_congr_left fun x arg => ?_)
        exact h.read (given _ member x arg)

/-- What an edit puts into a cell is clear. -/
theorem clear_edited (h : Veiled hidden s s') {edits : List (Edit Shared)}
    (given : ∀ e ∈ edits, ∀ x ∈ e.args, s.Clear hidden x) {c : Cell}
    (changed : (s.editCell a edits).1 = s.set a c) (inside : a < s.length) :
    ∀ x ∈ c.parts, s.Clear hidden x := by
  intro x member
  rcases h.closed.editCell given a with same | ⟨d, same, -, -, -, -, parts⟩
  · have cell : s.cellAt a = c := by rw [← cellAt_set_self inside c, ← changed, same]
    exact h.parts a x (cell ▸ member)
  · have cell : c = d := by
      rw [← cellAt_set_self inside c, ← changed, same, cellAt_set_self inside]
    exact (parts x (cell ▸ member)).elim (h.parts a x) id

/-- An edit of a clear cell with clear values. -/
theorem editCell (h : Veiled hidden s s') (clear : ¬hidden a) {edits : List (Edit Shared)}
    (given : ∀ e ∈ edits, ∀ x ∈ e.args, s.Clear hidden x) :
    Veiled hidden (s.editCell a edits).1 (s'.editCell a edits).1 ∧
      (s'.editCell a edits).2 = (s.editCell a edits).2 := by
  have parts : ∀ c, (s.editCell a edits).1 = s.set a c → a < s.length →
      ∀ x ∈ c.parts, s.Clear hidden x := fun _ changed inside => h.clear_edited given changed inside
  have lists : ∀ xs, Edit.run (Edit.onList s'.child) edits xs =
      Edit.run (Edit.onList s.child) edits xs := fun xs =>
    Edit.run_agrees (fun _ _ ys args => Edit.onList_agrees h.agrees args ys) given xs
  have dicts : ∀ es, Edit.run (Edit.onDict s'.child) edits es =
      Edit.run (Edit.onDict s.child) edits es := fun es =>
    Edit.run_agrees (fun _ _ ds args => Edit.onDict_agrees h.agrees args ds) given es
  simp only [Store.editCell, h.getElem?_eq clear] at parts ⊢
  split
  next xs present =>
    have inside := (List.getElem?_eq_some_iff.mp present).1
    simp only [present, lists] at parts ⊢
    exact ⟨h.set clear (parts _ rfl inside), trivial⟩
  next es present =>
    have inside := (List.getElem?_eq_some_iff.mp present).1
    simp only [present, dicts] at parts ⊢
    exact ⟨h.set clear (parts _ rfl inside), trivial⟩
  next xs present =>
    simp only [h.map_read given]
    exact ⟨h.set clear (fun _ member => by cases member), trivial⟩
  · exact ⟨h, rfl⟩

theorem edit (h : Veiled hidden s s') (clear : s.Clear hidden x) {edits : List (Edit Shared)}
    (given : ∀ e ∈ edits, ∀ y ∈ e.args, s.Clear hidden y) :
    Veiled hidden (s.edit x edits).1 (s'.edit x edits).1 ∧
      (s'.edit x edits).2 = (s.edit x edits).2 := by
  cases x with
  | leaf v => exact ⟨h, rfl⟩
  | bag kind a => exact ⟨h, rfl⟩
  | cell a => exact h.editCell (clear a rfl).2 given

end Veiled

end ClientRegistry.Store
