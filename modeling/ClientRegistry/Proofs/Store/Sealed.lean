import ClientRegistry.Proofs.Store.Grounded

/-! Sealed bags. The cells of a bag that was just copied are known to nobody but the bag itself. No
move but a look into the bag breaks the seal: values that are held lead to cells outside and to
rigid ones only, and edits reach what is held. So a sealed bag holds the same options for ever. -/

namespace ClientRegistry

namespace Store

variable {s s' : Store} {inside : Address → Prop} {a : Address} {x : Shared}

/-- The second store has the cells of the first; those inside, and all that cannot be edited, are
as they were. -/
structure Spares (s s' : Store) (inside : Address → Prop) : Prop where
  length_le : s.length ≤ s'.length
  keeps : s.Keeps s'
  cells : ∀ a, inside a → s'.cellAt a = s.cellAt a

theorem Spares.refl (s : Store) (inside : Address → Prop) : s.Spares s inside :=
  ⟨Nat.le_refl _, Keeps.refl s, fun _ _ => rfl⟩

theorem Spares.trans {s'' : Store} (first : s.Spares s' inside) (second : s'.Spares s'' inside) :
    s.Spares s'' inside where
  length_le := Nat.le_trans first.length_le second.length_le
  keeps := first.keeps.trans second.keeps
  cells a known := (second.cells a known).trans (first.cells a known)

/-- New cells spare the old ones. -/
theorem spares_of_cellAt (length_le : s.length ≤ s'.length)
    (same : ∀ a < s.length, s'.cellAt a = s.cellAt a) (bounded : ∀ a, inside a → a < s.length) :
    s.Spares s' inside where
  length_le := length_le
  keeps a fixed := same a (lt_of_fixed_cell fixed)
  cells a known := same a (bounded a known)

/-- What is made of spared cells reads as before. -/
theorem Spares.read (h : s.Spares s' inside) (ranked : s.Ranked)
    (closed : ∀ a b, inside a → s.Mentions a b → inside b ∨ s.Rigid b)
    (bounded : ∀ a, inside a → a < s.length)
    (known : ∀ a, x.address? = some a → inside a ∨ s.Rigid a) : s'.read x = s.read x := by
  obtain ⟨rank, below, room⟩ := ranked.bounded
  have present : ∀ a, inside a ∨ s.Rigid a → a < s.length := by
    rintro a (within | rigid)
    · exact bounded a within
    · exact rigid.lt
  have inner : ∀ a b, inside a ∨ s.Rigid a → s.Mentions a b →
      (inside b ∨ s.Rigid b) ∧ rank b < rank a := by
    rintro a b (within | rigid) mentions
    · exact ⟨closed a b within mentions, (below a b mentions).2⟩
    · obtain ⟨x, member, at'⟩ := mentions
      exact ⟨.inr (rigid.part member at'), (below a b ⟨x, member, at'⟩).2⟩
  refine readWithin_congr inner ?_ ?_
  · intro a spared
    refine ⟨present a spared, Nat.lt_of_lt_of_le (present a spared) h.length_le, ?_⟩
    rcases spared with within | rigid
    · exact h.cells a within
    · exact h.keeps a rigid.not_editable
  · intro a at'
    have less := room a (present a (known a at'))
    exact ⟨known a at', less, Nat.lt_of_lt_of_le less h.length_le⟩

/-- The same for the options of a bag. -/
theorem Spares.optionsAt (h : s.Spares s' inside) (ranked : s.Ranked)
    (closed : ∀ a b, inside a → s.Mentions a b → inside b ∨ s.Rigid b)
    (bounded : ∀ a, inside a → a < s.length) (root : inside a ∨ s.Rigid a) :
    s'.optionsAt a = s.optionsAt a := by
  have present : a < s.length := root.elim (bounded a) Rigid.lt
  have cell : s'.cellAt a = s.cellAt a := root.elim (h.cells a) fun rigid =>
    h.keeps a rigid.not_editable
  have entries : s'.entriesAt a = s.entriesAt a := by
    simp only [entriesAt, getElem?_eq_cellAt present,
      getElem?_eq_cellAt (Nat.lt_of_lt_of_le present h.length_le), cell]
  simp only [Store.optionsAt, entries]
  refine List.map_congr_left fun e listed => ?_
  have part := mem_parts_of_entriesAt listed
  rw [h.read ranked closed bounded fun b at' => ?_]
  rcases root with within | rigid
  · exact closed a b within ⟨e.2, part, at'⟩
  · exact .inr (rigid.part part at')

end Store

namespace Holding

variable {rights : Rights} {σ τ : Holding} {s s' : Store} {x : Shared} {a root : Address}
  {inside outside outside' : Address → Prop}

/-- The value is outside, or nobody can edit it, or it is the bag. -/
def Free (s : Store) (root : Address) (outside : Address → Prop) (x : Shared) : Prop :=
  ∀ a, x.address? = some a → outside a ∨ s.Rigid a ∨ ∃ kind, x = .bag kind root

theorem Free.mono (h : Free s root outside x) (keeps : s.Keeps s')
    (more : ∀ a, outside a → outside' a) : Free s' root outside' x :=
  fun a at' => (h a at').imp (more a) (Or.imp_left fun rigid => rigid.keep keeps)

/-- The cells inside are those of the bag; what is held, and what is mentioned outside, is free. A
cell that is neither inside nor outside is in no hands. -/
structure Sealed (σ : Holding) (root : Address) (inside outside : Address → Prop) : Prop where
  rooted : inside root ∨ σ.store.Rigid root
  held : ∀ x, σ.held x → Free σ.store root outside x
  drafts : ∀ a, σ.drafts a → outside a
  parts : ∀ a, outside a → ∀ x ∈ (σ.store.cellAt a).parts, Free σ.store root outside x
  apart : ∀ a, outside a → ¬inside a
  closed : ∀ a b, inside a → σ.store.Mentions a b → inside b ∨ σ.store.Rigid b
  bounded : ∀ a, inside a ∨ outside a → a < σ.store.length

/-- The bag of a holding is sealed. -/
def Seals (σ : Holding) (root : Address) : Prop := ∃ inside outside, σ.Sealed root inside outside

namespace Sealed

theorem free (h : σ.Sealed root inside outside) (holds : σ.Holds x) :
    Free σ.store root outside x := by
  intro a at'
  obtain ⟨y, held, at'', like⟩ := holds.exists_held at'
  rcases h.held y held a at'' with out | rigid | ⟨kind, rfl⟩
  · exact .inl out
  · exact .inr (.inl rigid)
  · cases at''
    rcases like with rfl | ⟨kind', -, rfl, -⟩
    · exact .inr (.inr ⟨kind, rfl⟩)
    · exact .inr (.inr ⟨kind', rfl⟩)

/-- The bag apart, what is held is outside or rigid. -/
theorem outside_or_rigid (h : σ.Sealed root inside outside) (held : σ.held x)
    (at' : x.address? = some a) (other : ∀ kind, x ≠ .bag kind root) :
    outside a ∨ σ.store.Rigid a :=
  (h.held x held a at').imp_right fun known =>
    known.resolve_right fun ⟨kind, same⟩ => other kind same

/-- What is held as a cell, and can be edited, is outside. -/
theorem outside_of_editable (h : σ.Sealed root inside outside)
    (held : σ.held (.cell a) ∨ σ.drafts a) (editable : (σ.store.cellAt a).editable = true) :
    outside a := by
  rcases held with held | draft
  · refine (h.outside_or_rigid held rfl fun _ same => by cases same).resolve_right fun rigid => ?_
    simp [rigid.not_editable] at editable
  · exact h.drafts a draft

/-- The parts of what is outside or rigid are free. -/
theorem free_parts (h : σ.Sealed root inside outside) (known : outside a ∨ σ.store.Rigid a) :
    ∀ x ∈ (σ.store.cellAt a).parts, Free σ.store root outside x := by
  rcases known with out | rigid
  · exact h.parts a out
  · exact fun x member b at' => .inr (.inl (rigid.part member at'))

/-- Any change that spares the inside, gives free values only, and adds new cells outside. -/
theorem change (h : σ.Sealed root inside outside) (outside' : Address → Prop)
    (spares : σ.store.Spares τ.store inside)
    (held : ∀ x, τ.held x → Free τ.store root outside' x) (drafts : ∀ a, τ.drafts a → outside' a)
    (parts : ∀ a, outside' a → ∀ x ∈ (τ.store.cellAt a).parts, Free τ.store root outside' x)
    (fresh : ∀ a, outside' a → outside a ∨ σ.store.length ≤ a ∧ a < τ.store.length) :
    τ.Sealed root inside outside' where
  rooted := h.rooted.imp_right fun rigid => rigid.keep spares.keeps
  held := held
  drafts := drafts
  parts := parts
  apart a out within := by
    rcases fresh a out with old | ⟨new, -⟩
    · exact h.apart a old within
    · exact Nat.not_lt_of_le new (h.bounded a (.inl within))
  closed a b within mentions := by
    rw [Store.Mentions, spares.cells a within] at mentions
    exact (h.closed a b within mentions).imp_right fun rigid => rigid.keep spares.keeps
  bounded a known := by
    rcases known with within | out
    · exact Nat.lt_of_lt_of_le (h.bounded a (.inl within)) spares.length_le
    · rcases fresh a out with old | ⟨-, less⟩
      · exact Nat.lt_of_lt_of_le (h.bounded a (.inr old)) spares.length_le
      · exact less

/-- Hands take free values up, and let others go. -/
theorem take (h : σ.Sealed root inside outside) {held : Shared → Prop} {drafts : Address → Prop}
    (free : ∀ x, held x → Free σ.store root outside x) (fewer : ∀ a, drafts a → σ.drafts a) :
    Sealed ⟨σ.store, held, drafts⟩ root inside outside :=
  h.change outside (.refl _ _) free (fun a draft => h.drafts a (fewer a draft)) h.parts
    fun _ => .inl

/-- New cells of free values come to be outside. -/
theorem grow (h : σ.Sealed root inside outside) (new : Address → Prop)
    (length_le : σ.store.length ≤ τ.store.length)
    (same : ∀ a < σ.store.length, τ.store.cellAt a = σ.store.cellAt a)
    (held : ∀ x, τ.held x → σ.held x ∨ Free τ.store root (fun a => outside a ∨ new a) x)
    (drafts : ∀ a, τ.drafts a → σ.drafts a ∨ new a)
    (parts : ∀ a, new a → ∀ x ∈ (τ.store.cellAt a).parts,
      Free τ.store root (fun a => outside a ∨ new a) x)
    (fresh : ∀ a, new a → σ.store.length ≤ a ∧ a < τ.store.length) :
    σ.store.Spares τ.store inside ∧ ∃ outside', τ.Sealed root inside outside' := by
  have spares := Store.spares_of_cellAt length_le same fun a within => h.bounded a (.inl within)
  refine ⟨spares, _, h.change (fun a => outside a ∨ new a) spares ?_ ?_ ?_ ?_⟩
  · intro x taken
    rcases held x taken with old | free
    · exact (h.held x old).mono spares.keeps fun _ => .inl
    · exact free
  · exact fun a draft => (drafts a draft).imp_left (h.drafts a)
  · rintro a (old | new) x member
    · rw [same a (h.bounded a (.inr old))] at member
      exact (h.parts a old x member).mono spares.keeps fun _ => .inl
    · exact parts a new x member
  · exact fun a known => known.imp_right (fresh a)

theorem lay (h : σ.Sealed root inside outside) {store : Store} (lays : σ.store.Lays store) :
    σ.store.Spares store inside ∧
      ∃ outside', ((σ.withStore store).hold (σ.store.New store)).Sealed root inside outside' := by
  refine h.grow (τ := (σ.withStore store).hold (σ.store.New store))
    (fun a => σ.store.length ≤ a ∧ a < store.length) lays.length_le
    (fun a old => lays.cellAt old) ?_ (fun a => .inl) ?_ (fun a => id)
  · exact fun x taken => taken.imp_right fun new a at' => .inl (.inr (new a at'))
  · rintro a ⟨later, less⟩ x member b at'
    obtain ⟨cells, -, inner⟩ := lays
    obtain ⟨later', before⟩ := inner a b later ⟨x, member, at'⟩
    exact .inl (.inr ⟨later', Nat.lt_trans before less⟩)

theorem gather (h : σ.Sealed root inside outside) {es : List (Value × Shared)}
    (held : ∀ e ∈ es, σ.Holds e.2) :
    σ.store.Spares (σ.store ++ [.dict es]) inside ∧ ∃ outside',
      ((σ.withStore (σ.store ++ [.dict es])).draft fun a => a = σ.store.length).Sealed root inside
        outside' := by
  refine h.grow (τ := (σ.withStore (σ.store ++ [.dict es])).draft fun a => a = σ.store.length)
    (fun a => a = σ.store.length) (by simp [withStore, draft])
    (fun a old => Store.cellAt_append_left old _) (fun x => .inl) (fun a => id) ?_ ?_
  · rintro a rfl x member
    rw [withStore, draft, Store.cellAt_concat] at member
    obtain ⟨e, listed, rfl⟩ := List.mem_map.mp member
    exact (h.free (held e listed)).mono (Store.keeps_append _ _) fun _ => .inl
  · rintro a rfl
    exact ⟨Nat.le_refl _, by simp [withStore, draft]⟩

section Copies

variable {kept : Address → Bool} {xs : List Shared} {store : Store}

/-- The cells of copies mention each other and rigid cells. -/
theorem free_copies (copies : s.Copies kept xs s') (ranked : s.Ranked)
    (given : ∀ x ∈ xs, ∀ a, x.address? = some a → a < s.length) (new : s.length ≤ a) :
    ∀ x ∈ (s'.cellAt a).parts,
      Free s' root (fun b => outside b ∨ s.length ≤ b ∧ b < s'.length) x := by
  intro x member b at'
  rcases copies.rigid_or_new ranked given new ⟨x, member, at'⟩ with rigid | fresh
  · exact .inr (.inl (rigid.keep copies.keeps))
  · exact .inl (.inr fresh)

theorem copy (h : σ.Sealed root inside outside) (grounded : σ.Grounded)
    (known : ∀ x ∈ xs, ∀ a, x.address? = some a → σ.Known a ∨ σ.drafts a)
    (copies : σ.store.Copies kept xs store) :
    σ.store.Spares store inside ∧ ∃ outside',
      (((σ.withStore store).hold fun x =>
        ∃ a b, σ.Copied kept xs a b ∧ ¬σ.drafts a ∧ x.address? = some b).draft fun b =>
        ∃ a, σ.Copied kept xs a b ∧ σ.drafts a).Sealed root inside outside' := by
  have given := grounded.source_lt known
  refine h.grow (τ := ((σ.withStore store).hold fun x =>
      ∃ a b, σ.Copied kept xs a b ∧ ¬σ.drafts a ∧ x.address? = some b).draft fun b =>
      ∃ a, σ.Copied kept xs a b ∧ σ.drafts a)
    (fun a => σ.store.length ≤ a ∧ a < store.length) copies.length_le
    (fun a old => copies.cellAt old) ?_ ?_ ?_ (fun a => id)
  · rintro x (old | ⟨a, b, ⟨⟨y, member, at'⟩, rfl⟩, -, known'⟩)
    · exact .inl old
    · refine .inr fun c at'' => ?_
      cases known'.symm.trans at''
      cases keep : kept a with
      | true =>
          rw [Store.place, if_pos keep]
          exact .inr (.inl ((copies.rigid a keep).keep copies.keeps))
      | false =>
          have reached := Store.mem_reach_self member at' (given y member a at') keep
          exact .inl (.inr (copies.place_new reached keep))
  · rintro b (old | ⟨a, copy, draft⟩)
    · exact .inl old
    · exact .inr (grounded.copied_draft copies copy draft).2.2
  · exact fun a new => free_copies copies grounded.ranked given new.1

end Copies

/-- The dictionary that is copied stays neither inside nor outside: it may hold parts of the bag. -/
theorem stow (h : σ.Sealed root inside outside) (grounded : σ.Grounded)
    {es : List (Value × Shared)} (known : ∀ e ∈ es, σ.Knows e.2) :
    σ.store.Spares (σ.store.copyEntries es).1 inside ∧ ∃ outside',
      ((σ.withStore (σ.store.copyEntries es).1).draft fun a =>
        a = (σ.store.copyEntries es).2).Sealed root inside outside' := by
  have gathered := grounded.gather fun e member b at' => grounded.known (known e member b at')
  have copies := Store.copied_copies (σ.store ++ [.dict es]) [.cell σ.store.length]
  have given : ∀ x ∈ [Shared.cell σ.store.length], ∀ a, x.address? = some a →
      a < (σ.store ++ [Cell.dict es]).length := by
    intro x member a at'
    rw [List.mem_singleton.mp member] at at'
    cases at'
    simp
  have less : σ.store.length ≤ (σ.store ++ [Cell.dict es]).length := by simp
  refine h.grow (τ := (σ.withStore (σ.store.copyEntries es).1).draft fun a =>
      a = (σ.store.copyEntries es).2)
    (fun a => (σ.store ++ [Cell.dict es]).length ≤ a ∧ a < (σ.store.copyEntries es).1.length)
    (Store.copyEntries_length_le _ _) (fun _ => Store.copyEntries_cellAt) (fun x => .inl) ?_ ?_ ?_
  · rintro a (old | rfl)
    · exact .inl old
    · exact .inr (Store.copyEntries_new σ.store es)
  · exact fun a new => free_copies copies gathered.ranked given new.1
  · exact fun a new => ⟨Nat.le_trans less new.1, new.2⟩

/-- An edit of a cell outside that takes up free values only. -/
theorem set (h : σ.Sealed root inside outside) {c : Cell} (out : outside a)
    (editable : (σ.store.cellAt a).editable = true)
    (parts : ∀ x ∈ c.parts, Free σ.store root outside x) :
    σ.store.Spares (σ.store.set a c) inside ∧
      (σ.withStore (σ.store.set a c)).Sealed root inside outside := by
  have keeps := Store.keeps_set editable c
  have spares : σ.store.Spares (σ.store.set a c) inside := by
    refine ⟨Nat.le_of_eq List.length_set.symm, keeps, fun b within => Store.cellAt_set_ne ?_ c⟩
    rintro rfl
    exact h.apart _ out within
  refine ⟨spares, h.change outside spares ?_ h.drafts ?_ fun _ => .inl⟩
  · exact fun x taken => (h.held x taken).mono keeps fun _ => id
  · intro b out' x member
    by_cases same : a = b
    · subst same
      rw [withStore, Store.cellAt_set_self (h.bounded a (.inr out))] at member
      exact (parts x member).mono keeps fun _ => id
    · rw [withStore, Store.cellAt_set_ne same] at member
      exact (h.parts b out' x member).mono keeps fun _ => id

theorem amend (h : σ.Sealed root inside outside) {laid store : Store}
    (held : σ.held (.cell a) ∨ σ.drafts a) (lays : σ.store.Lays laid)
    (edits : laid.Edits (σ.store.New laid) a store) :
    σ.store.Spares store inside ∧ ∃ outside', (σ.withStore store).Sealed root inside outside' := by
  obtain ⟨spares, outside', laidOut⟩ := h.lay lays
  rcases edits with rfl | ⟨c, rfl, -, editable, -, -, parts⟩
  · exact ⟨spares, outside', laidOut.take (fun x held => laidOut.held x (.inl held)) fun _ => id⟩
  have out : outside' a := laidOut.outside_of_editable (held.imp_left .inl) editable
  obtain ⟨spares', edited⟩ := laidOut.set (c := c) out editable fun x member => by
    rcases parts x member with old | new
    · exact laidOut.parts a out x old
    · exact laidOut.held x (.inr new)
  exact ⟨spares.trans spares', outside',
    edited.take (fun x held => edited.held x (.inl held)) fun _ => id⟩

theorem put (h : σ.Sealed root inside outside) (grounded : σ.Grounded)
    {es : List (Value × Shared)} (draft : σ.drafts a)
    (parts : ∀ e ∈ es, e.2 ∈ (σ.store.cellAt a).parts ∨ σ.Holds e.2) :
    σ.store.Spares (σ.store.set a (.dict es)) inside ∧
      (σ.withStore (σ.store.set a (.dict es))).Sealed root inside outside := by
  refine h.set (h.drafts a draft) (grounded.drafts a draft).2 ?_
  refine List.forall_mem_map.mpr fun e listed => ?_
  rcases parts e listed with old | held
  · exact h.parts a (h.drafts a draft) e.2 old
  · exact h.free held

/-- No move but a look into the bag breaks the seal. -/
theorem move (h : σ.Sealed root inside outside) (grounded : σ.Grounded) (m : Move rights σ τ)
    (unseen : ¬rights.view root) :
    σ.store.Spares τ.store inside ∧ ∃ outside', τ.Sealed root inside outside' := by
  cases m with
  | forget fewer fewer' =>
      exact ⟨.refl _ _, outside, h.take (fun x held => h.free (fewer x held)) fewer'⟩
  | lay lays => exact h.lay lays
  | gather held => exact h.gather held
  | release draft =>
      refine ⟨.refl _ _, outside, h.take ?_ fun a old => old.1⟩
      rintro x (old | new)
      · exact h.held x old
      · intro b at'
        cases new.symm.trans at'
        exact .inl (h.drafts _ draft)
  | part held =>
      have known := h.outside_or_rigid held rfl fun _ same => by cases same
      refine ⟨.refl _ _, outside, h.take ?_ fun _ => id⟩
      exact fun x taken => taken.elim (h.held x) (h.free_parts known x)
  | view held allowed =>
      have known := h.outside_or_rigid held rfl fun _ same => by
        cases same
        exact unseen allowed
      refine ⟨.refl _ _, outside, h.take ?_ fun _ => id⟩
      exact fun x taken => taken.elim (h.held x) (h.free_parts known x)
  | copy known copies => exact h.copy grounded known copies
  | stow known => exact h.stow grounded known
  | amend held lays edits => exact h.amend (held.imp_left And.left) lays edits
  | put draft parts =>
      obtain ⟨spares, kept⟩ := h.put grounded draft parts
      exact ⟨spares, outside, kept⟩

theorem moves (h : σ.Sealed root inside outside) (grounded : σ.Grounded) (ms : Moves rights σ τ)
    (unseen : ¬rights.view root) :
    σ.store.Spares τ.store inside ∧ ∃ outside', τ.Sealed root inside outside' := by
  induction ms with
  | refl => exact ⟨.refl _ _, outside, h⟩
  | tail before last ih =>
      obtain ⟨spares, outside', kept⟩ := ih
      obtain ⟨spares', last'⟩ := kept.move (grounded.moves before) last unseen
      exact ⟨spares.trans spares', last'⟩

end Sealed

/-- A bag stays sealed, and reads as before, for as long as nobody looks into it. -/
theorem Seals.moves (h : σ.Seals root) (grounded : σ.Grounded) (ms : Moves rights σ τ)
    (unseen : ¬rights.view root) :
    τ.Seals root ∧ τ.store.optionsAt root = σ.store.optionsAt root ∧
      ∀ kind, τ.store.read (.bag kind root) = σ.store.read (.bag kind root) := by
  obtain ⟨inside, outside, kept⟩ := h
  obtain ⟨spares, outside', kept'⟩ := kept.moves grounded ms unseen
  have bounded := fun a within => kept.bounded a (.inl within)
  refine ⟨⟨inside, outside', kept'⟩, ?_, fun kind => ?_⟩
  · exact spares.optionsAt grounded.ranked kept.closed bounded kept.rooted
  · refine spares.read grounded.ranked kept.closed bounded fun a at' => ?_
    cases at'
    exact kept.rooted

/-- New cells that mention rigid and new cells only are sealed when they are in nobody's hands but
those of a bag. -/
theorem Grounded.sealed (h : σ.Grounded) {store : Store} (length_le : σ.store.length ≤ store.length)
    (same : ∀ a < σ.store.length, store.cellAt a = σ.store.cellAt a)
    (inner : ∀ a b, σ.store.length ≤ a → store.Mentions a b →
      store.Rigid b ∨ σ.store.length ≤ b ∧ b < store.length)
    (rooted : store.Rigid root ∨ σ.store.length ≤ root ∧ root < store.length) :
    Seals ⟨store, fun x => σ.held x ∨ ∃ kind, x = .bag kind root, σ.drafts⟩ root := by
  refine ⟨fun a => σ.store.length ≤ a ∧ a < store.length, fun a => a < σ.store.length, rooted.symm,
    ?_, fun a draft => (h.drafts a draft).1, ?_, ?_, ?_, ?_⟩
  · rintro x (old | ⟨kind, rfl⟩) a at'
    · exact .inl (h.held x a old at').1
    · exact .inr (.inr ⟨kind, rfl⟩)
  · intro a old x member b at'
    rw [same a old] at member
    exact .inl (h.mentioned ⟨x, member, at'⟩).1
  · exact fun a old new => Nat.not_lt_of_le new.1 old
  · exact fun a b new mentions => (inner a b new.1 mentions).symm
  · rintro a (new | old)
    · exact new.2
    · exact Nat.lt_of_lt_of_le old length_le

/-- The new store, with its new cell in the hands of a bag. -/
def withBag (σ : Holding) (p : Store × Address) : Holding :=
  ⟨p.1, fun x => σ.held x ∨ ∃ kind, x = .bag kind p.2, σ.drafts⟩

/-- Moves lead to a bag that is sealed. -/
structure Sealing (rights : Rights) (σ : Holding) (p : Store × Address) : Prop where
  moves : Moves rights σ (σ.withBag p)
  seals : (σ.withBag p).Seals p.2

theorem Grounded.copyCell (h : σ.Grounded) (known : σ.Known a ∨ σ.drafts a) :
    Sealing rights σ (σ.store.copyCell a) := by
  have copies := Store.copied_copies σ.store [.cell a]
  have source : ∀ x ∈ [Shared.cell a], ∀ b, x.address? = some b → σ.Known b ∨ σ.drafts b := by
    intro x member b at'
    rw [List.mem_singleton.mp member] at at'
    cases at'
    exact known
  have given := h.source_lt source
  have inside := given _ (List.mem_singleton_self _) a rfl
  have copied : σ.Copied σ.store.isFixed [.cell a] a (σ.store.copyCell a).2 :=
    ⟨⟨_, List.mem_singleton_self _, rfl⟩, rfl⟩
  refine ⟨?_, h.sealed copies.length_le (fun b old => copies.cellAt old) ?_ ?_⟩
  · by_cases draft : σ.drafts a
    -- the copy of a draft is a draft until it is handed out
    · refine ((Relation.ReflTransGen.single (.copy source copies)).tail
        (.release (.inr ⟨a, copied, draft⟩))).tail (.forget ?_ ?_)
      · rintro x (old | ⟨kind, rfl⟩)
        · exact holds_of_held (.inl (.inl old))
        · exact holds_of_held (.inr rfl)
      · intro b old
        refine ⟨.inl old, fun same => ?_⟩
        have new := (h.copied_draft copies copied draft).2.2.1
        exact Nat.not_lt_of_le new (same ▸ (h.drafts b old).1)
    · refine (Relation.ReflTransGen.single (.copy source copies)).tail (.forget ?_ fun b => Or.inl)
      rintro x (old | ⟨kind, rfl⟩)
      · exact holds_of_held (.inl old)
      · exact holds_of_held (.inr ⟨a, _, copied, draft, rfl⟩)
  · intro b c new mentions
    exact (copies.rigid_or_new h.ranked given new mentions).imp_left fun rigid =>
      rigid.keep copies.keeps
  · rw [copied.2]
    cases keep : σ.store.isFixed a with
    | true =>
        rw [Store.place, if_pos keep]
        exact .inl ((copies.rigid a keep).keep copies.keeps)
    | false =>
        have reached := Store.mem_reach_self (List.mem_singleton_self (.cell a)) rfl inside keep
        exact .inr (copies.place_new reached keep)

theorem Grounded.copyEntries (h : σ.Grounded) {es : List (Value × Shared)}
    (known : ∀ e ∈ es, σ.Knows e.2) : Sealing rights σ (σ.store.copyEntries es) := by
  have gathered := h.gather fun e member b at' => h.known (known e member b at')
  have seals := (gathered.copyCell (.inr (.inr rfl)) : Sealing rights _ _).seals
  refine ⟨?_, ?_⟩
  · refine ((Relation.ReflTransGen.single (.stow known)).tail (.release (.inr rfl))).tail
      (.forget ?_ ?_)
    · rintro x (old | ⟨kind, rfl⟩)
      · exact holds_of_held (.inl old)
      · exact holds_of_held (.inr rfl)
    · intro b old
      refine ⟨.inl old, fun same => ?_⟩
      refine Nat.not_lt_of_le (Store.copyEntries_new σ.store es).1 (same ▸ ?_)
      exact Nat.lt_of_lt_of_le (h.drafts b old).1 (by simp)
  · obtain ⟨inside, outside, sealed⟩ := seals
    exact ⟨inside, outside, sealed.take (fun x => sealed.held x) fun a => .inl⟩

theorem Grounded.emptyBag (h : σ.Grounded) :
    Sealing rights σ (σ.store ++ [.dict []], σ.store.length) := by
  have lays : σ.store.Lays (σ.store ++ [.dict []]) :=
    (Store.Lays.refl σ.store).concat fun _ member => by cases member
  refine ⟨(Relation.ReflTransGen.single (.lay lays)).tail (.forget ?_ fun _ => id), ?_⟩
  · rintro x (old | ⟨kind, rfl⟩)
    · exact holds_of_held (.inl old)
    · exact holds_of_held (.inr <| Store.new_last (Nat.le_refl _) rfl rfl)
  · refine h.sealed lays.length_le (fun b old => lays.cellAt old) ?_ (.inr ⟨Nat.le_refl _, by simp⟩)
    intro a b new mentions
    have inside := mentions.lt
    obtain ⟨cells, -, inner⟩ := lays
    obtain ⟨later, before⟩ := inner a b new mentions
    exact .inr ⟨later, Nat.lt_trans before inside⟩

theorem Grounded.copyBag (h : σ.Grounded) (known : σ.Knows x) :
    Sealing rights σ (σ.store.copyBag x) := by
  cases x with
  | leaf v => exact h.emptyBag
  | cell a => exact h.emptyBag
  | bag kind a => exact h.copyCell (.inl (known a rfl))

end Holding

end ClientRegistry
