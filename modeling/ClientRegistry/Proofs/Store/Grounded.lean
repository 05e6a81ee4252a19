import ClientRegistry.Proofs.Store.Holding

/-! Grounded holdings: the store has no cycles, all that is held is in it, and the cells of drafts
are in no other hands and no other cell. Every move keeps a holding grounded. -/

namespace ClientRegistry

namespace Store

variable {s s' : Store} {a : Address}

theorem Ranked.lays (h : s.Ranked) (laid : s.Lays s') : s'.Ranked := by
  obtain ⟨rank, below⟩ := h
  refine ⟨fun a => if a < s.length then rank a else a, fun a b mentions => ?_⟩
  by_cases old : a < s.length
  · rw [Mentions, laid.cellAt old] at mentions
    obtain ⟨inside, lower⟩ := below a b mentions
    refine ⟨Nat.lt_of_lt_of_le inside laid.length_le, ?_⟩
    simpa only [inside, old, if_true] using lower
  · have inside := mentions.lt
    obtain ⟨cells, rfl, inner⟩ := laid
    obtain ⟨new, before⟩ := inner a b (Nat.le_of_not_lt old) mentions
    refine ⟨Nat.lt_trans before inside, ?_⟩
    simpa only [old, Nat.not_lt_of_le new, if_false] using before

/-- A new cell ranks above all cells. -/
theorem Ranked.concat (h : s.Ranked) {c : Cell}
    (parts : ∀ x ∈ c.parts, ∀ b, x.address? = some b → b < s.length) : (s ++ [c]).Ranked := by
  obtain ⟨rank, below, bounded⟩ := h.bounded
  refine ⟨fun a => if a < s.length then rank a else s.length, fun a b mentions => ?_⟩
  have inside := mentions.lt
  rw [List.length_append, List.length_singleton] at inside ⊢
  rcases Nat.lt_succ_iff_lt_or_eq.mp inside with old | rfl
  · rw [Mentions, cellAt_append_left old] at mentions
    obtain ⟨inside', lower⟩ := below a b mentions
    refine ⟨Nat.lt_succ_of_lt inside', ?_⟩
    simpa only [inside', old, if_true] using lower
  · obtain ⟨x, member, known⟩ := mentions
    rw [cellAt_concat] at member
    have inside' := parts x member b known
    refine ⟨Nat.lt_succ_of_lt inside', ?_⟩
    simpa only [inside', Nat.lt_irrefl, if_true, if_false] using bounded b inside'

/-- A cell that no cell mentions can be ranked above all cells. -/
theorem Ranked.top (h : s.Ranked) {c : Cell} (alone : ∀ b, ¬s.Mentions b a)
    (parts : ∀ x ∈ c.parts, ∀ b, x.address? = some b → b < s.length ∧ b ≠ a) :
    Ranked (s.set a c) := by
  obtain ⟨rank, below, bounded⟩ := h.bounded
  refine ⟨fun b => if b = a then s.length else rank b, fun b d mentions => ?_⟩
  have inside := mentions.lt
  rw [List.length_set] at inside ⊢
  by_cases same : b = a
  · subst same
    obtain ⟨x, member, known⟩ := mentions
    rw [cellAt_set_self inside] at member
    obtain ⟨inside', ne⟩ := parts x member d known
    refine ⟨inside', ?_⟩
    simpa only [ne, if_true, if_false] using bounded d inside'
  · rw [Mentions, cellAt_set_ne (Ne.symm same)] at mentions
    obtain ⟨inside', lower⟩ := below b d mentions
    have ne : d ≠ a := fun eq => alone b (eq ▸ mentions)
    refine ⟨inside', ?_⟩
    simpa only [same, ne, if_false] using lower

/-- New cells rank below all old ones, so an old one may take them up. -/
theorem Ranked.amend (h : s.Ranked) (laid : s.Lays s') {c : Cell} (old : a < s.length)
    (parts : ∀ x ∈ c.parts, x ∈ (s.cellAt a).parts ∨ s.New s' x) : Ranked (s'.set a c) := by
  have less := laid.length_le
  obtain ⟨rank, below⟩ := h
  let lifted := fun b => if b < s.length then rank b + s'.length else b
  have kept : ∀ b d, b < s.length → s.Mentions b d → d < s'.length ∧ lifted d < lifted b := by
    intro b d inside mentions
    obtain ⟨inside', lower⟩ := below b d mentions
    refine ⟨Nat.lt_of_lt_of_le inside' less, ?_⟩
    simpa only [lifted, inside, inside', if_true] using Nat.add_lt_add_right lower _
  refine ⟨lifted, fun b d mentions => ?_⟩
  have inside := mentions.lt
  rw [List.length_set] at inside ⊢
  by_cases same : b = a
  · subst same
    obtain ⟨x, member, known⟩ := mentions
    rw [cellAt_set_self inside] at member
    rcases parts x member with there | new
    · exact kept b d old ⟨x, there, known⟩
    · obtain ⟨later, inside'⟩ := new d known
      refine ⟨inside', ?_⟩
      simp only [lifted, old, Nat.not_lt_of_le later, if_true, if_false]
      exact Nat.lt_of_lt_of_le inside' (Nat.le_add_left _ _)
  · rw [Mentions, cellAt_set_ne (Ne.symm same)] at mentions
    by_cases early : b < s.length
    · rw [laid.cellAt early] at mentions
      exact kept b d early mentions
    · obtain ⟨cells, rfl, inner⟩ := laid
      obtain ⟨new, before⟩ := inner b d (Nat.le_of_not_lt early) mentions
      refine ⟨Nat.lt_trans before inside, ?_⟩
      simpa only [lifted, early, Nat.not_lt_of_le new, if_false] using before

end Store

namespace Holding

variable {rights : Rights} {σ τ : Holding} {x : Shared} {a b : Address}

structure Grounded (σ : Holding) : Prop where
  ranked : σ.store.Ranked
  held : ∀ x a, σ.held x → x.address? = some a → a < σ.store.length ∧ ¬σ.drafts a
  drafts : ∀ a, σ.drafts a → a < σ.store.length ∧ (σ.store.cellAt a).editable = true
  alone : ∀ a b, σ.drafts a → ¬σ.store.Mentions b a

namespace Grounded

theorem mentioned (h : σ.Grounded) (mentions : σ.store.Mentions a b) :
    b < σ.store.length ∧ ¬σ.drafts b := by
  obtain ⟨rank, below⟩ := h.ranked
  exact ⟨(below a b mentions).1, fun draft => h.alone b a draft mentions⟩

theorem holds (h : σ.Grounded) (holds : σ.Holds x) (known : x.address? = some a) :
    a < σ.store.length ∧ ¬σ.drafts a := by
  obtain ⟨y, held, at', -⟩ := holds.exists_held known
  exact h.held y a held at'

theorem known (h : σ.Grounded) (known : σ.Known a) : a < σ.store.length ∧ ¬σ.drafts a := by
  cases known with
  | held held known => exact h.held _ a held known
  | mentioned _ mentions => exact h.mentioned mentions

theorem source_lt (h : σ.Grounded) {xs : List Shared}
    (known : ∀ x ∈ xs, ∀ a, x.address? = some a → σ.Known a ∨ σ.drafts a) :
    ∀ x ∈ xs, ∀ a, x.address? = some a → a < σ.store.length := by
  intro x member a at'
  rcases known x member a at' with known | draft
  · exact (h.known known).1
  · exact (h.drafts a draft).1

theorem forget (h : σ.Grounded) {held : Shared → Prop} {drafts : Address → Prop}
    (fewer : ∀ x, held x → σ.Holds x) (fewer' : ∀ a, drafts a → σ.drafts a) :
    Grounded ⟨σ.store, held, drafts⟩ where
  ranked := h.ranked
  held x a old known := by
    obtain ⟨inside, plain⟩ := h.holds (fewer x old) known
    exact ⟨inside, fun draft => plain (fewer' a draft)⟩
  drafts a draft := h.drafts a (fewer' a draft)
  alone a b draft := h.alone a b (fewer' a draft)

theorem lay (h : σ.Grounded) {store : Store} (lays : σ.store.Lays store) :
    ((σ.withStore store).hold (σ.store.New store)).Grounded where
  ranked := h.ranked.lays lays
  held x a held known := by
    rcases held with old | new
    · obtain ⟨inside, plain⟩ := h.held x a old known
      exact ⟨Nat.lt_of_lt_of_le inside lays.length_le, plain⟩
    · obtain ⟨later, inside⟩ := new a known
      exact ⟨inside, fun draft => Nat.not_lt_of_le later (h.drafts a draft).1⟩
  drafts a draft := by
    obtain ⟨inside, editable⟩ := h.drafts a draft
    exact ⟨Nat.lt_of_lt_of_le inside lays.length_le, (lays.cellAt inside).symm ▸ editable⟩
  alone a b draft mentions := by
    have inside := (h.drafts a draft).1
    by_cases old : b < σ.store.length
    · refine h.alone a b draft ?_
      rw [Store.Mentions, ← lays.cellAt old]
      exact mentions
    · obtain ⟨cells, -, inner⟩ := lays
      exact Nat.not_lt_of_le (inner b a (Nat.le_of_not_lt old) mentions).1 inside

theorem release (h : σ.Grounded) (draft : σ.drafts a) :
    Grounded ⟨σ.store, fun x => σ.held x ∨ x.address? = some a, fun b => σ.drafts b ∧ b ≠ a⟩ where
  ranked := h.ranked
  held x b held known := by
    rcases held with old | new
    · obtain ⟨inside, plain⟩ := h.held x b old known
      exact ⟨inside, fun draft => plain draft.1⟩
    · cases new.symm.trans known
      exact ⟨(h.drafts a draft).1, fun other => other.2 rfl⟩
  drafts b draft := h.drafts b draft.1
  alone b c draft := h.alone b c draft.1

/-- Taking parts in hand, of cells or of bags. -/
theorem hold_parts (h : σ.Grounded) (a : Address) :
    (σ.hold fun x => x ∈ (σ.store.cellAt a).parts).Grounded where
  ranked := h.ranked
  held x b held known := by
    rcases held with old | part
    · exact h.held x b old known
    · exact h.mentioned ⟨x, part, known⟩
  drafts := h.drafts
  alone := h.alone

/-- A new dictionary of values that are in the store and no drafts becomes a draft. -/
theorem gather (h : σ.Grounded) {es : List (Value × Shared)}
    (parts : ∀ e ∈ es, ∀ b, e.2.address? = some b → b < σ.store.length ∧ ¬σ.drafts b) :
    ((σ.withStore (σ.store ++ [.dict es])).draft fun a => a = σ.store.length).Grounded where
  ranked := h.ranked.concat (List.forall_mem_map.mpr fun e member b known =>
    (parts e member b known).1)
  held x a held known := by
    obtain ⟨inside, plain⟩ := h.held x a held known
    refine ⟨by simpa [withStore, draft] using Nat.lt_succ_of_lt inside, ?_⟩
    rintro (draft | rfl)
    · exact plain draft
    · exact Nat.lt_irrefl _ inside
  drafts a draft := by
    rcases draft with old | rfl
    · obtain ⟨inside, editable⟩ := h.drafts a old
      refine ⟨by simpa [withStore, Holding.draft] using Nat.lt_succ_of_lt inside, ?_⟩
      exact (Store.cellAt_append_left inside _).symm ▸ editable
    · exact ⟨by simp [withStore, Holding.draft], (Store.cellAt_concat _ _).symm ▸ rfl⟩
  alone a b draft mentions := by
    have mentioned : a < σ.store.length ∧ ¬σ.drafts a := by
      have inside := mentions.lt
      simp only [withStore, Holding.draft, List.length_append, List.length_singleton] at inside
      rcases Nat.lt_succ_iff_lt_or_eq.mp inside with old | rfl
      · rw [Store.Mentions, withStore, Holding.draft, Store.cellAt_append_left old] at mentions
        exact h.mentioned mentions
      · obtain ⟨x, member, known⟩ := mentions
        rw [withStore, Holding.draft, Store.cellAt_concat] at member
        obtain ⟨e, listed, rfl⟩ := List.mem_map.mp member
        exact parts e listed a known
    rcases draft with old | rfl
    · exact mentioned.2 old
    · exact Nat.lt_irrefl _ mentioned.1

section Copies

variable {kept : Address → Bool} {xs : List Shared} {store : Store}

/-- The cell of a draft can be edited, so it is copied, and its copy is a new cell. -/
theorem copied_draft (h : σ.Grounded) (copies : σ.store.Copies kept xs store)
    (copy : σ.Copied kept xs a b) (draft : σ.drafts a) :
    kept a = false ∧ a ∈ σ.store.reach kept xs ∧ σ.store.length ≤ b ∧ b < store.length := by
  obtain ⟨⟨x, member, at'⟩, rfl⟩ := copy
  obtain ⟨inside, editable⟩ := h.drafts a draft
  have copied : kept a = false := by
    rw [← Bool.not_eq_true]
    intro keep
    simp [(copies.rigid a keep).not_editable] at editable
  have reached := Store.mem_reach_self member at' inside copied
  exact ⟨copied, reached, copies.place_new reached copied⟩

/-- What is no draft has no copy that is one. -/
theorem copied_plain (h : σ.Grounded) (copies : σ.store.Copies kept xs store)
    (inside : a < σ.store.length) (plain : ¬σ.drafts a)
    (closed : kept a = true ∨ a ∈ σ.store.reach kept xs)
    (copy : b = σ.store.place kept (σ.store.reach kept xs) a) :
    b < store.length ∧ ¬(σ.drafts b ∨ ∃ d, σ.Copied kept xs d b ∧ σ.drafts d) := by
  subst copy
  cases keep : kept a with
  | true =>
      rw [Store.place, if_pos keep]
      refine ⟨Nat.lt_of_lt_of_le inside copies.length_le, ?_⟩
      rintro (draft | ⟨d, copy, draft⟩)
      · exact plain draft
      · exact Nat.not_lt_of_le (h.copied_draft copies copy draft).2.2.1 inside
  | false =>
      have reached := closed.resolve_left (by simp [keep])
      obtain ⟨new, inside'⟩ := copies.place_new reached keep
      refine ⟨inside', ?_⟩
      rintro (draft | ⟨d, copy, draft⟩)
      · exact Nat.not_lt_of_le new (h.drafts _ draft).1
      · obtain ⟨copied, -, -⟩ := h.copied_draft copies copy draft
        have same := Store.Copies.place_inj reached keep copied copy.2
        exact plain (same ▸ draft)

theorem copy (h : σ.Grounded)
    (known : ∀ x ∈ xs, ∀ a, x.address? = some a → σ.Known a ∨ σ.drafts a)
    (copies : σ.store.Copies kept xs store) :
    (((σ.withStore store).hold fun x =>
      ∃ a b, σ.Copied kept xs a b ∧ ¬σ.drafts a ∧ x.address? = some b).draft fun b =>
      ∃ a, σ.Copied kept xs a b ∧ σ.drafts a).Grounded := by
  have given := h.source_lt known
  refine ⟨copies.ranked h.ranked given, ?_, ?_, ?_⟩
  · rintro x b (old | ⟨a, b', copy, plain, known'⟩) known
    · obtain ⟨inside, plain⟩ := h.held x b old known
      refine ⟨Nat.lt_of_lt_of_le inside copies.length_le, ?_⟩
      rintro (draft | ⟨a, copy, draft⟩)
      · exact plain draft
      · exact Nat.not_lt_of_le (h.copied_draft copies copy draft).2.2.1 inside
    · cases known'.symm.trans known
      obtain ⟨⟨y, member, at'⟩, place⟩ := copy
      have inside := given y member a at'
      refine h.copied_plain copies inside plain ?_ place
      cases keep : kept a with
      | true => exact .inl rfl
      | false => exact .inr (Store.mem_reach_self member at' inside keep)
  · rintro b (old | ⟨a, copy, draft⟩)
    · obtain ⟨inside, editable⟩ := h.drafts b old
      exact ⟨Nat.lt_of_lt_of_le inside copies.length_le, (copies.cellAt inside).symm ▸ editable⟩
    · obtain ⟨copied, reached, new, inside⟩ := h.copied_draft copies copy draft
      obtain ⟨-, rfl⟩ := copy
      exact ⟨inside, (copies.twin_place reached copied).1.trans (h.drafts a draft).2⟩
  · intro a b draft mentions
    by_cases old : b < σ.store.length
    · have mentioned : σ.store.Mentions b a := by
        rw [Store.Mentions, ← copies.cellAt old]
        exact mentions
      obtain ⟨inside, plain⟩ := h.mentioned mentioned
      rcases draft with there | ⟨c, copy, draft⟩
      · exact plain there
      · exact Nat.not_lt_of_le (h.copied_draft copies copy draft).2.2.1 inside
    · obtain ⟨c, d, -, -, mentioned, place, closed⟩ :=
        copies.mentions_new h.ranked given (Nat.le_of_not_lt old) mentions
      obtain ⟨inside, plain⟩ := h.mentioned mentioned
      exact (h.copied_plain copies inside plain closed place).2 draft

end Copies

/-- The dictionary that is copied counts as a draft until it has been copied. -/
theorem stow (h : σ.Grounded) {es : List (Value × Shared)} (known : ∀ e ∈ es, σ.Knows e.2) :
    ((σ.withStore (σ.store.copyEntries es).1).draft fun a =>
      a = (σ.store.copyEntries es).2).Grounded := by
  have gathered := h.gather fun e member b at' => h.known (known e member b at')
  have source : ∀ x ∈ [Shared.cell σ.store.length], ∀ a, x.address? = some a →
      ((σ.withStore (σ.store ++ [.dict es])).draft fun a => a = σ.store.length).Known a ∨
        ((σ.withStore (σ.store ++ [.dict es])).draft fun a => a = σ.store.length).drafts a := by
    intro x member a at'
    rw [List.mem_singleton.mp member] at at'
    cases at'
    exact .inr (.inr rfl)
  refine (gathered.copy source (Store.copied_copies _ _)).forget ?_ ?_
  · exact fun x held => holds_of_held (.inl held)
  · rintro a (old | rfl)
    · exact .inl (.inl old)
    · exact .inr ⟨_, ⟨⟨_, List.mem_singleton_self _, rfl⟩, rfl⟩, .inr rfl⟩

theorem amend (h : σ.Grounded) {laid store : Store} (held : σ.held (.cell a) ∨ σ.drafts a)
    (lays : σ.store.Lays laid) (edits : laid.Edits (σ.store.New laid) a store) :
    (σ.withStore store).Grounded := by
  have laidOut : (σ.withStore laid).Grounded :=
    (h.lay lays).forget (fun _ held => holds_of_held (.inl held)) fun _ => id
  rcases edits with rfl | ⟨c, rfl, -, -, editable, -, parts⟩
  · exact laidOut
  have inside : a < σ.store.length := by
    rcases held with held | draft
    · exact (h.held _ a held rfl).1
    · exact (h.drafts a draft).1
  rw [lays.cellAt inside] at parts
  have inside' := Nat.lt_of_lt_of_le inside lays.length_le
  refine ⟨h.ranked.amend lays inside parts, ?_, ?_, ?_⟩
  · intro x b held known
    simpa only [withStore, List.length_set] using laidOut.held x b held known
  · intro b draft
    obtain ⟨there, editable'⟩ := laidOut.drafts b draft
    refine ⟨by simpa only [withStore, List.length_set] using there, ?_⟩
    by_cases same : a = b
    · subst same
      exact (Store.cellAt_set_self inside' c).symm ▸ editable
    · exact (Store.cellAt_set_ne same c).symm ▸ editable'
  · intro b d draft mentions
    by_cases same : a = d
    · subst same
      obtain ⟨x, member, known⟩ := mentions
      rw [withStore, Store.cellAt_set_self inside'] at member
      rcases parts x member with old | new
      · exact h.alone b a draft ⟨x, old, known⟩
      · exact Nat.not_lt_of_le (new b known).1 (h.drafts b draft).1
    · refine laidOut.alone b d draft ?_
      rw [Store.Mentions, withStore, Store.cellAt_set_ne same] at mentions
      exact mentions

theorem put (h : σ.Grounded) {es : List (Value × Shared)} (draft : σ.drafts a)
    (parts : ∀ e ∈ es, e.2 ∈ (σ.store.cellAt a).parts ∨ σ.Holds e.2) :
    (σ.withStore (σ.store.set a (.dict es))).Grounded := by
  obtain ⟨inside, -⟩ := h.drafts a draft
  have plain : ∀ x ∈ (Cell.dict es).parts, ∀ b, x.address? = some b →
      b < σ.store.length ∧ ¬σ.drafts b := by
    refine List.forall_mem_map.mpr fun e member b known => ?_
    rcases parts e member with old | held
    · exact h.mentioned ⟨e.2, old, known⟩
    · exact h.holds held known
  refine ⟨h.ranked.top (fun b => h.alone a b draft) ?_, ?_, ?_, ?_⟩
  · intro x member b known
    exact ⟨(plain x member b known).1, fun same => (plain x member b known).2 (same ▸ draft)⟩
  · intro x b held known
    simpa only [withStore, List.length_set] using h.held x b held known
  · intro b draft'
    obtain ⟨there, editable⟩ := h.drafts b draft'
    refine ⟨by simpa only [withStore, List.length_set] using there, ?_⟩
    by_cases same : a = b
    · subst same
      exact (Store.cellAt_set_self inside _).symm ▸ rfl
    · exact (Store.cellAt_set_ne same _).symm ▸ editable
  · intro b d draft' mentions
    by_cases same : a = d
    · subst same
      obtain ⟨x, member, known⟩ := mentions
      rw [withStore, Store.cellAt_set_self inside] at member
      exact (plain x member b known).2 draft'
    · refine h.alone b d draft' ?_
      rw [Store.Mentions, withStore, Store.cellAt_set_ne same] at mentions
      exact mentions

theorem move (h : σ.Grounded) (m : Move rights σ τ) : τ.Grounded := by
  cases m with
  | forget fewer fewer' => exact h.forget fewer fewer'
  | lay lays => exact h.lay lays
  | gather held => exact h.gather fun e member b known => h.holds (held e member) known
  | release draft => exact h.release draft
  | part held => exact h.hold_parts _
  | view held allowed => exact h.hold_parts _
  | copy known copies => exact h.copy known copies
  | stow known => exact h.stow known
  | amend held lays edits => exact h.amend (held.imp_left And.left) lays edits
  | put draft parts => exact h.put draft parts

theorem moves (h : σ.Grounded) (ms : Moves rights σ τ) : τ.Grounded := by
  induction ms with
  | refl => exact h
  | tail _ last ih => exact ih.move last

end Grounded

end Holding

end ClientRegistry
