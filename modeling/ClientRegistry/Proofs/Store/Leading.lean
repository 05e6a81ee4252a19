import ClientRegistry.Proofs.Store.Sealed

/-! Moves that give nothing up. What a step takes in hand, one after the other, stays in hand until
the step is done. -/

namespace ClientRegistry

namespace Store

variable {s s' : Store} {x : Shared}

theorem Lays.closed (h : s.Lays s') : s'.Closed (s.New s') where
  leaf := New.leaf
  parts a new x member b at' := by
    obtain ⟨later, inside⟩ := new a rfl
    obtain ⟨cells, -, inner⟩ := h
    obtain ⟨later', before⟩ := inner a b later ⟨x, member, at'⟩
    exact ⟨later', Nat.lt_trans before inside⟩

theorem Ranked.closed (h : s.Ranked) :
    s.Closed fun x => ∀ a, x.address? = some a → a < s.length where
  leaf _ _ at' := by cases at'
  parts a _ x member b at' := by
    obtain ⟨rank, below⟩ := h
    exact (below a b ⟨x, member, at'⟩).1

/-- A path does not lead to what comes later. -/
theorem Ranked.walk_append (h : s.Ranked) (cells : List Cell)
    (inside : ∀ a, x.address? = some a → a < s.length) (path : List Value) :
    walk (s ++ cells) x path = s.walk x path := by
  induction path generalizing x with
  | nil => rfl
  | cons key rest ih =>
      have same : part (s ++ cells) x key = s.part x key := by
        cases x with
        | cell a => simp only [Store.part, List.getElem?_append_left (inside a rfl)]
        | _ => rfl
      simp only [Store.walk, same]
      cases found : s.part x key with
      | error e => rfl
      | ok y => exact ih (h.closed.part inside found)

theorem Lays.walk (h : s.Lays s') (ranked : s.Ranked)
    (inside : ∀ a, x.address? = some a → a < s.length) (path : List Value) :
    s'.walk x path = s.walk x path := by
  obtain ⟨cells, rfl, -⟩ := h
  exact ranked.walk_append cells inside path

end Store

namespace Holding

variable {rights : Rights} {σ τ υ : Holding} {x y : Shared} {a : Address}

structure Leads (rights : Rights) (σ τ : Holding) : Prop where
  moves : Moves rights σ τ
  within : σ.Within τ

namespace Leads

theorem refl (σ : Holding) : Leads rights σ σ := ⟨.refl, .refl σ⟩

theorem trans (first : Leads rights σ τ) (second : Leads rights τ υ) : Leads rights σ υ :=
  ⟨first.moves.trans second.moves, first.within.trans second.within⟩

theorem holds (h : Leads rights σ τ) (holds : σ.Holds x) : τ.Holds x := h.within.holds holds

theorem grounded (h : Leads rights σ τ) (grounded : σ.Grounded) : τ.Grounded :=
  grounded.moves h.moves

end Leads

theorem leads_lay {store : Store} (lays : σ.store.Lays store) :
    Leads rights σ ((σ.withStore store).hold (σ.store.New store)) :=
  ⟨.single (.lay lays), ⟨fun _ => Or.inl, fun _ => id⟩⟩

theorem holds_laid {store : Store} (new : σ.store.New store x) :
    ((σ.withStore store).hold (σ.store.New store)).Holds x :=
  holds_of_held (.inr new)

theorem leads_parts (held : σ.Holds (.cell a)) :
    Leads rights σ (σ.hold fun x => x ∈ (σ.store.cellAt a).parts) :=
  ⟨.single (.part held), within_hold σ _⟩

theorem leads_view {kind : BagKind} (held : σ.Holds (.bag kind a)) (allowed : rights.view a) :
    Leads rights σ (σ.hold fun x => x ∈ (σ.store.cellAt a).parts) := by
  obtain ⟨kind', held⟩ := held
  exact ⟨.single (.view held allowed), within_hold σ _⟩

/-- A value on the way along a path is in hand, as are its parts. -/
theorem leads_closed (rights : Rights) (σ : Holding) :
    σ.store.Closed fun x => ∃ τ, Leads rights σ τ ∧ τ.store = σ.store ∧ τ.Holds x where
  leaf _ := ⟨σ, .refl σ, rfl, trivial⟩
  parts a known x member := by
    obtain ⟨τ, leads, same, holds⟩ := known
    refine ⟨_, leads.trans (leads_parts holds), same, holds_of_held (.inr ?_)⟩
    rwa [same]

/-- A new dictionary of held values, in everybody's reach. -/
theorem Grounded.leads_gather (h : σ.Grounded) {es : List (Value × Shared)}
    (held : ∀ e ∈ es, σ.Holds e.2) :
    Leads rights σ ⟨σ.store ++ [.dict es], fun x => σ.held x ∨ x.address? = some σ.store.length,
      σ.drafts⟩ := by
  refine ⟨?_, ⟨fun _ => Or.inl, fun _ => id⟩⟩
  refine ((Relation.ReflTransGen.single (.gather held)).tail (.release (.inr rfl))).tail
    (.forget (fun x taken => holds_of_held taken) ?_)
  intro b old
  refine ⟨.inl old, ?_⟩
  rintro rfl
  exact Nat.lt_irrefl _ (h.drafts _ old).1

/-- A new dictionary of held values that is a draft's. -/
theorem leads_draft {es : List (Value × Shared)} (held : ∀ e ∈ es, σ.Holds e.2) :
    Leads rights σ ((σ.withStore (σ.store ++ [.dict es])).draft fun a => a = σ.store.length) :=
  ⟨.single (.gather held), ⟨fun _ => id, fun _ => Or.inl⟩⟩

theorem leads_put {es : List (Value × Shared)} (draft : σ.drafts a)
    (parts : ∀ e ∈ es, e.2 ∈ (σ.store.cellAt a).parts ∨ σ.Holds e.2) :
    Leads rights σ (σ.withStore (σ.store.set a (.dict es))) :=
  ⟨.single (.put draft parts), ⟨fun _ => id, fun _ => id⟩⟩

theorem leads_amend {laid store : Store} (held : σ.held (.cell a) ∧ rights.edit a ∨ σ.drafts a)
    (lays : σ.store.Lays laid) (edits : laid.Edits (σ.store.New laid) a store) :
    Leads rights σ (σ.withStore store) :=
  ⟨.single (.amend held lays edits), ⟨fun _ => id, fun _ => id⟩⟩

theorem Sealing.leads {p : Store × Address} (h : Sealing rights σ p) :
    Leads rights σ (σ.withBag p) :=
  ⟨h.moves, ⟨fun _ => Or.inl, fun _ => id⟩⟩

theorem holds_withBag (σ : Holding) (p : Store × Address) (kind : BagKind) :
    (σ.withBag p).Holds (.bag kind p.2) :=
  ⟨kind, .inr ⟨kind, rfl⟩⟩

/-- The options that a draft of a bag is made of. -/
theorem leads_stow {es : List (Value × Shared)} (known : ∀ e ∈ es, σ.Knows e.2) :
    Leads rights σ ((σ.withStore (σ.store.copyEntries es).1).draft fun a =>
      a = (σ.store.copyEntries es).2) :=
  ⟨.single (.stow known), ⟨fun _ => id, fun _ => Or.inl⟩⟩

/-- The second holding has the copies of the values: those of drafts as drafts, the others in
hand. -/
structure HasCopies (σ τ : Holding) (f : Address → Address) (xs : List Shared) : Prop where
  held : ∀ x ∈ xs, ∀ a, x.address? = some a → ¬σ.drafts a → ∀ y, y.address? = some (f a) → τ.held y
  drafts : ∀ x ∈ xs, ∀ a, x.address? = some a → σ.drafts a → τ.drafts (f a)

theorem leads_copies {kept : Address → Bool} {xs : List Shared} {store : Store}
    (known : ∀ x ∈ xs, ∀ a, x.address? = some a → σ.Known a ∨ σ.drafts a)
    (copies : σ.store.Copies kept xs store) :
    ∃ τ, Leads rights σ τ ∧ τ.store = store ∧
      σ.HasCopies τ (σ.store.place kept (σ.store.reach kept xs)) xs := by
  refine ⟨_, ⟨.single (.copy known copies), ⟨fun _ => Or.inl, fun _ => Or.inl⟩⟩, rfl, ?_, ?_⟩
  · exact fun x member a at' plain y at'' => .inr ⟨a, _, ⟨⟨x, member, at'⟩, rfl⟩, plain, at''⟩
  · exact fun x member a at' draft => .inr ⟨a, ⟨⟨x, member, at'⟩, rfl⟩, draft⟩

theorem leads_copied {xs : List Shared}
    (known : ∀ x ∈ xs, ∀ a, x.address? = some a → σ.Known a ∨ σ.drafts a) :
    ∃ τ, Leads rights σ τ ∧ τ.store = (σ.store.copied xs).1 ∧
      σ.HasCopies τ (σ.store.copied xs).2 xs :=
  leads_copies known (Store.copied_copies σ.store xs)

theorem leads_transferred {xs : List Shared} (next : Nat)
    (known : ∀ x ∈ xs, ∀ a, x.address? = some a → σ.Known a ∨ σ.drafts a) :
    ∃ τ, Leads rights σ τ ∧ τ.store = (σ.store.transferred next xs).1 ∧
      σ.HasCopies τ (σ.store.transferred next xs).2.1 xs :=
  leads_copies known (Store.transferred_copies σ.store next xs)

/-- The copy of a value that is no draft is held, if its cell was among those that were copied. -/
theorem HasCopies.holds {f : Address → Address} {xs : List Shared} (h : σ.HasCopies τ f xs)
    (plain : ∀ a, x.address? = some a → ¬σ.drafts a)
    (listed : ∀ a, x.address? = some a → ∃ y ∈ xs, y.address? = some a) :
    τ.Holds (x.relocate f) := by
  cases x with
  | leaf v => trivial
  | cell a =>
      obtain ⟨y, member, at'⟩ := listed a rfl
      exact h.held y member a at' (plain a rfl) _ rfl
  | bag kind a =>
      obtain ⟨y, member, at'⟩ := listed a rfl
      exact ⟨kind, h.held y member a at' (plain a rfl) _ rfl⟩

/-- A copy of the options of a bag, or of a dictionary, as a dictionary. -/
theorem Grounded.leads_copyCell (h : σ.Grounded) (known : σ.Known a) :
    ∃ τ, Leads rights σ τ ∧ τ.store = (σ.store.copyCell a).1 ∧
      τ.Holds (.cell (σ.store.copyCell a).2) := by
  have source : ∀ x ∈ [Shared.cell a], ∀ b, x.address? = some b → σ.Known b ∨ σ.drafts b := by
    intro x member b at'
    rw [List.mem_singleton.mp member] at at'
    cases at'
    exact .inl known
  obtain ⟨τ, leads, store, copies⟩ := leads_copied source
  exact ⟨τ, leads, store, copies.held _ (List.mem_singleton_self _) a rfl (h.known known).2 _ rfl⟩

end Holding

end ClientRegistry
