import ClientRegistry.Proofs.Store.Copied
import ClientRegistry.Proofs.Store.Edited
import ClientRegistry.Proofs.Store.Laid
import Mathlib.Logic.Relation

/-! Who holds what. A holding is a store with the values in the hands of holders and with the cells
of the drafts of bags, which nobody else holds. `Move` says what can happen to it: everything that
is done in a workspace is a sequence of such moves. -/

namespace ClientRegistry

structure Holding where
  store : Store
  held : Shared → Prop
  drafts : Address → Prop

namespace Holding

variable {σ τ : Holding} {x : Shared} {a : Address}

/-- A leaf is in everybody's hands, and a bag in the hands of whoever holds one with its cell. -/
def Holds (σ : Holding) : Shared → Prop
  | .leaf _ => True
  | .cell a => σ.held (.cell a)
  | .bag _ a => ∃ kind, σ.held (.bag kind a)

/-- The cells that can be read: those of held values, and what they mention, bags included. -/
inductive Known (σ : Holding) : Address → Prop
  | held {x : Shared} {a : Address} (held : σ.held x) (at' : x.address? = some a) : Known σ a
  | mentioned {a b : Address} (known : Known σ a) (mentions : σ.store.Mentions a b) : Known σ b

def Knows (σ : Holding) (x : Shared) : Prop := ∀ a, x.address? = some a → σ.Known a

def withStore (σ : Holding) (store : Store) : Holding := { σ with store }

/-- More values come into hands. -/
def hold (σ : Holding) (P : Shared → Prop) : Holding :=
  { σ with held := fun x => σ.held x ∨ P x }

/-- More cells become those of drafts. -/
def draft (σ : Holding) (P : Address → Prop) : Holding :=
  { σ with drafts := fun a => σ.drafts a ∨ P a }

/-- The second cell is the copy of the first, which is that of one of the values. -/
def Copied (σ : Holding) (kept : Address → Bool) (xs : List Shared) (a b : Address) : Prop :=
  (∃ x ∈ xs, x.address? = some a) ∧ b = σ.store.place kept (σ.store.reach kept xs) a

/-- The bags that moves may look into, and the cells in hand that they may edit. -/
structure Rights where
  view : Address → Prop
  edit : Address → Prop

def Rights.all : Rights := ⟨fun _ => True, fun _ => True⟩

def Rights.blind : Rights := ⟨fun _ => False, fun _ => True⟩

/-- What can happen to a holding. -/
inductive Move (rights : Rights) : Holding → Holding → Prop
  /-- Hands may become empty. -/
  | forget {σ : Holding} {held : Shared → Prop} {drafts : Address → Prop}
      (fewer : ∀ x, held x → σ.Holds x) (fewer' : ∀ a, drafts a → σ.drafts a) :
      Move rights σ ⟨σ.store, held, drafts⟩
  /-- Values are laid out in new cells. -/
  | lay {σ : Holding} {store : Store} (lays : σ.store.Lays store) :
      Move rights σ ((σ.withStore store).hold (σ.store.New store))
  /-- Held values are gathered in a new dictionary. -/
  | gather {σ : Holding} {es : List (Value × Shared)} (held : ∀ e ∈ es, σ.Holds e.2) :
      Move rights σ ((σ.withStore (σ.store ++ [.dict es])).draft fun a => a = σ.store.length)
  /-- A draft's cell is handed out and is a draft's no longer. -/
  | release {σ : Holding} {a : Address} (draft : σ.drafts a) :
      Move rights σ ⟨σ.store, fun x => σ.held x ∨ x.address? = some a, fun b => σ.drafts b ∧ b ≠ a⟩
  /-- The parts of a held cell are taken in hand. -/
  | part {σ : Holding} {a : Address} (held : σ.held (.cell a)) :
      Move rights σ (σ.hold fun x => x ∈ (σ.store.cellAt a).parts)
  /-- The options of a bag are taken in hand. -/
  | view {σ : Holding} {kind : BagKind} {a : Address} (held : σ.held (.bag kind a))
      (allowed : rights.view a) : Move rights σ (σ.hold fun x => x ∈ (σ.store.cellAt a).parts)
  /-- Known values and drafts are copied; the copies of drafts are cells of drafts again. -/
  | copy {σ : Holding} {kept : Address → Bool} {xs : List Shared} {store : Store}
      (known : ∀ x ∈ xs, ∀ a, x.address? = some a → σ.Known a ∨ σ.drafts a)
      (copies : σ.store.Copies kept xs store) :
      Move rights σ (((σ.withStore store).hold fun x =>
        ∃ a b, σ.Copied kept xs a b ∧ ¬σ.drafts a ∧ x.address? = some b).draft fun b =>
        ∃ a, σ.Copied kept xs a b ∧ σ.drafts a)
  /-- A dictionary with copies of known values is made; what it is copied of is in no hands. -/
  | stow {σ : Holding} {es : List (Value × Shared)} (known : ∀ e ∈ es, σ.Knows e.2) :
      Move rights σ ((σ.withStore (σ.store.copyEntries es).1).draft fun a =>
        a = (σ.store.copyEntries es).2)
  /-- Values are laid out, and a cell is edited that takes them up. -/
  | amend {σ : Holding} {a : Address} {laid store : Store}
      (held : σ.held (.cell a) ∧ rights.edit a ∨ σ.drafts a) (lays : σ.store.Lays laid)
      (edits : laid.Edits (σ.store.New laid) a store) :
      Move rights σ (σ.withStore store)
  /-- A draft takes up a held value. -/
  | put {σ : Holding} {a : Address} {es : List (Value × Shared)} (draft : σ.drafts a)
      (parts : ∀ e ∈ es, e.2 ∈ (σ.store.cellAt a).parts ∨ σ.Holds e.2) :
      Move rights σ (σ.withStore (σ.store.set a (.dict es)))

/-- A sequence of moves. -/
def Moves (rights : Rights) : Holding → Holding → Prop :=
  Relation.ReflTransGen (Move rights)

theorem holds_leaf (v : Value) : σ.Holds (.leaf v) := trivial

theorem holds_of_held (h : σ.held x) : σ.Holds x := by
  cases x with
  | leaf v => trivial
  | cell a => exact h
  | bag kind a => exact ⟨kind, h⟩

/-- Something with the cell of a value that is held is held. -/
theorem Holds.exists_held (h : σ.Holds x) (at' : x.address? = some a) :
    ∃ y, σ.held y ∧ y.address? = some a ∧
      (x = y ∨ ∃ kind kind', x = .bag kind a ∧ y = .bag kind' a) := by
  cases x with
  | leaf v => cases at'
  | cell b => exact ⟨_, h, at', .inl rfl⟩
  | bag kind b =>
      cases at'
      obtain ⟨kind', held⟩ := h
      exact ⟨_, held, rfl, .inr ⟨kind, kind', rfl, rfl⟩⟩

theorem Holds.knows (h : σ.Holds x) : σ.Knows x := by
  intro a at'
  obtain ⟨y, held, at'', -⟩ := h.exists_held at'
  exact .held held at''

/-- Knowledge is closed under parts, of bags as well. -/
theorem knows_part (h : σ.Known a) (member : x ∈ (σ.store.cellAt a).parts) : σ.Knows x :=
  fun _ known => .mentioned h ⟨x, member, known⟩

theorem knows_closed (σ : Holding) : σ.store.Closed σ.Knows where
  leaf v := (holds_leaf v).knows
  parts _ known _ member := knows_part (known _ rfl) member

/-- The second holding has all that the first has. -/
structure Within (σ τ : Holding) : Prop where
  held : ∀ x, σ.held x → τ.held x
  drafts : ∀ a, σ.drafts a → τ.drafts a

theorem Within.refl (σ : Holding) : σ.Within σ := ⟨fun _ => id, fun _ => id⟩

theorem Within.trans {υ : Holding} (first : σ.Within τ) (second : τ.Within υ) : σ.Within υ :=
  ⟨fun x h => second.held x (first.held x h), fun a h => second.drafts a (first.drafts a h)⟩

theorem Within.holds (h : σ.Within τ) (holds : σ.Holds x) : τ.Holds x := by
  cases x with
  | leaf v => trivial
  | cell a => exact h.held _ holds
  | bag kind a => exact holds.imp fun kind' held => h.held _ held

theorem within_hold (σ : Holding) (P : Shared → Prop) : σ.Within (σ.hold P) :=
  ⟨fun _ => .inl, fun _ => id⟩

end Holding

end ClientRegistry
