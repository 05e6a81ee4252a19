import ClientRegistry.Proofs.Snapshot.Validation
import ClientRegistry.Proofs.Store.Untouched
import ClientRegistry.Proofs.Workspace.Objects

/-! The holding behind a workspace: its objects are the hands. What steps do on the way, such as
reading values in and making options, is a sequence of moves. -/

namespace ClientRegistry.Workspace

open Holding (Leads Rights)

variable {rights : Rights} {σ τ : Holding} {old w w' : Workspace} {x y : Shared}
  {a : Address} {o : Object}

namespace Object

/-- A client holds its bags; a draft of a bag holds nothing that is anybody else's. -/
def held : Object → List Shared
  | value x => [x]
  | draft d => [d.clientSettings, d.tokenSettings]
  | client c => [.bag .client c.clientSettings, .bag .token c.tokenSettings]
  | settingsDraft _ _ => []
  | snapshot fields => fields.map (·.2)
  | row fields => fields.map (·.2)
  | registry _ => []
  | database _ => []

/-- The cell that is a draft's own. -/
def own? : Object → Option Address
  | settingsDraft _ options => some options
  | _ => none

/-- Values and clients are never replaced by other objects. -/
def Steady : Object → Prop
  | value _ => True
  | client _ => True
  | _ => False

/-- Clients and bags. -/
def Record : Object → Prop
  | value (.bag _ _) => True
  | client _ => True
  | _ => False

/-- The cells of the bags of a record. -/
def bags : Object → List Address
  | value (.bag _ a) => [a]
  | client c => [c.clientSettings, c.tokenSettings]
  | _ => []

theorem Record.steady (h : o.Record) : o.Steady := by
  cases o with
  | value x => trivial
  | client c => trivial
  | _ => exact h

/-- A record holds its bags. -/
theorem held_of_bags (h : o.Record) (bag : a ∈ o.bags) :
    ∃ kind, Shared.bag kind a ∈ o.held := by
  cases o with
  | value x =>
      cases x with
      | bag kind b =>
          rw [List.mem_singleton.mp bag]
          exact ⟨kind, List.mem_singleton_self _⟩
      | _ => exact h.elim
  | client c =>
      rcases List.mem_pair.mp bag with rfl | rfl
      · exact ⟨.client, List.mem_cons_self⟩
      · exact ⟨.token, List.mem_cons_of_mem _ List.mem_cons_self⟩
  | _ => exact h.elim

theorem held_relocate (f : Address → Address) (o : Object) :
    (o.relocate f).held = o.held.map fun x => x.relocate f := by
  cases o with
  | snapshot fields => simp [relocate, held, HeldFields.relocate, Function.comp_def]
  | row fields => simp [relocate, held, HeldFields.relocate, Function.comp_def]
  | _ => rfl

theorem own?_relocate (f : Address → Address) (o : Object) :
    (o.relocate f).own? = o.own?.map f := by
  cases o <;> rfl

/-- What is held is copied along. -/
theorem listed_of_held (member : x ∈ o.held) (at' : x.address? = some a) :
    ∃ y ∈ o.parts, y.address? = some a := by
  cases o with
  | client c =>
      rcases List.mem_pair.mp member with rfl | rfl
      · exact ⟨.cell c.clientSettings, List.mem_cons_self, at'⟩
      · exact ⟨.cell c.tokenSettings, by simp [parts], at'⟩
  | settingsDraft kind options => cases member
  | registry r => cases member
  | database t => cases member
  | _ => exact ⟨x, member, at'⟩

theorem listed_of_own (own : o.own? = some a) : .cell a ∈ o.parts := by
  cases o with
  | settingsDraft kind options =>
      cases own
      exact List.mem_singleton_self _
  | _ => cases own

/-- Nothing is copied along but what is held or the draft's own. -/
theorem known_of_listed (member : x ∈ o.parts) (at' : x.address? = some a) :
    (∃ y ∈ o.held, y.address? = some a) ∨ o.own? = some a := by
  cases o with
  | client c =>
      rcases List.mem_pair.mp member with rfl | rfl
      · exact .inl ⟨.bag .client c.clientSettings, List.mem_cons_self, at'⟩
      · exact .inl ⟨.bag .token c.tokenSettings, by simp [held], at'⟩
  | settingsDraft kind options =>
      rw [List.mem_singleton.mp member] at at'
      exact .inr at'
  | registry r => cases member
  | database t => cases member
  | _ => exact .inl ⟨x, member, at'⟩

end Object

def holding (w : Workspace) : Holding where
  store := w.store
  held x := ∃ o ∈ w.objects, x ∈ o.held
  drafts a := ∃ o ∈ w.objects, o.own? = some a

/-- The steady objects are what they were. -/
def Lasts (old w : Workspace) : Prop :=
  ∀ (h : Handle) (o : Object), old.objects[h]? = some o → o.Steady → w.objects[h]? = some o

/-- What the objects have the holding has, and it may have more. -/
structure Backed (old w : Workspace) (σ : Holding) : Prop where
  grounded : σ.Grounded
  store : σ.store = w.store
  held : ∀ o ∈ w.objects, ∀ x ∈ o.held, σ.Holds x
  drafts : ∀ o ∈ w.objects, ∀ a, o.own? = some a → σ.drafts a
  lasts : old.Lasts w

/-- No steady object is in this place. -/
def Loose (old : Workspace) (i : Handle) : Prop :=
  ∀ o : Object, old.objects[i]? = some o → ¬o.Steady

theorem Lasts.refl (w : Workspace) : w.Lasts w := fun _ _ present _ => present

theorem Lasts.trans {w'' : Workspace} (first : w.Lasts w') (second : w'.Lasts w'') : w.Lasts w'' :=
  fun h o present steady => second h o (first h o present steady) steady

namespace Backed

theorem start (h : w.holding.Grounded) : w.Backed w w.holding where
  grounded := h
  store := rfl
  held o present _ member := Holding.holds_of_held ⟨o, present, member⟩
  drafts o present _ own := ⟨o, present, own⟩
  lasts := .refl w

/-- What is in no object is let go. -/
theorem moves (h : old.Backed w σ) : Holding.Moves rights σ w.holding := by
  have forget : Holding.Move rights σ ⟨σ.store, w.holding.held, w.holding.drafts⟩ := by
    refine .forget ?_ ?_
    · rintro x ⟨o, present, member⟩
      exact h.held o present x member
    · rintro a ⟨o, present, own⟩
      exact h.drafts o present a own
  rw [h.store] at forget
  exact .single forget

theorem next (h : old.Backed w σ) (leads : Leads rights σ τ) (objects : w'.objects = w.objects)
    (store : τ.store = w'.store) : old.Backed w' τ where
  grounded := leads.grounded h.grounded
  store := store
  held o present x member := leads.holds (h.held o (objects ▸ present) x member)
  drafts o present a own := leads.within.drafts a (h.drafts o (objects ▸ present) a own)
  lasts i o present steady := objects ▸ h.lasts i o present steady

/-- Names do not matter. -/
theorem of_same (h : old.Backed w σ) (objects : w'.objects = w.objects)
    (store : w'.store = w.store) : old.Backed w' σ := by
  have leads : Leads .all σ σ := .refl σ
  exact h.next leads objects (h.store.trans store.symm)

theorem append (h : old.Backed w σ) {os : List Object} (held : ∀ o ∈ os, ∀ x ∈ o.held, σ.Holds x)
    (drafts : ∀ o ∈ os, ∀ a, o.own? = some a → σ.drafts a) :
    old.Backed { w with objects := w.objects ++ os } σ where
  grounded := h.grounded
  store := h.store
  held o present := (List.mem_append.mp present).elim (h.held o) (held o)
  drafts o present := (List.mem_append.mp present).elim (h.drafts o) (drafts o)
  lasts i o present steady := by
    have there := h.lasts i o present steady
    rw [List.getElem?_append_left (List.getElem?_eq_some_iff.mp there).1]
    exact there

/-- An object that has no cell of its own. -/
theorem insert (h : old.Backed w σ) (held : ∀ x ∈ o.held, σ.Holds x) (plain : o.own? = none) :
    old.Backed (w.insert o).1 σ := by
  refine h.append (List.forall_mem_singleton.mpr held) (List.forall_mem_singleton.mpr ?_)
  intro a own
  rw [plain] at own
  cases own

theorem insertSettingsDraft (h : old.Backed w σ) (kind : BagKind) (draft : σ.drafts a) :
    old.Backed (w.insert (.settingsDraft kind a)).1 σ := by
  refine h.append (List.forall_mem_singleton.mpr fun _ member => by cases member)
    (List.forall_mem_singleton.mpr ?_)
  intro b own
  cases own
  exact draft

theorem replace (h : old.Backed w σ) {i : Handle} (loose : old.Loose i)
    (held : ∀ x ∈ o.held, σ.Holds x) (plain : o.own? = none) :
    old.Backed (w.replace i o) σ where
  grounded := h.grounded
  store := h.store
  held o' present := by
    rcases List.mem_or_eq_of_mem_set present with there | rfl
    · exact h.held o' there
    · exact held
  drafts o' present a own := by
    rcases List.mem_or_eq_of_mem_set present with there | rfl
    · exact h.drafts o' there a own
    · rw [plain] at own
      cases own
  lasts j o' present steady := by
    have there := h.lasts j o' present steady
    have ne : i ≠ j := by
      rintro rfl
      exact loose o' present steady
    rw [replace_objects, List.getElem?_set_ne ne]
    exact there

/-- A place with an object that is not steady was no steady object's place before. -/
theorem loose (h : old.Backed w σ) {i : Handle} (present : w.objects[i]? = some o)
    (changing : ¬o.Steady) : old.Loose i := by
  intro o' there steady
  rw [h.lasts i o' there steady] at present
  cases present
  exact changing steady

end Backed

theorem readIn_lays (w : Workspace) (v : Value) :
    w.store.Lays (w.readIn v).1.store ∧ w.store.New (w.readIn v).1.store (w.readIn v).2 :=
  Store.alloc_lays w.store (v.freshen w.next).1

theorem readInAll_lays (w : Workspace) (vs : List Value) :
    w.store.Lays (w.readInAll vs).1.store ∧
      ∀ x ∈ (w.readInAll vs).2, w.store.New (w.readInAll vs).1.store x := by
  induction vs generalizing w with
  | nil => exact ⟨.refl _, fun _ member => by cases member⟩
  | cons v rest ih =>
      obtain ⟨laid, new⟩ := readIn_lays w v
      obtain ⟨laid', new'⟩ := ih (w.readIn v).1
      refine ⟨laid.trans laid', List.forall_mem_cons.mpr ⟨new.later laid'.length_le, ?_⟩⟩
      exact fun x member => (new' x member).earlier laid.length_le

theorem readInEdits_lays (w : Workspace) (edits : List (Edit Value)) :
    w.store.Lays (w.readInEdits edits).1.store ∧
      ∀ e ∈ (w.readInEdits edits).2, ∀ x ∈ e.args,
        w.store.New (w.readInEdits edits).1.store x := by
  induction edits generalizing w with
  | nil => exact ⟨.refl _, fun _ member => by cases member⟩
  | cons e rest ih =>
      cases e with
      | stop reason =>
          obtain ⟨laid, new⟩ := ih w
          exact ⟨laid, List.forall_mem_cons.mpr ⟨fun _ member => (by cases member), new⟩⟩
      | call method args =>
          obtain ⟨laid, new⟩ := readInAll_lays w args
          obtain ⟨laid', new'⟩ := ih (w.readInAll args).1
          refine ⟨laid.trans laid', List.forall_mem_cons.mpr ⟨?_, ?_⟩⟩
          · exact fun x member => (new x member).later laid'.length_le
          · exact fun e member x arg => (new' e member x arg).earlier laid.length_le

theorem holdFields_lays (w : Workspace) (fields : List (String × Value)) :
    w.store.Lays (w.holdFields fields).1.store ∧
      ∀ f ∈ (w.holdFields fields).2, w.store.New (w.holdFields fields).1.store f.2 := by
  induction fields generalizing w with
  | nil => exact ⟨.refl _, fun _ member => by cases member⟩
  | cons f rest ih =>
      obtain ⟨name, v⟩ := f
      obtain ⟨laid, new⟩ := Store.alloc_lays w.store v
      obtain ⟨laid', new'⟩ := ih { w with store := (w.store.alloc v).1 }
      refine ⟨laid.trans laid', List.forall_mem_cons.mpr ⟨new.later laid'.length_le, ?_⟩⟩
      exact fun f member => (new' f member).earlier laid.length_le

theorem holdClient_lays (w : Workspace) (c : Client) :
    w.store.Lays (w.holdClient c).1.store ∧
      ∀ x ∈ (Object.client (w.holdClient c).2).held, w.store.New (w.holdClient c).1.store x := by
  obtain ⟨laid, new, inside⟩ := Store.allocOptions_lays w.store c.clientSettings
  obtain ⟨laid', new', inside'⟩ :=
    Store.allocOptions_lays (w.store.allocOptions c.clientSettings).1 c.tokenSettings
  refine ⟨laid.trans laid', fun x member b at' => ?_⟩
  rcases List.mem_pair.mp member with rfl | rfl
  · cases at'
    exact ⟨new, Nat.lt_of_lt_of_le inside laid'.length_le⟩
  · cases at'
    exact ⟨Nat.le_trans laid.length_le new', inside'⟩

namespace Backed

theorem lay (h : old.Backed w σ) (lays : w.store.Lays w'.store)
    (objects : w'.objects = w.objects) :
    ∃ τ, Leads rights σ τ ∧ old.Backed w' τ ∧ ∀ x, w.store.New w'.store x → τ.Holds x := by
  rw [← h.store] at lays ⊢
  have leads : Leads rights σ _ := Holding.leads_lay lays
  exact ⟨_, leads, h.next leads objects rfl, fun x new => Holding.holds_laid new⟩

theorem readIn (h : old.Backed w σ) (v : Value) :
    ∃ τ, Leads rights σ τ ∧ old.Backed (w.readIn v).1 τ ∧ τ.Holds (w.readIn v).2 := by
  obtain ⟨laid, new⟩ := readIn_lays w v
  obtain ⟨τ, leads, backed, holds⟩ := h.lay laid rfl
  exact ⟨τ, leads, backed, holds _ new⟩

/-- What has a name is in hand. -/
theorem present (h : old.Backed w σ) {i : Handle} (found : w.object? i = .ok o) :
    w.objects[i]? = some o ∧ ∀ x ∈ o.held, σ.Holds x := by
  simp only [object?] at found
  split at found
  next there =>
    cases found
    exact ⟨there, h.held o (List.mem_of_getElem? there)⟩
  · cases found

theorem ofHeld (h : old.Backed w σ) {operand : Operand} (found : w.held operand = .ok (w', y)) :
    ∃ τ, Leads rights σ τ ∧ old.Backed w' τ ∧ τ.Holds y := by
  cases operand with
  | given v =>
      cases found
      exact h.readIn v
  | «variable» name =>
      simp only [Workspace.held] at found
      split at found
      next z value =>
        cases found
        simp only [named?] at value
        cases there : w.handle? name with
        | error e =>
            rw [there] at value
            cases value
        | ok i =>
            rw [there] at value
            exact ⟨σ, .refl σ, h, (h.present value).2 y (List.mem_singleton_self y)⟩
      · cases found
      · cases found

theorem ofHeldNamed (h : old.Backed w σ) {operands : List (String × Operand)} {fields : HeldFields}
    (found : w.heldNamed operands = .ok (w', fields)) :
    ∃ τ, Leads rights σ τ ∧ old.Backed w' τ ∧ ∀ f ∈ fields, τ.Holds f.2 := by
  induction operands generalizing w σ fields with
  | nil =>
      cases found
      exact ⟨σ, .refl σ, h, fun _ member => by cases member⟩
  | cons operand rest ih =>
      obtain ⟨⟨w₁, y⟩, first, found⟩ := except_bind_eq_ok.mp found
      obtain ⟨⟨w₂, ys⟩, others, found⟩ := except_bind_eq_ok.mp found
      cases found
      obtain ⟨τ, leads, backed, holds⟩ := h.ofHeld first
      obtain ⟨υ, leads', backed', holds'⟩ := ih backed others
      refine ⟨υ, leads.trans leads', backed', List.forall_mem_cons.mpr ⟨?_, holds'⟩⟩
      exact leads'.holds holds

theorem ofOperand (h : old.Backed w σ) {operand : Operand} {i : Handle}
    (found : w.operand operand = .ok (w', i)) : ∃ τ, Leads rights σ τ ∧ old.Backed w' τ := by
  cases operand with
  | given v =>
      cases found
      obtain ⟨τ, leads, backed, holds⟩ := h.readIn v
      exact ⟨τ, leads, backed.insert (List.forall_mem_singleton.mpr holds) rfl⟩
  | «variable» name =>
      obtain ⟨j, _, same⟩ := except_map_eq_ok.mp found
      cases same
      exact ⟨σ, .refl σ, h⟩

theorem ofOperands (h : old.Backed w σ) {operands : List Operand} {is : List Handle}
    (found : w.operands operands = .ok (w', is)) : ∃ τ, Leads rights σ τ ∧ old.Backed w' τ := by
  induction operands generalizing w σ is with
  | nil =>
      cases found
      exact ⟨σ, .refl σ, h⟩
  | cons operand rest ih =>
      obtain ⟨⟨w₁, i⟩, first, found⟩ := except_bind_eq_ok.mp found
      obtain ⟨⟨w₂, js⟩, others, found⟩ := except_bind_eq_ok.mp found
      cases found
      obtain ⟨τ, leads, backed⟩ := h.ofOperand first
      obtain ⟨υ, leads', backed'⟩ := ih backed others
      exact ⟨υ, leads.trans leads', backed'⟩

theorem holdFields (h : old.Backed w σ) (fields : List (String × Value)) :
    ∃ τ, Leads rights σ τ ∧ old.Backed (w.holdFields fields).1 τ ∧
      ∀ f ∈ (w.holdFields fields).2, τ.Holds f.2 := by
  obtain ⟨laid, new⟩ := holdFields_lays w fields
  obtain ⟨τ, leads, backed, holds⟩ := h.lay laid (holdFields_objects w fields)
  exact ⟨τ, leads, backed, fun f member => holds _ (new f member)⟩

theorem insertValue (h : old.Backed w σ) (v : Value) :
    ∃ τ, Leads rights σ τ ∧ old.Backed (w.insertValue v).1 τ := by
  obtain ⟨laid, new⟩ := Store.alloc_lays w.store v
  let laidOut : Workspace := { w with store := (w.store.alloc v).1 }
  obtain ⟨τ, leads, backed, holds⟩ : ∃ τ, Leads rights σ τ ∧ old.Backed laidOut τ ∧
      ∀ x, w.store.New laidOut.store x → τ.Holds x := h.lay laid rfl
  exact ⟨τ, leads, backed.insert (List.forall_mem_singleton.mpr (holds _ new)) rfl⟩

theorem insertClient (h : old.Backed w σ) (c : Client) :
    ∃ τ, Leads rights σ τ ∧ old.Backed (w.insertClient c).1 τ := by
  obtain ⟨laid, new⟩ := holdClient_lays w c
  obtain ⟨τ, leads, backed, holds⟩ := h.lay laid (holdClient_objects w c)
  exact ⟨τ, leads, backed.insert (fun x member => holds x (new x member)) rfl⟩

end Backed

end ClientRegistry.Workspace
