import ClientRegistry.Proofs.Client.Alike
import ClientRegistry.Proofs.Snapshot.Scopes
import Mathlib.Logic.Function.Basic

/-! Calls in another order. A draft under construction keeps its sets in a way of its own, and a
bulk edit is whatever is done with a set as it is kept, so that it may see in which order the set
shows its members. A call reads and writes its own field only, so that a draft depends on nothing
but the calls about each of its fields; and members are added to a set in any order and any number
of times, as long as no later edit lets that order decide what the set holds. -/

namespace ClientRegistry

open Value (SameMembers)

/-- A way to keep sets, which settles the order in which a set shows its members. To add what is
there does nothing, and to add anything else brings it in, at whatever place. -/
structure Keeping where
  Kept : Type
  empty : Kept
  insert : Kept → Value → Kept
  listing : Kept → List Value
  listing_empty : listing empty = []
  insert_present : ∀ s v, (Value.frozen (listing s)).Proper → v.Proper → v.hashable = true →
    v.memberOf (listing s) = true → insert s v = s
  insert_same : ∀ s v, (Value.frozen (listing s)).Proper → v.Proper → v.hashable = true →
    SameMembers (listing (insert s v)) (Value.insertMember (listing s) v)

/-- Sets kept as lists of their members in the order in which they came. -/
def Keeping.lists : Keeping where
  Kept := List Value
  empty := []
  insert := Value.insertMember
  listing xs := xs
  listing_empty := rfl
  insert_present _ _ _ _ _ present := Value.insertMember_of_present present
  insert_same _ _ proper hv hashable := .refl (Value.proper_insertMember proper hv hashable)

/-- A draft whose sets are kept in a given way. -/
structure LiveDraft (k : Keeping) where
  scalars : ScalarField → Value
  sets : SetField → k.Kept

/-- A call on such a draft. The callback of a bulk edit has the set itself in its hands. -/
inductive LiveCall (k : Keeping) where
  | assign (field : ScalarField) (v : Value)
  | add (field : SetField) (v : Value)
  | edit (field : SetField) (callback : k.Kept → Edited k.Kept)

variable {k : Keeping} {s : k.Kept} {v w : Value} {xs ys : List Value}

namespace Keeping

theorem memberOf_insert_self (proper : (Value.frozen (k.listing s)).Proper) (hv : v.Proper)
    (hashable : v.hashable = true) : v.memberOf (k.listing (k.insert s v)) = true := by
  rw [(k.insert_same s v proper hv hashable).memberOf_eq hv]
  exact Value.memberOf_insertMember_self

theorem memberOf_insert_of_present (proper : (Value.frozen (k.listing s)).Proper) (hv : v.Proper)
    (hw : w.Proper) (hashable : w.hashable = true) (present : v.memberOf (k.listing s) = true) :
    v.memberOf (k.listing (k.insert s w)) = true := by
  rw [(k.insert_same s w proper hw hashable).memberOf_eq hv]
  exact Value.memberOf_insertMember_of_present present

/-- Two members join a set in either order, though it may show them in another one. -/
theorem insert_comm (proper : (Value.frozen (k.listing s)).Proper) (hv : v.Proper) (hw : w.Proper)
    (hashable : v.hashable = true) (hashable' : w.hashable = true) :
    SameMembers (k.listing (k.insert (k.insert s v) w))
      (k.listing (k.insert (k.insert s w) v)) := by
  have twice : ∀ {v w : Value}, v.Proper → w.Proper → v.hashable = true → w.hashable = true →
      SameMembers (k.listing (k.insert (k.insert s v) w))
        (Value.insertMember (Value.insertMember (k.listing s) v) w) := by
    intro v w hv hw hashable hashable'
    have first := k.insert_same s v proper hv hashable
    have second := k.insert_same (k.insert s v) w first.left hw hashable'
    exact second.trans (first.insertMember hw hashable')
  have exchanged := SameMembers.insert_comm proper hv hw hashable hashable'
  exact (twice hv hw hashable hashable').trans
    (exchanged.trans (twice hw hv hashable' hashable).symm)

end Keeping

namespace LiveCall

/-- The field that a call is about. -/
def field : LiveCall k → Field
  | .assign field _ => .scalar field
  | .add field _ => .set field
  | .edit field _ => .set field

/-- What a call brings to a set is proper. -/
def Proper : LiveCall k → Prop
  | .assign _ _ => True
  | .add _ v => v.Proper
  | .edit _ callback => ∀ s, (Value.frozen (k.listing s)).Proper →
      (Value.frozen (k.listing (callback s).1)).Proper

/-- The call is none whose effect depends on the order in which a set shows its members. -/
def Blind : LiveCall k → Prop
  | .edit _ callback => ∀ s t, SameMembers (k.listing s) (k.listing t) →
      SameMembers (k.listing (callback s).1) (k.listing (callback t).1)
  | _ => True

/-- The calls about a field. -/
def about (field : Field) (calls : List (LiveCall k)) : List (LiveCall k) :=
  calls.filter fun call => call.field = field

/-- Calls with additions to one set repeated that no other call stands between, or exchanged where
no later call lets their order decide what the set holds. -/
inductive Rearranged : List (LiveCall k) → List (LiveCall k) → Prop
  | refl (calls : List (LiveCall k)) : Rearranged calls calls
  | exchange (before after : List (LiveCall k)) (field : SetField) (v w : Value)
      (blind : ∀ call ∈ after, call.Blind) :
      Rearranged (before ++ .add field v :: .add field w :: after)
        (before ++ .add field w :: .add field v :: after)
  | again (before after : List (LiveCall k)) (field : SetField) (v : Value)
      (between : List Value) :
      Rearranged (before ++ .add field v :: (between.map (.add field) ++ after))
        (before ++ .add field v :: (between.map (.add field) ++ .add field v :: after))
  | symm {calls calls' : List (LiveCall k)} (h : Rearranged calls calls') : Rearranged calls' calls
  | trans {calls calls' calls'' : List (LiveCall k)} (first : Rearranged calls calls')
      (second : Rearranged calls' calls'') : Rearranged calls calls''

variable {call : LiveCall k} {calls calls' : List (LiveCall k)}

theorem Rearranged.mem_iff (h : Rearranged calls calls') : call ∈ calls ↔ call ∈ calls' := by
  induction h with
  | refl calls => rfl
  | exchange before after field v w blind =>
      simp only [List.mem_append, List.mem_cons]
      tauto
  | again before after field v between =>
      simp only [List.mem_append, List.mem_cons]
      tauto
  | symm _ ih => exact ih.symm
  | trans _ _ first second => exact first.trans second

end LiveCall

namespace LiveDraft

open LiveCall (about Rearranged)

variable {d e : LiveDraft k} {call : LiveCall k} {calls calls' : List (LiveCall k)}
  {field : SetField}

/-- The draft that a new builder has. -/
def start (k : Keeping) (id : Value) : LiveDraft k := ⟨(Draft.empty id).scalar, fun _ => k.empty⟩

/-- Puts a set in the place of another. -/
def put (d : LiveDraft k) (field : SetField) (s : k.Kept) : LiveDraft k :=
  { d with sets := Function.update d.sets field s }

def apply (d : LiveDraft k) : LiveCall k → LiveDraft k × Option Fault
  | .assign field v =>
    if field = .id ∧ v.truthy = false then (d, some (.emptyArgument "id"))
    else ({ d with scalars := Function.update d.scalars field v }, none)
  | .add field v =>
    if v.hashable then (d.put field (k.insert (d.sets field) v), none) else (d, some .badType)
  | .edit field callback =>
    let (s, fault) := callback (d.sets field)
    (d.put field s, fault)

def applyAll (d : LiveDraft k) (calls : List (LiveCall k)) : LiveDraft k :=
  calls.foldl (fun d call => (d.apply call).1) d

/-- The draft with its sets as they show their members. -/
def shown (d : LiveDraft k) : Draft where
  id := d.scalars .id
  clientId := d.scalars .clientId
  issuedAt := d.scalars .issuedAt
  secret := d.scalars .secret
  secretExpiresAt := d.scalars .secretExpiresAt
  name := d.scalars .name
  methods := k.listing (d.sets .methods)
  grants := k.listing (d.sets .grants)
  redirectUris := k.listing (d.sets .redirectUris)
  scopes := k.listing (d.sets .scopes)
  clientSettings := d.scalars .clientSettings
  tokenSettings := d.scalars .tokenSettings

@[simp] theorem shown_scalar (d : LiveDraft k) (field : ScalarField) :
    d.shown.scalar field = d.scalars field := by
  cases field <;> rfl

@[simp] theorem shown_members (d : LiveDraft k) (field : SetField) :
    d.shown.members field = k.listing (d.sets field) := by
  cases field <;> rfl

theorem shown_start (k : Keeping) (id : Value) : (start k id).shown = Draft.empty id := by
  simp only [shown, start, k.listing_empty]
  rfl

theorem shown_put (d : LiveDraft k) (field : SetField) (s : k.Kept) :
    (d.put field s).shown = d.shown.withMembers field (k.listing s) := by
  cases field <;> rfl

theorem sets_put_self (d : LiveDraft k) (field : SetField) (s : k.Kept) :
    (d.put field s).sets field = s :=
  Function.update_self ..

theorem put_self (d : LiveDraft k) (field : SetField) : d.put field (d.sets field) = d := by
  rw [put, Function.update_eq_self]

theorem put_put (d : LiveDraft k) (field : SetField) (s t : k.Kept) :
    (d.put field s).put field t = d.put field t := by
  simp only [put, Function.update_idem]

theorem apply_add (d : LiveDraft k) (field : SetField) (v : Value) : (d.apply (.add field v)).1 =
    if v.hashable then d.put field (k.insert (d.sets field) v) else d := by
  simp only [apply]
  split <;> rfl

/-- An assignment is one to the draft that is shown. -/
theorem apply_assign (d : LiveDraft k) (field : ScalarField) (v : Value) :
    (d.apply (.assign field v)).1.shown = (d.shown.apply (.assign field v)).1 ∧
      (d.apply (.assign field v)).2 = (d.shown.apply (.assign field v)).2 := by
  cases field with
  | id =>
      simp only [apply, Draft.apply, Draft.assign]
      cases v.truthy <;> exact ⟨rfl, rfl⟩
  | _ => exact ⟨rfl, rfl⟩

end LiveDraft

namespace Draft

variable {d d' : Draft} {call : Call} {field : SetField}

/-- A call on a draft with its sets in lists. -/
def Call.live : Call → LiveCall .lists
  | .assign field v => .assign field v
  | .add field v => .add field v
  | .edit field edits => .edit field (Edit.run Edit.onSet edits)

/-- What a call brings to a set is proper. -/
def Call.Proper : Call → Prop
  | .assign _ _ => True
  | .add _ v => v.Proper
  | .edit _ edits => ∀ e ∈ edits, ∀ a ∈ e.args, a.Proper

/-- The call is an edit that takes out whichever member comes first. -/
def Call.Pops : Call → Prop
  | .edit _ edits => ∃ args, .call .pop args ∈ edits
  | _ => False

theorem Call.live_proper (proper : call.Proper) : call.live.Proper := by
  cases call with
  | assign field v => trivial
  | add field v => exact proper
  | edit field edits =>
      intro (xs : List Value) (listed : (Value.frozen xs).Proper)
      exact Edit.proper_run listed proper

/-- Of the methods of sets only the one that takes out any member sees an order. -/
theorem Call.live_blind (proper : call.Proper) (unpopped : ¬call.Pops) : call.live.Blind := by
  cases call with
  | assign field v => trivial
  | add field v => trivial
  | edit field edits =>
      have kept : ∀ args, .call .pop args ∉ edits := fun args member => unpopped ⟨args, member⟩
      intro xs ys same
      exact (Edit.run_same same proper kept).1

theorem assign_alike (h : d.Alike d') (field : ScalarField) (v : Value) :
    (d.apply (.assign field v)).1.Alike (d'.apply (.assign field v)).1 := by
  have changed : ∀ e e', d.assign field v = .ok e → d'.assign field v = .ok e' → e.Alike e' := by
    intro e e' assigned assigned'
    obtain ⟨scalars, members, -⟩ := assign_eq_ok assigned
    obtain ⟨scalars', members', -⟩ := assign_eq_ok assigned'
    refine ⟨fun g => ?_, fun g => ?_⟩
    · rw [scalars g, scalars' g, h.scalars g]
    · rw [members g, members' g]
      exact h.members g
  cases field with
  | id =>
      simp only [apply, assign] at changed ⊢
      cases present : v.truthy with
      | true =>
          simp only [present] at changed
          exact changed _ _ rfl rfl
      | false => exact h
  | _ => exact changed _ _ rfl rfl

theorem Alike.withMembers (h : d.Alike d') (same : SameMembers xs ys) :
    (d.withMembers field xs).Alike (d'.withMembers field ys) := by
  refine ⟨fun g => ?_, fun g => ?_⟩
  · rw [scalar_withMembers, scalar_withMembers, h.scalars g]
  · rw [members_withMembers, members_withMembers]
    split
    · exact same
    · exact h.members g

theorem properSets_empty (id : Value) : (empty id).ProperSets := by
  have none : (Value.frozen []).Proper := by decide
  intro field
  cases field <;> exact none

end Draft

namespace LiveDraft

open LiveCall (about Rearranged)

variable {d e : LiveDraft k} {call : LiveCall k} {calls calls' : List (LiveCall k)}
  {field : SetField} {t : k.Kept}

/-- With its sets in lists the draft does what drafts do. -/
theorem apply_live (d : LiveDraft .lists) (call : Draft.Call) :
    (d.apply call.live).1.shown = (d.shown.apply call).1 ∧
      (d.apply call.live).2 = (d.shown.apply call).2 := by
  cases call with
  | assign field v => exact apply_assign d field v
  | add field v =>
      simp only [Draft.Call.live, apply, Draft.apply, Draft.add, shown_members]
      cases v.hashable with
      | true => exact ⟨shown_put d field _, rfl⟩
      | false => exact ⟨rfl, rfl⟩
  | edit field edits =>
      simp only [Draft.Call.live, apply, Draft.apply, shown_members]
      exact ⟨shown_put d field _, rfl⟩

theorem shown_applyAll (d : LiveDraft .lists) (calls : List Draft.Call) :
    (d.applyAll (calls.map Draft.Call.live)).shown = d.shown.applyAll calls := by
  induction calls generalizing d with
  | nil => rfl
  | cons call rest ih =>
      calc ((d.apply call.live).1.applyAll (rest.map Draft.Call.live)).shown
        _ = (d.apply call.live).1.shown.applyAll rest := ih _
        _ = (d.shown.apply call).1.applyAll rest :=
            congrArg (Draft.applyAll · rest) (apply_live d call).1

theorem proper_listing (h : d.shown.ProperSets) (field : SetField) :
    (Value.frozen (k.listing (d.sets field))).Proper :=
  shown_members d field ▸ h field

theorem alike_put (h : d.shown.Alike e.shown) (same : SameMembers (k.listing s) (k.listing t)) :
    (d.put field s).shown.Alike (e.put field t).shown := by
  rw [shown_put, shown_put]
  exact h.withMembers same

/-- A call leaves drafts alike, unless it asks for the order of a set. -/
theorem alike_apply (h : d.shown.Alike e.shown) (proper : call.Proper) (blind : call.Blind) :
    (d.apply call).1.shown.Alike (e.apply call).1.shown := by
  have members : ∀ field, SameMembers (k.listing (d.sets field)) (k.listing (e.sets field)) := by
    intro field
    rw [← shown_members, ← shown_members]
    exact h.members field
  cases call with
  | assign field v =>
      rw [(apply_assign d field v).1, (apply_assign e field v).1]
      exact Draft.assign_alike h field v
  | add field v =>
      rw [apply_add, apply_add]
      split
      next hashable =>
        have left := k.insert_same _ v (members field).left proper hashable
        have right := k.insert_same _ v (members field).right proper hashable
        have joined := (members field).insertMember proper hashable
        exact alike_put h (left.trans (joined.trans right.symm))
      · exact h
  | edit field callback => exact alike_put h (blind _ _ (members field))

theorem properSets_apply (h : d.shown.ProperSets) (proper : call.Proper) :
    (d.apply call).1.shown.ProperSets := by
  cases call with
  | assign field v => exact (alike_apply (.refl h) proper trivial).left
  | add field v => exact (alike_apply (.refl h) proper trivial).left
  | edit field callback =>
      have edited := proper _ (proper_listing h field)
      exact (alike_put (.refl h) (.refl edited)).left

theorem properSets_add (h : d.shown.ProperSets) (hv : v.Proper) (field : SetField) :
    (d.apply (.add field v)).1.shown.ProperSets :=
  properSets_apply h (show (LiveCall.add field v).Proper from hv)

/-- Two additions to one set can be exchanged. -/
theorem apply_exchange (h : d.shown.ProperSets) (hv : v.Proper) (hw : w.Proper)
    (field : SetField) :
    ((d.apply (.add field v)).1.apply (.add field w)).1.shown.Alike
      ((d.apply (.add field w)).1.apply (.add field v)).1.shown := by
  have first := properSets_add h hv field
  have second := properSets_add h hw field
  by_cases hashable : v.hashable = true
  · by_cases hashable' : w.hashable = true
    · have exchanged := k.insert_comm (proper_listing h field) hv hw hashable hashable'
      simp only [apply_add, hashable, hashable', if_true, sets_put_self, put_put]
      exact alike_put (.refl h) exchanged
    · simp only [apply_add, hashable', Bool.false_eq_true, if_false] at first ⊢
      exact .refl first
  · simp only [apply_add, hashable, Bool.false_eq_true, if_false] at second ⊢
    exact .refl second

/-- The value is a member, if it can be one at all. -/
def Holds (d : LiveDraft k) (field : SetField) (v : Value) : Prop :=
  v.hashable = true → v.memberOf (k.listing (d.sets field)) = true

theorem holds_of_add (h : d.shown.ProperSets) (hv : v.Proper) :
    (d.apply (.add field v)).1.Holds field v := by
  intro hashable
  rw [apply_add, if_pos hashable, sets_put_self]
  exact k.memberOf_insert_self (proper_listing h field) hv hashable

theorem Holds.apply_add (held : d.Holds field v) (h : d.shown.ProperSets) (hv : v.Proper)
    (hw : w.Proper) : (d.apply (.add field w)).1.Holds field v := by
  intro hashable
  rw [LiveDraft.apply_add]
  split
  next hashable' =>
    rw [sets_put_self]
    exact k.memberOf_insert_of_present (proper_listing h field) hv hw hashable' (held hashable)
  · exact held hashable

/-- What is held is added to no effect. -/
theorem Holds.add_again (held : d.Holds field v) (h : d.shown.ProperSets) (hv : v.Proper) :
    (d.apply (.add field v)).1 = d := by
  rw [LiveDraft.apply_add]
  split
  next hashable =>
    have listed := proper_listing h field
    rw [k.insert_present _ v listed hv hashable (held hashable), put_self]
  · rfl

theorem applyAll_append (d : LiveDraft k) (first second : List (LiveCall k)) :
    d.applyAll (first ++ second) = (d.applyAll first).applyAll second :=
  List.foldl_append

theorem applyAll_cons (d : LiveDraft k) (call : LiveCall k) (calls : List (LiveCall k)) :
    d.applyAll (call :: calls) = (d.apply call).1.applyAll calls := rfl

theorem properSets_applyAll (h : d.shown.ProperSets) (proper : ∀ call ∈ calls, call.Proper) :
    (d.applyAll calls).shown.ProperSets := by
  induction calls generalizing d with
  | nil => exact h
  | cons call rest ih =>
      rw [List.forall_mem_cons] at proper
      exact ih (properSets_apply h proper.1) proper.2

theorem alike_applyAll (h : d.shown.Alike e.shown) (proper : ∀ call ∈ calls, call.Proper)
    (blind : ∀ call ∈ calls, call.Blind) :
    (d.applyAll calls).shown.Alike (e.applyAll calls).shown := by
  induction calls generalizing d e with
  | nil => exact h
  | cons call rest ih =>
      rw [List.forall_mem_cons] at proper blind
      exact ih (alike_apply h proper.1 blind.1) proper.2 blind.2

theorem Holds.applyAll {between : List Value} (held : d.Holds field v) (h : d.shown.ProperSets)
    (hv : v.Proper) (proper : ∀ w ∈ between, w.Proper) :
    (d.applyAll (between.map (.add field))).Holds field v := by
  induction between generalizing d with
  | nil => exact held
  | cons w rest ih =>
      rw [List.forall_mem_cons] at proper
      exact ih (held.apply_add h hv proper.1) (properSets_add h proper.1 field) proper.2

/-- Rearranged calls make drafts alike. -/
theorem alike_of_rearranged (h : Rearranged calls calls') (sets : d.shown.ProperSets)
    (proper : ∀ call ∈ calls, call.Proper) :
    (d.applyAll calls).shown.Alike (d.applyAll calls').shown := by
  induction h with
  | refl calls => exact .refl (properSets_applyAll sets proper)
  | exchange before after field v w blind =>
      rw [List.forall_mem_append, List.forall_mem_cons, List.forall_mem_cons] at proper
      obtain ⟨properBefore, hv, hw, properAfter⟩ := proper
      rw [applyAll_append, applyAll_append]
      have exchanged := apply_exchange (properSets_applyAll sets properBefore) hv hw field
      exact alike_applyAll exchanged properAfter blind
  | again before after field v between =>
      have reached := properSets_applyAll sets proper
      rw [List.forall_mem_append, List.forall_mem_cons, List.forall_mem_append,
        List.forall_mem_map] at proper
      obtain ⟨properBefore, hv, properBetween, -⟩ := proper
      have base := properSets_applyAll sets properBefore
      have joined := properSets_add base hv field
      have held := (holds_of_add base hv).applyAll joined hv properBetween
      have settled := properSets_applyAll joined (List.forall_mem_map.mpr properBetween)
      simp only [applyAll_append, applyAll_cons, held.add_again settled hv] at reached ⊢
      exact .refl reached
  | symm h ih => exact (ih fun call member => proper call (h.mem_iff.mp member)).symm
  | trans first _ ih ih' =>
      exact (ih proper).trans (ih' fun call member => proper call (first.mem_iff.mpr member))

/-- What the draft holds for a field: a value, or a set as it is kept. -/
def cell (d : LiveDraft k) : Field → Value ⊕ k.Kept
  | .scalar field => .inl (d.scalars field)
  | .set field => .inr (d.sets field)

theorem cell_put_of_ne {f : Field} (other : .set field ≠ f) (s : k.Kept) :
    (d.put field s).cell f = d.cell f := by
  cases f with
  | scalar g => rfl
  | set g =>
      have ne : g ≠ field := fun same => other (congrArg Field.set same.symm)
      exact congrArg Sum.inr (Function.update_of_ne ne _ _)

/-- A call leaves the fields alone that it is not about. -/
theorem cell_apply_of_ne {f : Field} (other : call.field ≠ f) :
    (d.apply call).1.cell f = d.cell f := by
  cases call with
  | assign g v =>
      simp only [apply]
      split
      · rfl
      · cases f with
        | scalar field =>
            have ne : field ≠ g := fun same => other (congrArg Field.scalar same.symm)
            exact congrArg Sum.inl (Function.update_of_ne ne _ _)
        | set field => rfl
  | add g v =>
      rw [apply_add]
      split
      · exact cell_put_of_ne other _
      · rfl
  | edit g callback => exact cell_put_of_ne other _

/-- A call makes of its field what it makes of the same field elsewhere. -/
theorem cell_apply_congr (same : d.cell call.field = e.cell call.field) :
    (d.apply call).1.cell call.field = (e.apply call).1.cell call.field := by
  cases call with
  | assign field v =>
      simp only [apply]
      split
      · exact same
      · simp only [LiveCall.field, cell, Function.update_self]
  | add field v =>
      have kept : d.sets field = e.sets field := Sum.inr.inj same
      rw [apply_add, apply_add]
      split
      · simp only [LiveCall.field, cell, sets_put_self, kept]
      · exact same
  | edit field callback =>
      have kept : d.sets field = e.sets field := Sum.inr.inj same
      simp only [apply, LiveCall.field, cell, sets_put_self, kept]

theorem cell_applyAll_congr {f : Field} (same : d.cell f = e.cell f) :
    (d.applyAll (about f calls)).cell f = (e.applyAll calls).cell f := by
  induction calls generalizing d e with
  | nil => exact same
  | cons call rest ih =>
      rw [about, List.filter_cons]
      split
      next own =>
        have own : call.field = f := of_decide_eq_true own
        subst own
        exact ih (cell_apply_congr same)
      next other =>
        have other : call.field ≠ f := fun own => other (decide_eq_true own)
        exact ih (same.trans (cell_apply_of_ne other).symm)

/-- A field is what the calls about it make of it. -/
theorem cell_about (d : LiveDraft k) (calls : List (LiveCall k)) (f : Field) :
    (d.applyAll (about f calls)).cell f = (d.applyAll calls).cell f :=
  cell_applyAll_congr rfl

/-- Drafts are alike after sequences of which the calls about each field are rearranged. -/
theorem applyAll_alike (sets : d.shown.ProperSets) (proper : ∀ call ∈ calls, call.Proper)
    (rearranged : ∀ f, Rearranged (about f calls) (about f calls')) :
    (d.applyAll calls).shown.Alike (d.applyAll calls').shown := by
  have each : ∀ f, (d.applyAll (about f calls)).shown.Alike (d.applyAll (about f calls')).shown :=
    fun f => alike_of_rearranged (rearranged f) sets fun call member =>
      proper call (List.mem_of_mem_filter member)
  refine ⟨fun field => ?_, fun field => ?_⟩
  · have alike := (each (.scalar field)).scalars field
    rw [shown_scalar, shown_scalar] at alike ⊢
    calc (d.applyAll calls).scalars field
      _ = (d.applyAll (about (.scalar field) calls)).scalars field :=
          (Sum.inl.inj (cell_about d calls (.scalar field))).symm
      _ = (d.applyAll (about (.scalar field) calls')).scalars field := alike
      _ = (d.applyAll calls').scalars field := Sum.inl.inj (cell_about d calls' (.scalar field))
  · have first := Sum.inr.inj (cell_about d calls (.set field))
    have second := Sum.inr.inj (cell_about d calls' (.set field))
    have alike := (each (.set field)).members field
    rw [shown_members, shown_members] at alike ⊢
    rw [← first, ← second]
    exact alike

theorem properSets_start (k : Keeping) (id : Value) : (start k id).shown.ProperSets :=
  shown_start k id ▸ Draft.properSets_empty id

theorem named_apply (named : (d.scalars .id).truthy = true) :
    ((d.apply call).1.scalars .id).truthy = true := by
  cases call with
  | assign field v =>
      simp only [apply]
      split
      · exact named
      next accepted =>
        simp only [Function.update_apply]
        split
        next own =>
          have present : ¬v.truthy = false := fun empty => accepted ⟨own.symm, empty⟩
          exact Bool.eq_true_of_not_eq_false present
        · exact named
  | add field v =>
      rw [apply_add]
      split <;> exact named
  | edit field callback => exact named

theorem named_applyAll (named : (d.scalars .id).truthy = true) :
    ((d.applyAll calls).scalars .id).truthy = true := by
  induction calls generalizing d with
  | nil => exact named
  | cons call rest ih => exact ih (named_apply named)

end LiveDraft

namespace Draft

open LiveDraft (start)
open LiveCall (about Rearranged)

variable {d : Draft}

/-- Calls about different fields are independent, and additions to one set are so among themselves,
in whatever way sets are kept: drafts to which rearranged calls lead from one start are alike, and
so are their builds. With sets in lists the drafts are those that calls make. -/
theorem interleaved {id : Value} (started : withId id = .ok d) :
    (∀ calls : List Call,
      ((start .lists id).applyAll (calls.map Call.live)).shown = d.applyAll calls) ∧
    ∀ (k : Keeping) (calls calls' : List (LiveCall k)), (∀ call ∈ calls, call.Proper) →
      (∀ field, Rearranged (about field calls) (about field calls')) →
      let e := ((start k id).applyAll calls).shown
      let e' := ((start k id).applyAll calls').shown
      (∀ field, e.scalar field = e'.scalar field) ∧
      (∀ field, (Value.frozen (e.members field)).same (.frozen (e'.members field)) = true) ∧
      ((∃ c c', e.build.result = .ok c ∧ e'.build.result = .ok c' ∧ c.same c' = true) ∨
        ∃ fault fault', e.build.result = .error fault ∧ e'.build.result = .error fault' ∧
          (e.missingField?.isSome = true ∨ e.Textual → fault.Alike fault')) := by
  simp only [withId] at started
  split at started <;> cases started
  next named =>
    refine ⟨fun calls => ?_, fun k calls calls' proper rearranged => ?_⟩
    · rw [LiveDraft.shown_applyAll, LiveDraft.shown_start]
    · have alike := LiveDraft.applyAll_alike (LiveDraft.properSets_start k id) proper rearranged
      have named' : (((start k id).applyAll calls).scalars .id).truthy = true :=
        LiveDraft.named_applyAll named
      exact ⟨alike.scalars, fun field => (alike.members field).same, alike.build named'⟩

def popScope : Call := .edit .scopes [.call .pop []]

def discardRead : Call := .edit .scopes [.call .discard [.text "read"]]

/-- Calls about three fields. Of the scopes the first one is taken out whichever it is, and one of
the later ones by name. -/
def kioskCalls : List Call :=
  [.add .scopes (.text "openid"), popScope, .add .scopes (.text "read"),
    .assign .clientId (.text "kiosk"), .add .scopes (.text "write"), discardRead,
    .add .grants (.token .grantType (.text "client_credentials"))]

/-- The calls about each field in their order, but for two of the scopes, of which one comes
twice. -/
def reorderedCalls : List Call :=
  [.add .grants (.token .grantType (.text "client_credentials")), .add .scopes (.text "openid"),
    popScope, .add .scopes (.text "write"), .add .scopes (.text "read"),
    .assign .clientId (.text "kiosk"), .add .scopes (.text "write"), discardRead]

theorem kioskCalls_proper : ∀ call ∈ kioskCalls, call.Proper := by
  have grant : (Value.token .grantType (.text "client_credentials")).Proper := .token rfl (.text _)
  simp [kioskCalls, popScope, discardRead, Call.Proper, Edit.args, Value.Proper.text, grant]

/-- By an edit that takes out a scope by name it cannot be told which came first. -/
theorem discardRead_blind : discardRead.live.Blind := by
  have proper : discardRead.Proper := by
    simp [discardRead, Call.Proper, Edit.args, Value.Proper.text]
  have unpopped : ¬discardRead.Pops := by simp [discardRead, Call.Pops]
  exact discardRead.live_blind proper unpopped

theorem kioskCalls_rearranged (field : Field) :
    Rearranged (about field (kioskCalls.map Call.live))
      (about field (reorderedCalls.map Call.live)) := by
  cases field with
  | scalar field => cases field <;> exact .refl _
  | set field =>
      cases field with
      | scopes =>
          have exchanged := Rearranged.exchange [.add .scopes (.text "openid"), popScope.live]
            [discardRead.live] .scopes (.text "read") (.text "write")
            (List.forall_mem_singleton.mpr discardRead_blind)
          have repeated := Rearranged.again [.add .scopes (.text "openid"), popScope.live]
            [discardRead.live] .scopes (.text "write") [.text "read"]
          exact exchanged.trans repeated
      | _ => exact .refl _

theorem applyAll_kioskCalls :
    (empty (.text "r")).applyAll kioskCalls = bareDraft [.text "write"] := by
  have apart : (Value.text "read").same (.text "write") = false := by decide +kernel
  simp [applyAll, kioskCalls, popScope, discardRead, apply, add, assign, withMembers, members,
    bareDraft, empty, Value.hashable, Value.insertMember, Value.memberOf, Edit.run, Edit.onSet,
    Edit.isAskable, Value.eraseMember, apart]

theorem kioskCalls_interleaved :
    (Value.frozen (((empty (.text "r")).applyAll kioskCalls).members .scopes)).same
      (.frozen (((empty (.text "r")).applyAll reorderedCalls).members .scopes)) = true ∧
    ∃ c c', ((empty (.text "r")).applyAll kioskCalls).build.result = .ok c ∧
      ((empty (.text "r")).applyAll reorderedCalls).build.result = .ok c' ∧ c.same c' = true := by
  have started : withId (.text "r") = .ok (empty (.text "r")) := rfl
  have proper : ∀ call ∈ kioskCalls.map Call.live, call.Proper :=
    List.forall_mem_map.mpr fun call member => call.live_proper (kioskCalls_proper call member)
  have valid : ∀ v ∈ [Value.text "write"], Validation.scopeOk v = .ok true := by
    have write : Scope.isAdmissible "write".toList = true := by decide +kernel
    exact List.forall_mem_singleton.mpr (congrArg _ write)
  obtain ⟨running, independent⟩ := interleaved started
  have results := independent .lists _ _ proper kioskCalls_rearranged
  simp only [running] at results
  obtain ⟨-, members, built | ⟨e, e', refused, -⟩⟩ := results
  · exact ⟨members .scopes, built⟩
  · rw [applyAll_kioskCalls, bareDraft_build valid] at refused
    cases refused

/-- The order of additions decides which member comes first, and an edit may take that one out. -/
theorem first_member_popped :
    let d := (empty (.text "r")).applyAll [.add .scopes (.int 0), .add .scopes (.int 8)]
    let d' := (empty (.text "r")).applyAll [.add .scopes (.int 8), .add .scopes (.int 0)]
    (d.apply popScope).2 = none ∧ (d'.apply popScope).2 = none ∧
      (Value.frozen ((d.apply popScope).1.members .scopes)).same
        (.frozen ((d'.apply popScope).1.members .scopes)) = false := by
  have apart : (Value.int 0).same (.int 8) = false ∧ (Value.int 8).same (.int 0) = false := by
    decide +kernel
  have left : (Value.frozen [.int 8]).same (.frozen [.int 0]) = false := by decide +kernel
  simp [popScope, applyAll, apply, add, withMembers, members, empty, Value.hashable,
    Value.insertMember, Value.memberOf, Edit.run, Edit.onSet, apart, left]

end Draft

end ClientRegistry
