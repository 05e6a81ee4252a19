import ClientRegistry.Proofs.Client.Consistent
import ClientRegistry.Proofs.Value.Edited
import ClientRegistry.Proofs.Value.Members

/-! Calls on drafts. A call whose values are of the types of its field leaves every field of the
draft with values of its type, whether the call succeeds or fails half way. -/

namespace ClientRegistry

/-- The values that a setter takes; what may be absent may be null. -/
def ScalarField.Admits : ScalarField → Value → Prop
  | .id, v => v.IsText
  | .clientId, v => v = .null ∨ v.IsText
  | .issuedAt, v => v = .null ∨ v.IsMoment
  | .secret, v => v = .null ∨ v.IsText
  | .secretExpiresAt, v => v = .null ∨ v.IsMoment
  | .name, v => v = .null ∨ v.IsText
  | .clientSettings, v => v = .null ∨ ∃ options, v = .bag .client options
  | .tokenSettings, v => v = .null ∨ ∃ options, v = .bag .token options

/-- The values that a set field has as members. -/
def SetField.Admits : SetField → Value → Prop
  | .methods, v => v.IsToken .authMethod
  | .grants, v => v.IsToken .grantType
  | .redirectUris, v => v.IsText
  | .scopes, v => v.IsText

/-- All that an edit of a set can bring in has the property: what it adds, or the items of what it
is given. -/
def Edit.Brings (P : Value → Prop) : Edit Value → Prop
  | .call .add args => ∀ v ∈ args, P v
  | .call _ args => ∀ a ∈ args, ∀ items, a.items? = some items → ∀ v ∈ items, P v
  | .stop _ => True

namespace Edit

variable {P : Value → Prop} {xs ys : List Value} {a v : Value}

theorem mem_of_mem_eraseMember (member : v ∈ Value.eraseMember xs a) : v ∈ xs :=
  (List.mem_filter.mp member).1

theorem eachMember_all {f : List Value → Value → List Value}
    (kept : ∀ xs y, (∀ v ∈ xs, P v) → P y → ∀ v ∈ f xs y, P v) (old : ∀ v ∈ xs, P v)
    (new : ∀ v ∈ ys, P v) : ∀ v ∈ (eachMember f xs ys).1, P v := by
  induction ys generalizing xs with
  | nil => exact old
  | cons y rest ih =>
      rw [List.forall_mem_cons] at new
      simp only [eachMember]
      split
      · exact ih (kept xs y old new.1) new.2
      · exact old

theorem eachIterable_all {f : List Value → Value → List Value}
    (kept : ∀ xs y, (∀ v ∈ xs, P v) → P y → ∀ v ∈ f xs y, P v) {args : List Value}
    (old : ∀ v ∈ xs, P v)
    (new : ∀ a ∈ args, ∀ items, a.items? = some items → ∀ v ∈ items, P v) :
    ∀ v ∈ (eachIterable f xs args).1, P v := by
  induction args generalizing xs with
  | nil => exact old
  | cons a rest ih =>
      rw [List.forall_mem_cons] at new
      simp only [eachIterable]
      split
      · exact old
      next items found =>
        have gone := eachMember_all (f := f) kept old (new.1 items found)
        split
        next xs' done =>
          rw [done] at gone
          exact ih gone new.2
        · exact gone

theorem insertMember_all (old : ∀ v ∈ xs, P v) (new : P a) :
    ∀ v ∈ Value.insertMember xs a, P v := by
  intro v member
  rcases Value.mem_of_mem_insertMember member with there | rfl
  · exact old v there
  · exact new

theorem sharedFrom_all {found shared : List Value} (old : ∀ v ∈ found, P v) (new : ∀ v ∈ ys, P v)
    (done : sharedFrom xs found ys = .ok shared) : ∀ v ∈ shared, P v := by
  induction ys generalizing found with
  | nil =>
      cases done
      exact old
  | cons y rest ih =>
      rw [List.forall_mem_cons] at new
      simp only [sharedFrom] at done
      split at done
      · split at done
        · split at done
          · cases done
            exact insertMember_all old new.1
          · exact ih (insertMember_all old new.1) new.2 done
        · exact ih old new.2 done
      · cases done

theorem sharedMembers_all (old : ∀ v ∈ xs, P v) (new : ∀ v ∈ ys, P v) :
    ∀ v ∈ sharedMembers xs ys, P v := by
  intro v member
  simp only [sharedMembers] at member
  split at member
  · exact old v (List.mem_filter.mp member).1
  · exact new v (List.mem_filter.mp member).1

theorem shared_all (old : ∀ v ∈ xs, P v)
    (new : ∀ items, a.items? = some items → ∀ v ∈ items, P v) (done : shared xs a = .ok ys) :
    ∀ v ∈ ys, P v := by
  unfold shared at done
  split at done
  · cases done
    exact sharedMembers_all old (new _ rfl)
  · cases done
    exact sharedMembers_all old (new _ rfl)
  · split at done
    next items found =>
      exact sharedFrom_all (fun _ member => by cases member) (new items found) done
    · cases done

theorem foldlM_shared_all {args : List Value} (old : ∀ v ∈ xs, P v)
    (new : ∀ a ∈ args, ∀ items, a.items? = some items → ∀ v ∈ items, P v)
    (done : args.foldlM shared xs = .ok ys) : ∀ v ∈ ys, P v := by
  induction args generalizing xs with
  | nil =>
      cases done
      exact old
  | cons a rest ih =>
      rw [List.forall_mem_cons] at new
      obtain ⟨zs, first, done⟩ := except_bind_eq_ok.mp done
      exact ih (shared_all old new.1 first) new.2 done

theorem toggle_all (old : ∀ v ∈ xs, P v) (new : ∀ v ∈ ys, P v) :
    ∀ v ∈ ys.foldl toggle xs, P v := by
  induction ys generalizing xs with
  | nil => exact old
  | cons y rest ih =>
      rw [List.forall_mem_cons] at new
      refine ih (fun v member => ?_) new.2
      simp only [toggle] at member
      split at member
      · exact old v (mem_of_mem_eraseMember member)
      · rcases List.mem_append.mp member with there | last
        · exact old v there
        · exact List.mem_singleton.mp last ▸ new.1

theorem whole_all {r : Except Fault (List Value)} (old : ∀ v ∈ xs, P v)
    (new : ∀ ys, r = .ok ys → ∀ v ∈ ys, P v) : ∀ v ∈ (whole xs r).1, P v := by
  cases r with
  | ok ys => exact new ys rfl
  | error e => exact old

/-- The members of a set after an edit were there before, or came with it. -/
theorem onSet_all {method : Method} {args : List Value} (old : ∀ v ∈ xs, P v)
    (brings : (Edit.call method args).Brings P) : ∀ v ∈ (onSet method args xs).1, P v := by
  unfold onSet
  split
  next x =>
    split
    · exact insertMember_all old (brings x (List.mem_singleton_self x))
    · exact old
  next x =>
    split
    · split
      · exact fun v member => old v (mem_of_mem_eraseMember member)
      · exact old
    · exact old
  next x =>
    split
    · exact fun v member => old v (mem_of_mem_eraseMember member)
    · exact old
  next => exact fun _ member => by cases member
  next => exact eachIterable_all (fun _ _ there new => insertMember_all there new) old brings
  next =>
    exact eachIterable_all
      (fun _ _ there _ v member => there v (mem_of_mem_eraseMember member)) old brings
  next => exact whole_all old fun ys done => foldlM_shared_all old brings done
  next a =>
    refine whole_all old fun ys done => ?_
    obtain ⟨zs, given, rfl⟩ := except_map_eq_ok.mp done
    simp only [membersOf] at given
    split at given
    next items found =>
      split at given <;> cases given
      exact toggle_all old fun v member =>
        brings a (List.mem_singleton_self a) _ found v (Value.mem_of_mem_toMembers member)
    · cases given
  next =>
    split
    · exact old
    · exact fun v member => old v (List.mem_cons_of_mem _ member)
  all_goals exact old

end Edit

namespace Draft

def scalar (d : Draft) : ScalarField → Value
  | .id => d.id
  | .clientId => d.clientId
  | .issuedAt => d.issuedAt
  | .secret => d.secret
  | .secretExpiresAt => d.secretExpiresAt
  | .name => d.name
  | .clientSettings => d.clientSettings
  | .tokenSettings => d.tokenSettings

/-- A draft with an id whose fields are of their types. -/
structure Typed (d : Draft) : Prop where
  named : d.id.truthy = true
  scalars : ∀ field : ScalarField, field.Admits (d.scalar field)
  members : ∀ field : SetField, ∀ v ∈ d.members field, field.Admits v

/-- The values of a call are of the types of its field. -/
def Call.Typed : Call → Prop
  | .assign field v => field.Admits v
  | .add field v => field.Admits v
  | .edit field edits => ∀ e ∈ edits, e.Brings field.Admits

variable {d d' : Draft} {v : Value} {xs : List Value}

@[simp] theorem members_withMembers (d : Draft) (field g : SetField) (xs : List Value) :
    (d.withMembers field xs).members g = if g = field then xs else d.members g := by
  cases field <;> cases g <;> rfl

@[simp] theorem scalar_withMembers (d : Draft) (field : SetField) (xs : List Value) (g : ScalarField) :
    (d.withMembers field xs).scalar g = d.scalar g := by
  cases field <;> cases g <;> rfl

/-- An assignment changes its own field and no other. -/
theorem assign_eq_ok {field : ScalarField} (assigned : d.assign field v = .ok d') :
    (∀ g, d'.scalar g = if g = field then v else d.scalar g) ∧
      (∀ g, d'.members g = d.members g) ∧ (field = .id → v.truthy = true) := by
  cases field with
  | id =>
      simp only [assign] at assigned
      split at assigned
      next present =>
        cases assigned
        exact ⟨fun g => by cases g <;> rfl, fun g => by cases g <;> rfl, fun _ => present⟩
      · cases assigned
  | _ =>
      cases assigned
      exact ⟨fun g => by cases g <;> rfl, fun g => by cases g <;> rfl, fun h => by cases h⟩

theorem Typed.assign (h : d.Typed) {field : ScalarField} (admitted : field.Admits v)
    (assigned : d.assign field v = .ok d') : d'.Typed := by
  obtain ⟨scalars, members, present⟩ := assign_eq_ok assigned
  refine ⟨?_, fun g => ?_, fun g => ?_⟩
  · have own : d'.id = if ScalarField.id = field then v else d.id := scalars .id
    rw [own]
    split
    next same => exact present same.symm
    · exact h.named
  · rw [scalars g]
    split
    next same => exact same ▸ admitted
    · exact h.scalars g
  · rw [members g]
    exact h.members g

theorem Typed.withMembers (h : d.Typed) {field : SetField} (admitted : ∀ v ∈ xs, field.Admits v) :
    (d.withMembers field xs).Typed := by
  refine ⟨?_, fun g => ?_, fun g => ?_⟩
  · have own : (d.withMembers field xs).id = d.id := scalar_withMembers d field xs .id
    exact own ▸ h.named
  · rw [scalar_withMembers]
    exact h.scalars g
  · rw [members_withMembers]
    split
    next same => exact same ▸ admitted
    · exact h.members g

theorem Typed.apply (h : d.Typed) {call : Call} (typed : call.Typed) : (d.apply call).1.Typed := by
  cases call with
  | assign field v =>
      simp only [Draft.apply]
      split
      next assigned => exact h.assign typed assigned
      · exact h
  | add field v =>
      simp only [Draft.apply, Draft.add]
      split
      next added =>
        split at added <;> cases added
        exact h.withMembers (Edit.insertMember_all (h.members field) typed)
      · exact h
  | edit field edits =>
      have kept : ∀ v ∈ (Edit.run Edit.onSet edits (d.members field)).1, field.Admits v :=
        Edit.run_induct (I := fun xs => ∀ v ∈ xs, field.Admits v)
          (fun method args listed xs old => Edit.onSet_all old (typed _ listed)) (h.members field)
      exact h.withMembers kept

/-- The drafts that calls with values of the right types lead to. A call that fails leads on as
well. -/
inductive Reachable : Draft → Prop
  | withId {id : Value} {d : Draft} (text : id.IsText) (started : withId id = .ok d) : Reachable d
  | ofClient {c : Client} (typed : c.Typed) (accepted : c.Accepted) : Reachable (ofClient c)
  | apply {d : Draft} {call : Call} (reached : Reachable d) (typed : call.Typed) :
      Reachable (d.apply call).1

theorem typed_withId {id : Value} (text : id.IsText) (started : withId id = .ok d) : d.Typed := by
  simp only [withId] at started
  split at started
  next present =>
    cases started
    refine ⟨present, fun field => ?_, fun field v member => by cases field <;> cases member⟩
    cases field with
    | id => exact text
    | _ => exact .inl rfl
  · cases started

theorem typed_ofClient {c : Client} (typed : c.Typed) (present : c.id.truthy = true) :
    (ofClient c).Typed where
  named := present
  scalars field := by
    cases field with
    | id => exact typed.id
    | clientId => exact .inr typed.clientId
    | issuedAt => exact typed.issuedAt
    | secret => exact typed.secret
    | secretExpiresAt => exact typed.secretExpiresAt
    | name => exact .inr typed.name
    | clientSettings => exact .inr ⟨c.clientSettings, rfl⟩
    | tokenSettings => exact .inr ⟨c.tokenSettings, rfl⟩
  members field := by
    cases field with
    | methods => exact typed.methods
    | grants => exact typed.grants
    | redirectUris => exact typed.redirectUris
    | scopes => exact typed.scopes

theorem Reachable.typed (h : d.Reachable) : d.Typed := by
  induction h with
  | withId text started => exact typed_withId text started
  | ofClient typed accepted => exact typed_ofClient typed accepted.id
  | apply _ typed ih => exact ih.apply typed

theorem Reachable.applyAll (h : d.Reachable) {calls : List Call} (typed : ∀ c ∈ calls, c.Typed) :
    (d.applyAll calls).Reachable := by
  induction calls generalizing d with
  | nil => exact h
  | cons call rest ih =>
      rw [List.forall_mem_cons] at typed
      exact ih (h.apply typed.1) typed.2

end Draft

end ClientRegistry
