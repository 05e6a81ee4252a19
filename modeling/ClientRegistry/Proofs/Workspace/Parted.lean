import ClientRegistry.Proofs.Store.Parted
import ClientRegistry.Proofs.Workspace.Answers
import ClientRegistry.Proofs.Workspace.Extended

/-! Workspaces in regions. The objects that are made from some point on lie in regions of their own,
apart from one another and from all that was there before, so what happens in the region of one of
them alters no other object. -/

namespace ClientRegistry.Workspace

variable {w w' : Workspace} {start i : Handle} {region : Address → Option Handle}
  {k : Option Handle} {o : Object} {x : Shared} {a : Address} {s : Store}

/-- The region that the cells of an object are in, if they are not rigid. Values, snapshots and rows
have one of their own from the start on; bags take no edits, and all that was there before the start
is in one region. -/
def Object.ownRegion (start h : Handle) : Object → Option Handle
  | .value (.bag _ _) => none
  | .value _ => if start ≤ h then some h else none
  | .snapshot _ => if start ≤ h then some h else none
  | .row _ => if start ≤ h then some h else none
  | _ => none

/-- The cells of the store are in regions, and those of every object in its own. -/
structure Parted (start : Handle) (region : Address → Option Handle) (w : Workspace) : Prop where
  cells : w.store.Parted region
  objects : ∀ (h : Handle) (o : Object), w.objects[h]? = some o → ∀ x ∈ o.parts, ∀ a,
    x.address? = some a → w.store.Rigid a ∨ region a = o.ownRegion start h

/-- No old cell has changed but in the region of one object, and no other object has. -/
structure Confined (region : Address → Option Handle) (k : Option Handle) (w w' : Workspace) :
    Prop where
  length_le : w.store.length ≤ w'.store.length
  keeps : w.store.Keeps w'.store
  cells : ∀ a < w.store.length, region a = none ∨ region a ≠ k →
    w'.store.cellAt a = w.store.cellAt a
  objects : ∀ (h : Handle) (o : Object), w.objects[h]? = some o → some h ≠ k →
    w'.objects[h]? = some o

theorem Object.ownRegion_eq (start h : Handle) (o : Object) :
    o.ownRegion start h = none ∨ o.ownRegion start h = some h ∧ start ≤ h := by
  cases o with
  | value x =>
      cases x with
      | bag kind a => exact .inl rfl
      | _ => simp only [ownRegion]; split <;> simp [*]
  | snapshot fields => simp only [ownRegion]; split <;> simp [*]
  | row fields => simp only [ownRegion]; split <;> simp [*]
  | _ => exact .inl rfl

/-- The object is there, and what its cells hold is what it was. -/
def Intact (w w' : Workspace) (i : Handle) : Prop :=
  ∃ o, w.objects[i]? = some o ∧ w'.objects[i]? = some o ∧
    ∀ x ∈ o.parts, ∀ y : Shared, y.address? = x.address? → w'.store.read y = w.store.read y ∧
      ∀ a, y.address? = some a → w'.store.optionsAt a = w.store.optionsAt a

theorem Intact.trans {w'' : Workspace} (first : w.Intact w' i) (second : w'.Intact w'' i) :
    w.Intact w'' i := by
  obtain ⟨o, present, present', same⟩ := first
  obtain ⟨o', there, there', same'⟩ := second
  cases present'.symm.trans there
  refine ⟨o, present, there', fun x member y like => ?_⟩
  obtain ⟨read, options⟩ := same x member y like
  obtain ⟨read', options'⟩ := same' x member y like
  exact ⟨read'.trans read, fun a at' => (options' a at').trans (options a at')⟩

theorem Intact.unaltered (h : w.Intact w' i) : w.Unaltered w' i := by
  obtain ⟨o, present, present', same⟩ := h
  refine ⟨o, present, present', shown_congr (fun x member => (same x member x rfl).1) ?_⟩
  exact fun a member => (same _ member _ rfl).2 a rfl

/-- What is in the region of another object stays intact. -/
theorem Confined.intact (confined : w.Confined region k w') (grounded : w.holding.Grounded)
    (parted : w.Parted start region) (inside : i < w.objects.length) (other : some i ≠ k) :
    w.Intact w' i := by
  have present : w.objects[i]? = some w.objects[i] := List.getElem?_eq_getElem inside
  generalize w.objects[i] = o at present
  have parts := parts_lt grounded (List.mem_of_getElem? present)
  let own : Address → Prop := fun a => a < w.store.length ∧ region a = o.ownRegion start i
  have apart : o.ownRegion start i = none ∨ o.ownRegion start i ≠ k := by
    rcases o.ownRegion_eq start i with none | ⟨self, -⟩
    · exact .inl none
    · exact .inr (self ▸ other)
  have spares : w.store.Spares w'.store own :=
    ⟨confined.length_le, confined.keeps, fun a ⟨there, same⟩ =>
      confined.cells a there (same ▸ apart)⟩
  have closed : ∀ a b, own a → w.store.Mentions a b → own b ∨ w.store.Rigid b := by
    rintro a b ⟨-, same⟩ mentions
    obtain ⟨rank, below⟩ := grounded.ranked
    rcases parted.cells a b mentions with rigid | near
    · exact .inr rigid
    · exact .inl ⟨(below a b mentions).1, near.trans same⟩
  have known : ∀ x ∈ o.parts, ∀ a, x.address? = some a → own a ∨ w.store.Rigid a := by
    intro x member a at'
    rcases parted.objects i o present x member a at' with rigid | same
    · exact .inr rigid
    · exact .inl ⟨parts x member a at', same⟩
  refine ⟨o, present, confined.objects i o present other, fun x member y like => ⟨?_, ?_⟩⟩
  · exact spares.read grounded.ranked closed (fun a own => own.1)
      fun a at' => known x member a (like ▸ at')
  · exact fun a at' => spares.optionsAt grounded.ranked closed (fun a own => own.1)
      (known x member a (like ▸ at'))

namespace Parted

/-- At the start nothing has a region of its own. -/
theorem initial (w : Workspace) : w.Parted w.objects.length fun _ => none where
  cells _ _ _ := .inr rfl
  objects h o present x _ a _ := by
    refine .inr ?_
    rcases o.ownRegion_eq w.objects.length h with none | ⟨-, later⟩
    · exact none.symm
    · exact absurd (List.getElem?_eq_some_iff.mp present).1 (Nat.not_lt_of_le later)

/-- New cells can be given to any region. -/
theorem grows (h : w.Parted start region) (grounded : w.holding.Grounded)
    (grows : w.store.Grows w'.store) (objects : w'.objects = w.objects) (r : Option Handle) :
    w'.Parted start (Store.regionFrom region w.store.length r) where
  cells := h.cells.grows grounded.ranked grows r
  objects i o present x member a at' := by
    rw [objects] at present
    have inside := parts_lt grounded (List.mem_of_getElem? present) x member a at'
    rw [Store.regionFrom_of_lt inside]
    exact (h.objects i o present x member a at').imp_left fun rigid => rigid.keep grows.keeps

theorem insert (h : w.Parted start region)
    (own : ∀ x ∈ o.parts, ∀ a, x.address? = some a →
      w.store.Rigid a ∨ region a = o.ownRegion start w.objects.length) :
    (w.insert o).1.Parted start region where
  cells := h.cells
  objects i o' present := by
    rw [insert_objects] at present
    by_cases old : i < w.objects.length
    · rw [List.getElem?_append_left old] at present
      exact h.objects i o' present
    · have last : i = w.objects.length := by
        have bound := (List.getElem?_eq_some_iff.mp present).1
        rw [List.length_append, List.length_singleton] at bound
        exact Nat.le_antisymm (Nat.le_of_lt_succ bound) (Nat.le_of_not_lt old)
      subst last
      rw [List.getElem?_concat_length] at present
      cases present
      exact own

/-- Another object of the same region. -/
theorem replace (h : w.Parted start region)
    (own : ∀ x ∈ o.parts, ∀ a, x.address? = some a →
      w.store.Rigid a ∨ region a = o.ownRegion start i) : (w.replace i o).Parted start region where
  cells := h.cells
  objects j o' present := by
    rw [replace_objects] at present
    by_cases same : i = j
    · subst same
      have inside := (List.getElem?_eq_some_iff.mp present).1
      rw [List.length_set] at inside
      rw [List.getElem?_set_self inside] at present
      cases present
      exact own
    · rw [List.getElem?_set_ne same] at present
      exact h.objects j o' present

end Parted

theorem Confined.of_extends (h : w.Extends w') : w.Confined region k w' where
  length_le := h.store.length_le
  keeps := h.store.keeps
  cells a inside _ := h.store.cells a inside
  objects i o present _ := h.objects i o present

theorem Confined.replace (h : w.Confined region (some i) w') :
    w.Confined region (some i) (w'.replace i o) where
  length_le := h.length_le
  keeps := h.keeps
  cells := h.cells
  objects j o' present other := by
    rw [replace_objects, List.getElem?_set_ne fun same => other (congrArg some same.symm)]
    exact h.objects j o' present other

/-- The turn leaves the workspace parted, and all changes in the region of one object. -/
structure Turn.Parts (start : Handle) (region : Address → Option Handle) (w : Workspace)
    (k : Option Handle) (t : Turn) : Prop where
  parted : ∃ region', t.workspace.Parted start region'
  confined : w.Confined region k t.workspace

namespace Parted

variable (h : w.Parted start region) (grounded : w.holding.Grounded)

include h grounded

/-- A turn that lays values out and makes no object. -/
theorem laid {t : Turn} (grows : w.store.Grows t.workspace.store)
    (objects : t.workspace.objects = w.objects) : t.Parts start region w k :=
  ⟨⟨_, h.grows grounded grows objects none⟩, .of_extends (.of_store grows.toExtends objects)⟩

/-- A turn that makes an object, in a region of its own. -/
theorem added (grows : w.store.Grows w'.store) (objects : w'.objects = w.objects)
    (own : ∀ x ∈ o.parts, ∀ a, x.address? = some a →
      w'.store.Rigid a ∨ Store.regionFrom region w.store.length
        (o.ownRegion start w.objects.length) a = o.ownRegion start w.objects.length) :
    (Turn.ofNew (w'.insert o)).Parts start region w k := by
  have grown := h.grows grounded grows objects (o.ownRegion start w.objects.length)
  rw [← objects] at grown own
  have extends' : w.Extends (w'.insert o).1 :=
    Extends.insert (.of_store grows.toExtends objects) o
  refine ⟨⟨Store.regionFrom region w.store.length (o.ownRegion start w'.objects.length), ?_⟩, ?_⟩
  · rw [Turn.ofNew, Turn.ofObject_workspace]
    exact grown.insert own
  · rw [Turn.ofNew, Turn.ofObject_workspace]
    exact .of_extends extends'

/-- A turn that exports an object of new and rigid cells. -/
theorem exported (grows : w.store.Grows w'.store) (objects : w'.objects = w.objects)
    (free : ∀ x ∈ o.parts, w.store.Free w'.store x) :
    (Turn.ofNew (w'.insert o)).Parts start region w k :=
  h.added grounded grows objects fun x member a at' =>
    (free x member a at').imp_right fun new => Store.regionFrom_of_le new.1

theorem after_parts {α : Type} {r : Except Fault α} {f : α → Turn}
    (grows : w.store.Grows w'.store) (objects : w'.objects = w.objects)
    (next : ∀ a, r = .ok a → (f a).Parts start region w k) :
    (w'.after r f).Parts start region w k := by
  cases r with
  | ok a => exact next a rfl
  | error e => exact h.laid grounded grows objects

/-- What has a name is one of the objects. -/
theorem onObject_parts {name : String} {f : Handle → Object → Turn}
    (next : ∀ i o, w.handle? name = .ok i → w.objects[i]? = some o →
      (f i o).Parts start region w k) : (w.onObject name f).Parts start region w k := by
  refine h.after_parts grounded (.refl _) rfl fun i named => ?_
  refine h.after_parts grounded (.refl _) rfl fun o found => ?_
  exact next i o named (((Backed.start grounded).present found).1)

theorem onClient_parts {name : String} {f : HeldClient → Turn}
    (next : ∀ (i : Handle) (c : HeldClient), w.objects[i]? = some (.client c) →
      (f c).Parts start region w k) :
    (w.onClient name f).Parts start region w k := by
  refine h.onObject_parts grounded fun i o _ present => ?_
  cases o with
  | client c => exact next i c present
  | _ => exact h.laid grounded (.refl _) rfl

theorem onBag_parts {name : String} {f : BagKind → Address → Turn}
    (next : ∀ kind a, a < w.store.length → (f kind a).Parts start region w k) :
    (w.onBag name f).Parts start region w k := by
  refine h.onObject_parts grounded fun i o _ present => ?_
  have inside := parts_lt grounded (List.mem_of_getElem? present)
  cases o with
  | value x =>
      cases x with
      | bag kind a => exact next kind a (inside _ (List.mem_singleton_self _) a rfl)
      | _ => exact h.laid grounded (.refl _) rfl
  | _ => exact h.laid grounded (.refl _) rfl

/-- What is given is laid out, and what has a name is there. -/
theorem onHeld_parts {operand : Operand} {f : Workspace → Shared → Turn}
    (grows : w.store.Grows w'.store) (objects : w'.objects = w.objects)
    (next : ∀ w'' x, w.store.Grows w''.store → w''.objects = w.objects →
      (∀ a, x.address? = some a → a < w''.store.length) → (f w'' x).Parts start region w k) :
    (w'.onHeld operand f).Parts start region w k := by
  refine h.after_parts grounded grows objects fun p found => ?_
  cases operand with
  | given v =>
      cases found
      obtain ⟨lays, new⟩ := readIn_lays w' v
      exact next _ _ (grows.trans lays.grows) objects fun a at' => (new a at').2
  | «variable» name =>
      simp only [held] at found
      split at found
      next x named =>
        cases found
        refine next w' x grows objects fun a at' => ?_
        obtain ⟨i, -, present⟩ := handle_of_named named
        rw [objects] at present
        have inside := parts_lt grounded (List.mem_of_getElem? present)
        exact Nat.lt_of_lt_of_le (inside x (List.mem_singleton_self x) a at') grows.length_le
      · cases found
      · cases found

end Parted

end ClientRegistry.Workspace
