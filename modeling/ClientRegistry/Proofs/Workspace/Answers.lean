import ClientRegistry.Proofs.Store.Reading
import ClientRegistry.Proofs.Workspace.Backing

/-! What a bag answers. Its dictionary and its single options are read off the cells of the bag, so
they are what they were for as long as these cells are. -/

namespace ClientRegistry

/-- A look-up finds the value of what is held under the key. -/
theorem Entries.find?_map {α β : Type} (f : α → β) (es : List (Value × α)) (k : Value) :
    find? (es.map fun e => (e.1, f e.2)) k = (find? es k).map f := by
  induction es with
  | nil => rfl
  | cons e rest ih =>
      simp only [find?, List.map_cons, List.find?_cons] at ih ⊢
      cases k.same e.1 with
      | true => rfl
      | false => exact ih

/-- The option of the name, or the default. -/
theorem Bag.eq_of_getSetting {b : Bag} {name default v : Value}
    (h : b.getSetting name default = .ok v) :
    v = (Entries.find? b.options name).getD default := by
  simp only [getSetting] at h
  split at h
  · cases h
  · split at h
    · cases h
    · exact (Except.ok.inj h).symm

/-- The value has no not-a-number in it, so it is read in the same whatever the next mark is. -/
def Value.Unmarked (v : Value) : Prop := ∀ i j, (v.freshen i).1 = (v.freshen j).1

namespace Workspace

variable {w : Workspace} {on : String} {kind : BagKind} {a : Address} {o : Object}
  {x : Shared}

theorem named_of_handle {h : Handle} (found : w.handle? on = .ok h)
    (present : w.objects[h]? = some o) : w.named? on = .ok o := by
  rw [named?, found]
  show w.object? h = .ok o
  rw [object?, present]

theorem handle_of_named (named : w.named? on = .ok o) :
    ∃ h, w.handle? on = .ok h ∧ w.objects[h]? = some o := by
  simp only [named?] at named
  cases found : w.handle? on with
  | error e =>
      rw [found] at named
      cases named
  | ok h =>
      rw [found] at named
      have present : w.object? h = .ok o := named
      simp only [object?] at present
      split at present
      next there =>
        cases present
        exact ⟨h, rfl, there⟩
      · cases present

theorem onObject_of_handle {h : Handle} (found : w.handle? on = .ok h)
    (present : w.objects[h]? = some o) (f : Handle → Object → Turn) : w.onObject on f = f h o := by
  have there : w.object? h = .ok o := by rw [object?, present]
  simp only [onObject, found, there, after]

theorem onBag_of_named (named : w.named? on = .ok (.value (.bag kind a)))
    (f : BagKind → Address → Turn) : w.onBag on f = f kind a := by
  obtain ⟨h, found, present⟩ := handle_of_named named
  exact onObject_of_handle found present _

theorem ofNew_insert_display (w : Workspace) (o : Object) :
    (Turn.ofNew (w.insert o)).display = .ok (.shown (w.shown o)) := by
  have found : (w.insert o).1.object? (w.insert o).2 = .ok o := by
    simp only [insert, object?, List.getElem?_concat_length]
  rw [Turn.ofNew, Turn.ofObject, found]
  cases o <;> rfl

theorem Turn.ofNew_insert_named (w : Workspace) (o : Object) (name : String) :
    (ofNew (w.insert o)).named (some name) = (w.insert o).1.bind name w.objects.length := by
  have found : (w.insert o).1.object? (w.insert o).2 = .ok o := by
    simp only [insert, object?, List.getElem?_concat_length]
  simp only [ofNew, ofObject, found, named]
  rfl

theorem named_lt (grounded : w.holding.Grounded)
    (named : w.named? on = .ok (.value (.bag kind a))) : a < w.store.length := by
  obtain ⟨h, -, present⟩ := handle_of_named named
  exact (grounded.held (.bag kind a) a
    ⟨_, List.mem_of_getElem? present, List.mem_singleton_self _⟩ rfl).1

/-- What is handed out as a copy shows what it is a copy of. -/
theorem copy_display (ranked : w.store.Ranked)
    (inside : ∀ b, x.address? = some b → b < w.store.length) :
    (Turn.ofNew ({ w with store := (w.store.copy x).1 }.insert
      (.value (w.store.copy x).2))).display = .ok (.shown (.value (w.store.read x))) := by
  rw [ofNew_insert_display]
  exact congrArg (fun v => Except.ok (Display.shown (.value v))) (ranked.read_copy inside)

theorem toDict_display (grounded : w.holding.Grounded)
    (named : w.named? on = .ok (.value (.bag kind a))) :
    (w.toDict on).display = .ok (.shown (.value (w.store.read (.cell a)))) := by
  rw [toDict, onBag_of_named named]
  refine copy_display grounded.ranked fun b at' => ?_
  cases at'
  exact named_lt grounded named

/-- The value of what is held under a name, or of what is held instead. -/
theorem read_option (s : Store) (a : Address) (name : Value) (x : Shared) :
    s.read ((Entries.find? (s.entriesAt a) name).getD x) =
      (Entries.find? (s.optionsAt a) name).getD (s.read x) := by
  rw [Store.optionsAt, Entries.find?_map, Option.getD_map]

theorem option_lt {s : Store} (ranked : s.Ranked)
    (inside : ∀ b, x.address? = some b → b < s.length) (name : Value) :
    ∀ b, ((Entries.find? (s.entriesAt a) name).getD x).address? = some b → b < s.length := by
  intro b at'
  cases found : Entries.find? (s.entriesAt a) name with
  | none =>
      rw [found] at at'
      exact inside b at'
  | some y =>
      rw [found] at at'
      obtain ⟨e, listed, rfl⟩ := List.mem_map.mp (Store.mem_of_find? found)
      obtain ⟨rank, below⟩ := ranked
      exact (below a b ⟨e.2, Store.mem_parts_of_entriesAt listed, at'⟩).1

/-- What is given is read in, up to the marks of its not-a-numbers, and the answer is the option of
the name or what is given instead. -/
theorem getSetting_display (grounded : w.holding.Grounded)
    (named : w.named? on = .ok (.value (.bag kind a))) (name default : Value) :
    (w.getSetting on (.given name) (.given default)).display =
      (Bag.getSetting ⟨kind, w.store.optionsAt a⟩ (name.freshen w.next).1
        (default.freshen (name.freshen w.next).2).1).map fun v => .shown (.value v) := by
  have ranked := grounded.ranked
  obtain ⟨laid, new⟩ := readIn_lays w name
  obtain ⟨laid', new'⟩ := readIn_lays (w.readIn name).1 default
  have ranked' := (ranked.lays laid).lays laid'
  have first : ((w.readIn name).1.readIn default).1.store.read (w.readIn name).2 =
      (name.freshen w.next).1 :=
    (laid'.read (ranked.lays laid) fun b at' => (new b at').2).trans (ranked.read_alloc _)
  have second : ((w.readIn name).1.readIn default).1.store.read
      ((w.readIn name).1.readIn default).2 = (default.freshen (name.freshen w.next).2).1 :=
    (ranked.lays laid).read_alloc _
  have options := (laid.trans laid').optionsAt ranked (named_lt grounded named)
  rw [getSetting, onBag_of_named named]
  simp only [onHeld, held, after, first, second, options]
  cases answer : Bag.getSetting ⟨kind, w.store.optionsAt a⟩ (name.freshen w.next).1
      (default.freshen (name.freshen w.next).2).1 with
  | error e => rfl
  | ok v =>
      rw [Bag.eq_of_getSetting answer, ← options, ← second, ← read_option]
      exact copy_display ranked' (option_lt ranked' (fun b at' => (new' b at').2) _)

end Workspace

end ClientRegistry
