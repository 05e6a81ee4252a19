import ClientRegistry.Proofs.Store.Reading
import ClientRegistry.Proofs.Value.Fresh
import ClientRegistry.Proofs.Workspace.Answers
import ClientRegistry.Proofs.Workspace.Moves

/-! Options by name. A bag that was made by a constructor or by the build of a draft answers for each
option of its dictionary, whatever happened before and since, unless the name is empty: any way but
the single setter can bring in an empty name, and the look-up refuses it. -/

namespace ClientRegistry

/-! Cells that are dictionaries. No move makes anything else of a dictionary, and a draft of a bag
holds its options in one. -/

namespace Store

variable {s : Store} {a b : Address} {c : Cell}

theorem lt_of_isDict (h : (s.cellAt a).isDict = true) : a < s.length := by
  refine Nat.lt_of_not_le fun outside => ?_
  rw [cellAt_of_length_le outside] at h
  cases h

theorem isDict_set (h : (s.cellAt b).isDict = true)
    (kind : (s.cellAt a).isDict = true → c.isDict = true) :
    (cellAt (s.set a c) b).isDict = true := by
  by_cases same : a = b
  · subst same
    rw [cellAt_set_self (lt_of_isDict h)]
    exact kind h
  · rw [cellAt_set_ne same]
    exact h

/-- A dictionary shows the options that are held in it. -/
theorem Ranked.read_of_isDict (h : s.Ranked) (dict : (s.cellAt a).isDict = true) :
    s.read (.cell a) = .dict (s.optionsAt a) := by
  rw [h.read_cell (lt_of_isDict dict), optionsAt_eq]
  cases kind : s.cellAt a with
  | dict es => rfl
  | _ =>
      rw [kind] at dict
      cases dict

end Store

namespace Holding

variable {rights : Rights} {σ τ υ : Holding}

/-- The dictionaries of the first holding are dictionaries of the second. -/
def KeepsDicts (σ τ : Holding) : Prop :=
  ∀ a, (σ.store.cellAt a).isDict = true → (τ.store.cellAt a).isDict = true

/-- The cells of drafts are dictionaries. -/
def Drafted (σ : Holding) : Prop := ∀ a, σ.drafts a → (σ.store.cellAt a).isDict = true

theorem keepsDicts_of_cellAt (same : ∀ a < σ.store.length, τ.store.cellAt a = σ.store.cellAt a) :
    σ.KeepsDicts τ :=
  fun a dict => (congrArg Cell.isDict (same a (Store.lt_of_isDict dict))).trans dict

theorem keepsDicts_move (m : Move rights σ τ) : σ.KeepsDicts τ := by
  cases m with
  | lay lays => exact keepsDicts_of_cellAt fun _ => lays.cellAt
  | gather held => exact keepsDicts_of_cellAt fun _ inside => Store.cellAt_append_left inside _
  | copy known copies => exact keepsDicts_of_cellAt fun _ => copies.cellAt
  | stow known => exact keepsDicts_of_cellAt fun _ => Store.copyEntries_cellAt
  | @amend a laid store held lays edits =>
      have laidOut : σ.KeepsDicts (σ.withStore laid) := keepsDicts_of_cellAt fun _ => lays.cellAt
      rcases edits with rfl | ⟨c, rfl, -, -, -, kind, -⟩
      · exact laidOut
      · exact fun b dict => Store.isDict_set (laidOut b dict) fun dict => kind.trans dict
  | put draft parts => exact fun b dict => Store.isDict_set dict fun _ => rfl
  | forget fewer fewer' => exact fun _ => id
  | release draft => exact fun _ => id
  | part held => exact fun _ => id
  | view held allowed => exact fun _ => id

theorem Drafted.move (drafted : σ.Drafted) (h : σ.Grounded) (m : Move rights σ τ) :
    τ.Drafted := by
  have keeps := keepsDicts_move m
  cases m with
  | forget fewer fewer' => exact fun a draft => drafted a (fewer' a draft)
  | release draft => exact fun a draft => drafted a draft.1
  | gather held =>
      rintro a (old | rfl)
      · exact keeps a (drafted a old)
      · exact congrArg Cell.isDict (Store.cellAt_concat _ _)
  | copy known copies =>
      rintro b (old | ⟨a, copy, draft⟩)
      · exact keeps b (drafted b old)
      · obtain ⟨copied, reached, -⟩ := h.copied_draft copies copy draft
        obtain ⟨-, rfl⟩ := copy
        exact (copies.twin_place reached copied).2.1.trans (drafted a draft)
  | stow known =>
      rintro a (old | rfl)
      · exact keeps a (drafted a old)
      · exact Store.copyEntries_isDict _ _
  | lay lays => exact fun a draft => keeps a (drafted a draft)
  | part held => exact fun a draft => keeps a (drafted a draft)
  | view held allowed => exact fun a draft => keeps a (drafted a draft)
  | amend held lays edits => exact fun a draft => keeps a (drafted a draft)
  | put draft parts => exact fun a draft => keeps a (drafted a draft)

theorem keepsDicts_moves (ms : Moves rights σ τ) : σ.KeepsDicts τ := by
  induction ms with
  | refl => exact fun _ => id
  | tail _ last ih => exact fun a dict => keepsDicts_move last a (ih a dict)

theorem Drafted.moves (drafted : σ.Drafted) (h : σ.Grounded) (ms : Moves rights σ τ) :
    τ.Drafted := by
  induction ms with
  | refl => exact drafted
  | tail before last ih => exact ih.move (h.moves before) last

end Holding

namespace Workspace

variable {w w' : Workspace} {o : Operand} {v : Value} {on : String} {kind : BagKind} {a : Address}

/-- What an operand stands for: a proper value, or what is held under a name. -/
inductive Stands (w : Workspace) : Operand → Value → Prop
  | given {v : Value} (proper : v.Proper) : Stands w (.given v) v
  | held {name : String} {x : Shared} (named : w.named? name = .ok (.value x)) :
      Stands w (.variable name) (w.store.read x)

/-- The second workspace has more cells than the first, and the same objects under the same names. -/
structure Grows (w w' : Workspace) : Prop where
  store : w.store.Lays w'.store
  objects : w'.objects = w.objects
  names : w'.names = w.names

theorem Grows.named? (h : w.Grows w') (name : String) : w'.named? name = w.named? name := by
  have handle : w'.handle? name = w.handle? name := by rw [handle?, handle?, h.names]
  have object : w'.object? = w.object? := funext fun i => by rw [object?, object?, h.objects]
  rw [Workspace.named?, Workspace.named?, handle, object]

theorem Grows.grounded (h : w.Grows w') (grounded : w.holding.Grounded) :
    w'.holding.Grounded := by
  have same : w'.holding = ⟨w'.store, w.holding.held, w.holding.drafts⟩ := by
    simp only [holding, h.objects]
  have laid : Holding.Move .all w.holding _ := .lay h.store
  rw [same]
  refine grounded.moves (.tail (.single laid) (.forget (fun x held => ?_) fun a => id))
  exact Holding.holds_of_held (.inl held)

theorem address_lt (grounded : w.holding.Grounded) {name : String} {x : Shared}
    (named : w.named? name = .ok (.value x)) : ∀ b, x.address? = some b → b < w.store.length := by
  obtain ⟨h, -, present⟩ := handle_of_named named
  exact fun b at' => (grounded.held x b
    ⟨_, List.mem_of_getElem? present, List.mem_singleton_self _⟩ at').1

theorem Stands.grows (stands : w.Stands o v) (grounded : w.holding.Grounded) (h : w.Grows w') :
    w'.Stands o v := by
  cases stands with
  | given proper => exact .given proper
  | held named =>
      rw [← h.store.read grounded.ranked (address_lt grounded named)]
      exact .held ((h.named? _).trans named)

/-- An operand is held as something that reads as what it stands for. -/
theorem Stands.exists_held (stands : w.Stands o v) (grounded : w.holding.Grounded) :
    ∃ w' x, w.held o = .ok (w', x) ∧ w.Grows w' ∧ w'.store.read x = v ∧
      ∀ b, x.address? = some b → b < w'.store.length := by
  cases stands with
  | given proper =>
      obtain ⟨laid, new⟩ := readIn_lays w v
      refine ⟨_, _, rfl, ⟨laid, rfl, rfl⟩, ?_, fun b at' => (new b at').2⟩
      exact (grounded.ranked.read_alloc _).trans (congrArg Prod.fst (proper.freshen_eq w.next))
  | @held name x named =>
      refine ⟨w, x, ?_, ⟨.refl _, rfl, rfl⟩, rfl, address_lt grounded named⟩
      simp only [Workspace.held, named]

/-- The answer is the option of the name, or the default. -/
theorem getSetting_stands (grounded : w.holding.Grounded)
    (named : w.named? on = .ok (.value (.bag kind a))) {name default : Operand} {n d : Value}
    (stands : w.Stands name n) (stands' : w.Stands default d) :
    (w.getSetting on name default).display =
      (Bag.getSetting ⟨kind, w.store.optionsAt a⟩ n d).map fun v => .shown (.value v) := by
  obtain ⟨w₁, x, held, grows, read, inside⟩ := stands.exists_held grounded
  have grounded₁ := grows.grounded grounded
  obtain ⟨w₂, y, held', grows', read', inside'⟩ :=
    (stands'.grows grounded grows).exists_held grounded₁
  have ranked := (grows'.grounded grounded₁).ranked
  have first : w₂.store.read x = n := (grows'.store.read grounded₁.ranked inside).trans read
  have options : w₂.store.optionsAt a = w.store.optionsAt a :=
    (grows.store.trans grows'.store).optionsAt grounded.ranked (named_lt grounded named)
  rw [getSetting, onBag_of_named named]
  simp only [onHeld, held, held', after, first, read', options]
  cases answer : Bag.getSetting ⟨kind, w.store.optionsAt a⟩ n d with
  | error e => rfl
  | ok v =>
      rw [Bag.eq_of_getSetting answer, ← options, ← read', ← read_option]
      exact copy_display ranked (option_lt ranked inside' _)

/-- The actions that make bags: those of the constructors, and builds. -/
inductive Action.Makes : Action → Prop
  | bag (kind : BagKind) (mapping : Operand) : Makes (.bag kind mapping)
  | build (on : String) : Makes (.build on)

/-- A step of the program made a bag with the cell. -/
def Made (steps : List Step) (a : Address) : Prop :=
  ∃ before step after h kind, steps = before ++ step :: after ∧ step.action.Makes ∧
    ((empty.reached before).perform step.action).object = some h ∧
    ((empty.reached before).perform step.action).workspace.objects[h]? =
      some (.value (.bag kind a))

theorem reached_append (w : Workspace) (before after : List Step) :
    w.reached (before ++ after) = (w.reached before).reached after := by
  induction before generalizing w with
  | nil => rfl
  | cons step rest ih => exact ih _

theorem empty_drafted : empty.holding.Drafted := by
  rintro a ⟨o, present, -⟩
  cases present

theorem reached_drafted (grounded : w.holding.Grounded) (drafted : w.holding.Drafted)
    (steps : List Step) : (w.reached steps).holding.Drafted :=
  drafted.moves grounded (reached_moves grounded steps).1

/-- A new object is the last one. -/
theorem ofNew_insert_eq (w : Workspace) (o : Object) :
    Turn.ofNew (w.insert o) =
      ⟨(w.insert o).1, .ok (.shown ((w.insert o).1.shown o)), some w.objects.length, []⟩ := by
  have found : (w.insert o).1.object? (w.insert o).2 = .ok o := by
    simp only [insert, object?, List.getElem?_concat_length]
  rw [Turn.ofNew, Turn.ofObject, found]
  rfl

theorem isDict_of_ofNew {b : Address} {h : Handle}
    (dict : (w.store.cellAt b).isDict = true) {kind' : BagKind}
    (object : (Turn.ofNew (w.insert (.value (.bag kind' b)))).object = some h)
    (present : (Turn.ofNew (w.insert (.value (.bag kind' b)))).workspace.objects[h]? =
      some (.value (.bag kind a))) :
    ((Turn.ofNew (w.insert (.value (.bag kind' b)))).workspace.store.cellAt a).isDict = true := by
  rw [ofNew_insert_eq] at object present ⊢
  cases object
  simp only [insert, List.getElem?_concat_length, Option.some.injEq, Object.value.injEq,
    Shared.bag.injEq] at present
  exact present.2 ▸ dict

theorem bag_isDict {mapping : Operand} {kind' : BagKind} {h : Handle}
    (object : (w.bag kind' mapping).object = some h)
    (present : (w.bag kind' mapping).workspace.objects[h]? = some (.value (.bag kind a))) :
    ((w.bag kind' mapping).workspace.store.cellAt a).isDict = true := by
  simp only [bag, onHeld] at object present ⊢
  cases held : w.held mapping with
  | error e => simp [held, after, Turn.fail] at object
  | ok p =>
      simp only [held, after, copiedOptions] at object present ⊢
      cases entries : Bag.entriesFrom p.1.store.child p.2 with
      | error e => simp [entries, Except.map, Turn.fail] at object
      | ok es =>
          simp only [entries, Except.map] at object present ⊢
          exact isDict_of_ofNew (Store.copyEntries_isDict _ _) object present

theorem build_isDict (drafted : w.holding.Drafted) {h : Handle}
    (object : (w.build on).object = some h)
    (present : (w.build on).workspace.objects[h]? = some (.value (.bag kind a))) :
    ((w.build on).workspace.store.cellAt a).isDict = true := by
  cases found : w.handle? on with
  | error e => simp [build, onObject, found, after, Turn.fail] at object
  | ok i =>
      cases there : w.objects[i]? with
      | none => simp [build, onObject, found, object?, there, after, Turn.fail] at object
      | some o =>
          rw [build, onObject_of_handle found there] at object present ⊢
          cases o with
          | settingsDraft kind' b =>
              have dict : (w.store.cellAt b).isDict = true :=
                drafted b ⟨_, List.mem_of_getElem? there, rfl⟩
              exact isDict_of_ofNew (Store.copyCell_isDict (Store.lt_of_isDict dict) dict) object
                present
          | draft d =>
              cases built : (d.current w.store).build.result with
              | error e => simp [Turn.ofOutcome, built, Turn.failLogged] at object
              | ok c =>
                  simp only [Turn.ofOutcome, built, insertBuilt, Turn.ofObject, object?, insert,
                    List.getElem?_concat_length] at object present
                  cases object
                  simp at present
          | _ => simp [Turn.fail] at object

/-- A bag that was made keeps its options in a dictionary. -/
theorem Made.isDict {steps : List Step} (made : Made steps a) :
    ((empty.reached steps).store.cellAt a).isDict = true := by
  obtain ⟨before, step, after, h, kind, rfl, makes, object, present⟩ := made
  have grounded := reached_grounded empty_grounded before
  have drafted := reached_drafted empty_grounded empty_drafted before
  have dict : (((empty.reached before).perform step.action).workspace.store.cellAt a).isDict =
      true := by
    cases step with
    | mk action name =>
        cases makes with
        | bag kind mapping => exact bag_isDict object present
        | build on => exact build_isDict drafted object present
  have grounded' : ((empty.reached before).reached [step]).holding.Grounded :=
    reached_grounded grounded [step]
  rw [reached_append]
  refine Holding.keepsDicts_moves (reached_moves grounded' after).1 a ?_
  rw [reached, reached, Turn.named_holding]
  exact dict

theorem getSetting_text {b : Bag} {n : String} (d : Value) (present : n ≠ "") :
    b.getSetting (.text n) d = .ok ((Entries.find? b.options (.text n)).getD d) := by
  have named : (Value.text n).truthy = true := by simp [Value.truthy, present]
  simp [Bag.getSetting, named, Value.hashable]

/-- Every option in the dictionary of a bag is found under its name, with any default, and every
other name yields the default; only the empty name is refused, be there an option of that name or
not. -/
theorem options_found {steps : List Step} (made : Made steps a)
    (named : (empty.reached steps).named? on = .ok (.value (.bag kind a))) :
    ∃ es, ((empty.reached steps).toDict on).display = .ok (.shown (.value (.dict es))) ∧
      ∀ (n : String) (name default : Operand) (d : Value),
        (empty.reached steps).Stands name (.text n) → (empty.reached steps).Stands default d →
        let answer := ((empty.reached steps).getSetting on name default).display
        (n ≠ "" → (∀ v, Entries.find? es (.text n) = some v → answer = .ok (.shown (.value v))) ∧
          (Entries.find? es (.text n) = none → answer = .ok (.shown (.value d)))) ∧
        (n = "" → answer = .error (.emptyArgument "name")) := by
  have grounded := reached_grounded empty_grounded steps
  have read := grounded.ranked.read_of_isDict made.isDict
  refine ⟨(empty.reached steps).store.optionsAt a, ?_, fun n name default d stands stands' => ?_⟩
  · rw [toDict_display grounded named]
    exact congrArg (fun v => Except.ok (Display.shown (.value v))) read
  · rw [getSetting_stands grounded named stands stands']
    refine ⟨fun present => ⟨fun v found => ?_, fun absent => ?_⟩, fun empty => ?_⟩
    · rw [getSetting_text d present, found]
      rfl
    · rw [getSetting_text d present, absent]
      rfl
    · rw [empty]
      rfl

/-- A bag from a draft, with an option that was set and one that a callback added. -/
def assembled : List Step :=
  [⟨.bagDraft .client, some "draft"⟩,
    ⟨.setting "draft" (.given (.text "pkce")) (.given (.list [.bool true])), none⟩,
    ⟨.settings "draft" [.call .setItem [.text "", .int 1]], none⟩,
    ⟨.build "draft", some "bag"⟩]

theorem assembled_options_found : Made assembled 6 ∧
    (empty.reached assembled).named? "bag" = .ok (.value (.bag .client 6)) ∧
    ((empty.reached assembled).toDict "bag").display = .ok (.shown (.value
      (.dict [(.text "pkce", .list [.bool true]), (.text "", .int 1)]))) ∧
    ((empty.reached assembled).getSetting "bag" (.given (.text "pkce")) (.given .null)).display =
      .ok (.shown (.value (.list [.bool true]))) ∧
    ((empty.reached assembled).getSetting "bag" (.given (.text "par")) (.given (.int 0))).display =
      .ok (.shown (.value (.int 0))) := by
  have made : Made assembled 6 := by
    refine ⟨assembled.take 3, ⟨.build "draft", some "bag"⟩, [], 1, .client, rfl, .build _, ?_, ?_⟩
    · with_unfolding_all rfl
    · with_unfolding_all rfl
  have named : (empty.reached assembled).named? "bag" = .ok (.value (.bag .client 6)) := by
    with_unfolding_all rfl
  have all : ((empty.reached assembled).toDict "bag").display = .ok (.shown (.value
      (.dict [(.text "pkce", .list [.bool true]), (.text "", .int 1)]))) := by
    with_unfolding_all rfl
  obtain ⟨es, shown, answers⟩ := options_found made named
  have same := Except.ok.inj (shown.symm.trans all)
  simp only [Display.shown.injEq, Shown.value.injEq, Value.dict.injEq] at same
  subst same
  have pkce := answers "pkce" _ _ _ (.given (.text _)) (.given .null)
  have par := answers "par" _ _ _ (.given (.text _)) (.given (.int 0))
  exact ⟨made, named, all, (pkce.1 (by decide)).1 _ (by simp [Entries.find?]),
    (par.1 (by decide)).2 (by simp [Entries.find?])⟩

/-- A bag with an option without a name. -/
def nameless : List Step :=
  [⟨.bag .client (.given (.dict [(.text "", .int 1)])), some "bag"⟩]

/-- The option is in the dictionary, and yet the look-up refuses its name. -/
theorem nameless_option_refused :
    ((empty.reached nameless).toDict "bag").display =
        .ok (.shown (.value (.dict [(.text "", .int 1)]))) ∧
      ((empty.reached nameless).getSetting "bag" (.given (.text "")) (.given .null)).display =
        .error (.emptyArgument "name") := by
  constructor
  · with_unfolding_all rfl
  · with_unfolding_all rfl

end Workspace

end ClientRegistry
