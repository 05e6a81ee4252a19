import ClientRegistry.Proofs.Outcome
import ClientRegistry.Settings.Bag

/-! What an edit can bring into a container. The parts of a dictionary or a list after a batch of
edits were there before, or come from the arguments or from what these hold. -/

namespace ClientRegistry

/-- The values that an edit brings. -/
def Edit.args {α : Type} : Edit α → List α
  | .call _ args => args
  | .stop _ => []

/-- What a part of the kind holds is of the kind too. -/
structure Child.Keeps {α : Type} (child : Child α) (Q : α → Prop) : Prop where
  items : ∀ x ys, Q x → child.items? x = some ys → ∀ y ∈ ys, Q y
  entries : ∀ x es, Q x → child.entries x = .ok es → ∀ k y, .ok (k, y) ∈ es → Q y
  null : Q child.null

variable {α : Type} {child : Child α} {Q R : α → Prop}

theorem Entries.put_values {es : List (Value × α)} {k : Value} {a : α} (old : ∀ e ∈ es, R e.2)
    (new : R a) : ∀ e ∈ Entries.put es k a, R e.2 := by
  induction es with
  | nil => exact List.forall_mem_singleton.mpr new
  | cons e rest ih =>
      rw [List.forall_mem_cons] at old
      simp only [Entries.put]
      split
      · exact List.forall_mem_cons.mpr ⟨new, old.2⟩
      · exact List.forall_mem_cons.mpr ⟨old.1, ih old.2⟩

theorem Entries.erase_values {es : List (Value × α)} {k : Value} (old : ∀ e ∈ es, R e.2) :
    ∀ e ∈ Entries.erase es k, R e.2 :=
  fun e member => old e (List.mem_filter.mp member).1

theorem Entries.ofList_values {es : List (Value × α)} (given : ∀ e ∈ es, R e.2) :
    ∀ e ∈ Entries.ofList es, R e.2 := by
  suffices gathered : ∀ fs : List (Value × α), (∀ e ∈ fs, R e.2) →
      ∀ e ∈ es.foldl (fun es e => Entries.put es e.1 e.2) fs, R e.2 from
    gathered [] (fun _ member => by cases member)
  induction es with
  | nil => exact fun fs old => old
  | cons e rest ih =>
      rw [List.forall_mem_cons] at given
      exact fun fs old => ih given.2 _ (Entries.put_values old given.1)

namespace Edit

theorem putAll_values {es : List (Value × α)} {ps : List (Except Fault (Value × α))}
    (old : ∀ e ∈ es, R e.2) (new : ∀ k y, .ok (k, y) ∈ ps → R y) :
    ∀ e ∈ (putAll es ps).1, R e.2 := by
  induction ps generalizing es with
  | nil => exact old
  | cons p rest ih =>
      cases p with
      | error e => exact old
      | ok p =>
          obtain ⟨k, y⟩ := p
          simp only [putAll]
          split
          · refine ih (Entries.put_values old (new k y List.mem_cons_self)) fun l z member => ?_
            exact new l z (List.mem_cons_of_mem _ member)
          · exact old

/-- What a method can make of the entries of a dictionary. -/
theorem onKey_cases {method : Method} {args : List α} {es fs : List (Value × α)}
    (h : onKey child method args es = .ok fs) :
    fs = es ∨ fs = [] ∨ (∃ k, fs = Entries.erase es k) ∨
      ∃ k y, (y ∈ args ∨ y = child.null) ∧ fs = Entries.put es k y := by
  simp only [onKey] at h
  split at h <;> try (cases h)
  case h_1 k v =>
    split at h <;> cases h
    exact .inr (.inr (.inr ⟨_, v, .inl (by simp), rfl⟩))
  case h_2 k =>
    split at h
    · split at h <;> cases h
      exact .inr (.inr (.inl ⟨_, rfl⟩))
    · cases h
  case h_3 k =>
    split at h
    · cases h
    · split at h
      · split at h <;> cases h
        exact .inr (.inr (.inl ⟨_, rfl⟩))
      · cases h
  case h_4 k v =>
    split at h
    · cases h
      exact .inl rfl
    · split at h <;> cases h
      exact .inr (.inr (.inl ⟨_, rfl⟩))
  case h_5 k =>
    split at h
    · cases h
      split
      · exact .inl rfl
      · exact .inr (.inr (.inr ⟨_, _, .inr rfl, rfl⟩))
    · cases h
  case h_6 k v =>
    split at h
    · cases h
      split
      · exact .inl rfl
      · exact .inr (.inr (.inr ⟨_, v, .inl (by simp), rfl⟩))
    · cases h
  case h_7 => exact .inl rfl
  case h_8 => exact .inr (.inl rfl)

theorem onDict_values (keeps : child.Keeps Q) (into : ∀ x, Q x → R x) {method : Method}
    {args : List α} {es : List (Value × α)} (given : ∀ x ∈ args, Q x) (old : ∀ e ∈ es, R e.2) :
    ∀ e ∈ (onDict child method args es).1, R e.2 := by
  simp only [onDict]
  split
  next d =>
    split
    next ps found =>
      exact putAll_values old fun k y member =>
        into y (keeps.entries d ps (given d (by simp)) found k y member)
    · exact old
  · cases changed : onKey child method args es with
    | error e => exact old
    | ok fs =>
        rcases onKey_cases changed with rfl | rfl | ⟨k, rfl⟩ | ⟨k, y, brought, rfl⟩
        · exact old
        · exact fun _ member => by cases member
        · exact Entries.erase_values old
        · refine Entries.put_values old (into y ?_)
          rcases brought with arg | rfl
          · exact given y arg
          · exact keeps.null

/-- Where the items of a list after a method come from. -/
theorem mem_onItems {method : Method} {args xs ys : List α} {y : α}
    (h : onItems child method args xs = .ok ys) (member : y ∈ ys) :
    y ∈ xs ∨ y ∈ args ∨ ∃ x ∈ args, ∃ zs, child.items? x = some zs ∧ y ∈ zs := by
  simp only [onItems] at h
  split at h <;> try (cases h)
  case h_1 x => exact (List.mem_append.mp member).imp_right .inl
  case h_2 x =>
    split at h
    next zs found =>
      cases h
      exact (List.mem_append.mp member).imp_right fun new => .inr ⟨x, by simp, zs, found, new⟩
    · cases h
  case h_3 i x =>
    obtain ⟨n, _, rfl⟩ := except_map_eq_ok.mp h
    rcases List.mem_append.mp member with before | after
    · exact .inl (List.mem_of_mem_take before)
    · rcases List.mem_cons.mp after with rfl | after
      · exact .inr (.inl (by simp))
      · exact .inl (List.mem_of_mem_drop after)
  case h_4 => exact .inl (List.mem_reverse.mp member)
  case h_5 => cases member
  case h_6 =>
    split at h <;> cases h
    exact .inl ((List.dropLast_sublist xs).subset member)
  case h_7 i =>
    obtain ⟨n, _, h⟩ := except_bind_eq_ok.mp h
    split at h <;> cases h
    exact .inl (List.mem_of_mem_eraseIdx member)
  case h_8 i x =>
    split at h
    · cases h
    · split at h <;> cases h
      rcases List.mem_or_eq_of_mem_set member with old | rfl
      · exact .inl old
      · exact .inr (.inl (by simp))
  case h_9 i =>
    split at h
    · cases h
    · split at h <;> cases h
      exact .inl (List.mem_of_mem_eraseIdx member)

theorem onList_values (keeps : child.Keeps Q) (into : ∀ x, Q x → R x) {method : Method}
    {args xs : List α} (given : ∀ x ∈ args, Q x) (old : ∀ x ∈ xs, R x) :
    ∀ y ∈ (onList child method args xs).1, R y := by
  simp only [onList]
  cases changed : onItems child method args xs with
  | error e => exact old
  | ok ys =>
      intro y member
      rcases mem_onItems changed member with there | arg | ⟨x, arg, zs, found, item⟩
      · exact old y there
      · exact into y (given y arg)
      · exact into y (keeps.items x zs (given x arg) found y item)

/-- What the calls of a batch keep, the batch keeps. -/
theorem run_induct {σ : Type} {I : σ → Prop} {step : Method → List α → σ → Edited σ}
    {edits : List (Edit α)}
    (kept : ∀ method args, .call method args ∈ edits → ∀ s, I s → I (step method args s).1) {s : σ}
    (h : I s) : I (run step edits s).1 := by
  induction edits generalizing s with
  | nil => exact h
  | cons e rest ih =>
      cases e with
      | stop reason => exact h
      | call method args =>
          have stepped := kept method args List.mem_cons_self s h
          simp only [run]
          cases done : step method args s with
          | mk s' fault =>
              rw [done] at stepped
              cases fault with
              | none =>
                  exact ih (fun m as listed => kept m as (List.mem_cons_of_mem _ listed)) stepped
              | some e => exact stepped

/-- What every method keeps, a batch keeps. -/
theorem run_keeps {σ : Type} {I : σ → Prop} {step : Method → List α → σ → Edited σ}
    (kept : ∀ method args s, (∀ x ∈ args, Q x) → I s → I (step method args s).1)
    {edits : List (Edit α)} (given : ∀ e ∈ edits, ∀ x ∈ e.args, Q x) {s : σ} (h : I s) :
    I (run step edits s).1 :=
  run_induct (fun method args listed s => kept method args s (given _ listed)) h

end Edit

/-- What a mapping holds becomes the values of its entries. -/
theorem Bag.entriesFrom_values (keeps : child.Keeps Q) {mapping : α} {es : List (Value × α)}
    (given : Q mapping) (h : entriesFrom child mapping = .ok es) : ∀ e ∈ es, Q e.2 := by
  simp only [entriesFrom] at h
  split at h
  · obtain ⟨ps, found, h⟩ := except_bind_eq_ok.mp h
    have gathered : ∀ e ∈ (Edit.putAll [] ps).1, Q e.2 :=
      Edit.putAll_values (fun _ member => by cases member) (keeps.entries mapping ps given found)
    split at h
    next options done =>
      cases h
      rwa [done] at gathered
    · cases h
  · cases h
    exact fun _ member => by cases member

/-! Two ways to see the parts of containers that agree on what an edit is given make the same edit
of it. -/

variable {child' : Child α}

/-- The parts of the kind are seen alike. -/
structure Child.Agrees (child child' : Child α) (Q : α → Prop) : Prop where
  view : ∀ x, Q x → child'.view x = child.view x
  items : ∀ x, Q x → child'.items? x = child.items? x
  entries : ∀ x, Q x → child'.entries x = child.entries x
  null : child'.null = child.null

namespace Edit

variable {method : Method} {args : List α}

theorem onKey_agrees (agrees : child.Agrees child' Q) (given : ∀ x ∈ args, Q x)
    (es : List (Value × α)) : onKey child' method args es = onKey child method args es := by
  match args with
  | [] => cases method <;> rfl
  | [k] =>
      have key := agrees.view k (given k (by simp))
      cases method <;> simp only [onKey, key, agrees.null]
  | [k, v] =>
      have key := agrees.view k (given k (by simp))
      cases method <;> simp only [onKey, key]
  | _ :: _ :: _ :: _ => cases method <;> rfl

theorem onDict_agrees (agrees : child.Agrees child' Q) (given : ∀ x ∈ args, Q x)
    (es : List (Value × α)) : onDict child' method args es = onDict child method args es := by
  simp only [onDict]
  split
  next d => rw [agrees.entries d (given d (by simp))]
  · rw [onKey_agrees agrees given]

theorem onItems_agrees (agrees : child.Agrees child' Q) (given : ∀ x ∈ args, Q x) (xs : List α) :
    onItems child' method args xs = onItems child method args xs := by
  match args with
  | [] => cases method <;> rfl
  | [a] =>
      have view := agrees.view a (given a (by simp))
      have items := agrees.items a (given a (by simp))
      cases method <;> simp only [onItems, view, items]
  | [a, b] =>
      have view := agrees.view a (given a (by simp))
      cases method <;> simp only [onItems, view]
  | _ :: _ :: _ :: _ => cases method <;> rfl

theorem onList_agrees (agrees : child.Agrees child' Q) (given : ∀ x ∈ args, Q x) (xs : List α) :
    onList child' method args xs = onList child method args xs := by
  rw [onList, onList, onItems_agrees agrees given]

/-- A batch whose calls are made alike is made alike. -/
theorem run_agrees {σ : Type} {step step' : Method → List α → σ → Edited σ}
    (same : ∀ method args s, (∀ x ∈ args, Q x) → step' method args s = step method args s)
    {edits : List (Edit α)} (given : ∀ e ∈ edits, ∀ x ∈ e.args, Q x) (s : σ) :
    run step' edits s = run step edits s := by
  induction edits generalizing s with
  | nil => rfl
  | cons e rest ih =>
      rw [List.forall_mem_cons] at given
      cases e with
      | stop reason => rfl
      | call method args =>
          simp only [run, same method args s given.1]
          split
          · exact ih given.2 _
          · rfl

end Edit

/-- The entries of a mapping of the kind are the same. -/
theorem Bag.entriesFrom_agrees (agrees : child.Agrees child' Q) {mapping : α} (given : Q mapping) :
    entriesFrom child' mapping = entriesFrom child mapping := by
  rw [entriesFrom, entriesFrom, agrees.view mapping given, agrees.entries mapping given]

end ClientRegistry
