import ClientRegistry.Proofs.Client.Masked
import ClientRegistry.Proofs.Store.Veiled
import ClientRegistry.Proofs.Workspace.Exported

/-! Two workspaces that differ in secrets only, and what they go on with. Names, handles and
addresses are the same in both, so the objects of the one are those of the other but for the secrets
in them, and turns that start alike end alike. -/

namespace ClientRegistry.Workspace

variable {hidden hidden₁ : Address → Prop} {s s' t : Store} {w w' w₁ w₁' : Workspace}
  {o o' : Object} {x : Shared} {a : Address} {v v' : Value} {fields : HeldFields}

/-- All fields but the secret are clear, and so may the secret be. -/
def HeldFields.Veiled (hidden : Address → Prop) (s : Store) (fields : HeldFields) : Prop :=
  ∀ f ∈ fields, s.Clear hidden f.2 ∨ f.1 = "client_secret" ∧ ∃ a, f.2 = .cell a ∧ hidden a

/-- The objects are of one kind and hold the same, but for the secrets. -/
inductive Object.Alike (hidden : Address → Prop) (s : Store) : Object → Object → Prop where
  | value {x : Shared} (clear : s.Clear hidden x) : Alike hidden s (.value x) (.value x)
  | draft {d : HeldDraft} {e : Draft} (masks : d.draft.Masks e)
      (client : s.Clear hidden d.clientSettings) (token : s.Clear hidden d.tokenSettings) :
      Alike hidden s (.draft d) (.draft { d with draft := e })
  | client {c : HeldClient} {e : Client} (masks : c.client.Masks e)
      (client : s.Clear hidden (.cell c.clientSettings))
      (token : s.Clear hidden (.cell c.tokenSettings)) :
      Alike hidden s (.client c) (.client { c with client := e })
  | settingsDraft (kind : BagKind) {a : Address} (clear : s.Clear hidden (.cell a)) :
      Alike hidden s (.settingsDraft kind a) (.settingsDraft kind a)
  | snapshot {fields : HeldFields} (names : fields.map (·.1) = Snapshot.fieldNames)
      (veiled : fields.Veiled hidden s) : Alike hidden s (.snapshot fields) (.snapshot fields)
  | registry (r : Registry Listed) : Alike hidden s (.registry r) (.registry r)

/-- The workspaces are the same but for the secrets that are hidden in their cells and objects. -/
structure Alike (hidden : Address → Prop) (w w' : Workspace) : Prop where
  store : w.store.Veiled hidden w'.store
  objects : List.Forall₂ (Object.Alike hidden w.store) w.objects w'.objects
  names : w'.names = w.names
  next : w'.next = w.next

/-- What two alike workspaces have come to. What was clear in them still is. -/
structure Since (hidden : Address → Prop) (w : Workspace) (hidden₁ : Address → Prop)
    (w₁ w₁' : Workspace) : Prop where
  alike : w₁.Alike hidden₁ w₁'
  later : Store.Later hidden w.store hidden₁ w₁.store
  ranked : w₁.store.Ranked

/-- What is shown is the same but for the secret. -/
inductive Shown.Masks : Shown → Shown → Prop where
  | refl (s : Shown) : Masks s s
  | draft {d d' : Draft} (masks : d.Masks d') : Masks (.draft d) (.draft d')
  | client {c c' : Client} (masks : c.Masks c') : Masks (.client c) (.client c')
  | snapshot {named named' : List (String × Value)} (masks : List.Forall₂ MasksField named named') :
      Masks (.snapshot named) (.snapshot named')

inductive Display.Masks : Display → Display → Prop where
  | shown {s s' : Shown} (masks : s.Masks s') : Masks (.shown s) (.shown s')

/-- The turns log the same records, fail for the same reason or show the same but for the secret,
and leave workspaces that are alike. -/
structure Turn.Alike (t t' : Turn) : Prop where
  workspace : ∃ hidden, t.workspace.Alike hidden t'.workspace
  display : Except.Rel Display.Masks t.display t'.display
  object : t'.object = t.object
  log : t'.log = t.log

theorem forall₂_getElem? {α β : Type} {R : α → β → Prop} {xs : List α} {ys : List β}
    (h : List.Forall₂ R xs ys) (i : Nat) : Option.Rel R xs[i]? ys[i]? := by
  induction h generalizing i with
  | nil => exact .none
  | cons first _ ih =>
      cases i with
      | zero => exact .some first
      | succ i => exact ih i

theorem forall₂_set {α β : Type} {R : α → β → Prop} {xs : List α} {ys : List β} {a : α} {b : β}
    (h : List.Forall₂ R xs ys) (related : R a b) (i : Nat) :
    List.Forall₂ R (xs.set i a) (ys.set i b) := by
  induction h generalizing i with
  | nil => exact .nil
  | cons first rest ih =>
      cases i with
      | zero => exact .cons related rest
      | succ i => exact .cons first (ih i)

/-- A hidden cell reads as the secret in it. -/
theorem read_hidden (h : s.Veiled hidden s') (veiled : hidden a) :
    (s.read (.cell a)).IsSecret ∧ (s'.read (.cell a)).IsSecret := by
  have inside := h.lt veiled
  obtain ⟨v, v', secret, secret', leaf, leaf'⟩ := h.secrets a veiled
  obtain ⟨n, size⟩ := Nat.exists_eq_succ_of_ne_zero (Nat.ne_zero_of_lt inside)
  rw [Store.read, Store.read, h.length_eq, size, Store.readWithin_cell inside,
    Store.readWithin_cell (h.length_eq ▸ inside), leaf, leaf']
  exact ⟨secret, secret'⟩

namespace HeldFields

theorem Veiled.later (h : fields.Veiled hidden s) (later : Store.Later hidden s hidden₁ t) :
    fields.Veiled hidden₁ t := fun f member =>
  (h f member).imp (fun clear => clear.later later) fun ⟨own, a, held, veiled⟩ =>
    ⟨own, a, held, later.kept a veiled⟩

theorem Veiled.clear (h : fields.Veiled hidden s) {name : String} (other : name ≠ "client_secret")
    (found : fields.field? name = some x) : s.Clear hidden x := by
  obtain ⟨f, present, rfl⟩ := Option.map_eq_some_iff.mp found
  have own : f.1 = name := by simpa using List.find?_some present
  exact (h f (List.mem_of_find?_eq_some present)).resolve_right fun secret => other (own ▸ secret.1)

theorem Veiled.bagCell (h : fields.Veiled hidden s) {name : String} (other : name ≠ "client_secret")
    (found : bagCell? fields name = some a) : s.Clear hidden (.cell a) := by
  simp only [bagCell?] at found
  split at found
  next kind b there =>
    cases found
    exact (Store.clear_bag kind).mp (h.clear other there)
  · cases found

theorem Veiled.put (h : fields.Veiled hidden s) {name : String} (clear : s.Clear hidden x) :
    (fields.put name x).Veiled hidden s := by
  intro f member
  obtain ⟨g, listed, rfl⟩ := List.mem_map.mp member
  split
  · exact .inl clear
  · exact h g listed

theorem current_masks (h : s.Veiled hidden s') (veiled : fields.Veiled hidden s) :
    List.Forall₂ MasksField (fields.current s) (fields.current s') := by
  rw [current, current, List.forall₂_map_left_iff, List.forall₂_map_right_iff]
  refine List.forall₂_same.mpr fun f member => ⟨rfl, ?_⟩
  rcases veiled f member with clear | ⟨own, a, held, secret⟩
  · exact .inl (h.read clear)
  · rw [held]
    exact .inr ⟨own, read_hidden h secret⟩

end HeldFields

namespace Object

theorem Alike.later (h : Object.Alike hidden s o o') (later : Store.Later hidden s hidden₁ t) :
    Object.Alike hidden₁ t o o' := by
  cases h with
  | value clear => exact .value (clear.later later)
  | draft masks client token => exact .draft masks (client.later later) (token.later later)
  | client masks client token => exact .client masks (client.later later) (token.later later)
  | settingsDraft kind clear => exact .settingsDraft kind (clear.later later)
  | snapshot names veiled => exact .snapshot names (veiled.later later)
  | registry r => exact .registry r

end Object

theorem HeldDraft.current_masks {d : HeldDraft} {e : Draft} (h : s.Veiled hidden s')
    (masks : d.draft.Masks e) (client : s.Clear hidden d.clientSettings)
    (token : s.Clear hidden d.tokenSettings) :
    (d.current s).Masks (HeldDraft.current s' { d with draft := e }) := by
  obtain ⟨v, masks, rfl⟩ := masks
  refine ⟨v, masks, ?_⟩
  simp only [current, h.read client, h.read token]
  rfl

theorem HeldClient.current_masks {c : HeldClient} {e : Client} (h : s.Veiled hidden s')
    (masks : c.client.Masks e) (client : s.Clear hidden (.cell c.clientSettings))
    (token : s.Clear hidden (.cell c.tokenSettings)) :
    (c.current s).Masks (HeldClient.current s' { c with client := e }) := by
  obtain ⟨v, masks, rfl⟩ := masks
  refine ⟨v, masks, ?_⟩
  simp only [current, h.optionsAt (client _ rfl).2, h.optionsAt (token _ rfl).2]
  rfl

namespace Alike

theorem empty : empty.Alike (fun _ => False) Workspace.empty where
  store := ⟨rfl, fun _ _ => rfl, fun _ veiled => veiled.elim, fun _ _ member => by cases member⟩
  objects := .nil
  names := rfl
  next := rfl

theorem since (h : w.Alike hidden w') (ranked : w.store.Ranked) : Since hidden w hidden w w' :=
  ⟨h, Store.later_of_length_le (Nat.le_refl _), ranked⟩

/-- What is laid out, copied or edited leaves the objects alone. -/
theorem laid (h : w.Alike hidden w') (store : w₁.store.Veiled hidden₁ w₁'.store)
    (later : Store.Later hidden w.store hidden₁ w₁.store) (objects : w₁.objects = w.objects)
    (objects' : w₁'.objects = w'.objects) (names : w₁.names = w.names)
    (names' : w₁'.names = w'.names) (next : w₁'.next = w₁.next) : w₁.Alike hidden₁ w₁' where
  store := store
  objects := by
    rw [objects, objects']
    exact h.objects.imp fun _ _ alike => alike.later later
  names := by rw [names, names', h.names]
  next := next

theorem shown_masks (h : w.Alike hidden w') (alike : Object.Alike hidden w.store o o') :
    (w.shown o).Masks (w'.shown o') := by
  cases alike with
  | value clear =>
      rw [shown, shown, h.store.read clear]
      exact .refl _
  | draft masks client token => exact .draft (HeldDraft.current_masks h.store masks client token)
  | client masks client token => exact .client (HeldClient.current_masks h.store masks client token)
  | settingsDraft kind clear =>
      rw [shown, shown, h.store.optionsAt (clear _ rfl).2]
      exact .refl _
  | snapshot names veiled => exact .snapshot (HeldFields.current_masks h.store veiled)
  | registry r => exact .refl _

/-- What is printed shows no secret. -/
theorem printedObject_eq (h : w.Alike hidden w') (alike : Object.Alike hidden w.store o o') :
    w'.printedObject o' = w.printedObject o := by
  cases alike with
  | value clear => simp only [printedObject, h.store.read clear]
  | client masks client token =>
      obtain ⟨v, -, same⟩ := HeldClient.current_masks h.store masks client token
      simp only [printedObject, same]
      rfl
  | snapshot names veiled =>
      have masks := HeldFields.current_masks h.store veiled
      simp only [printedObject, Snapshot.isOrdered_masks masks, Snapshot.printedNamed_masks masks]
  | _ => rfl

theorem object? (h : w.Alike hidden w') (i : Handle) :
    Except.Rel (Object.Alike hidden w.store) (w.object? i) (w'.object? i) := by
  have there := forall₂_getElem? h.objects i
  simp only [Workspace.object?]
  generalize w.objects[i]? = x at there
  generalize w'.objects[i]? = y at there
  cases there with
  | none => exact .error _
  | some alike => exact .ok alike

theorem handle?_eq (h : w.Alike hidden w') (name : String) : w'.handle? name = w.handle? name := by
  simp only [handle?, h.names]

theorem insert (h : w.Alike hidden w') (alike : Object.Alike hidden w.store o o') :
    (w.insert o).1.Alike hidden (w'.insert o').1 where
  store := h.store
  objects := List.rel_append h.objects (.cons alike .nil)
  names := h.names
  next := h.next

theorem replace (h : w.Alike hidden w') (i : Handle) (alike : Object.Alike hidden w.store o o') :
    (w.replace i o).Alike hidden (w'.replace i o') where
  store := h.store
  objects := forall₂_set h.objects alike i
  names := h.names
  next := h.next

theorem bind (h : w.Alike hidden w') (name : String) (i : Handle) :
    (w.bind name i).Alike hidden (w'.bind name i) where
  store := h.store
  objects := h.objects
  names := congrArg ((name, i) :: ·) h.names
  next := h.next

theorem fail (h : w.Alike hidden w') (e : Fault) (log : List LogRecord) :
    (Turn.failLogged w e log).Alike (Turn.failLogged w' e log) :=
  ⟨⟨hidden, h⟩, .error e, rfl, rfl⟩

theorem ofResult (h : w.Alike hidden w') {a b : Shown} (masks : a.Masks b) :
    (Turn.ofResult w a).Alike (Turn.ofResult w' b) :=
  ⟨⟨hidden, h⟩, .ok (.shown masks), rfl, rfl⟩

theorem ofObject (h : w.Alike hidden w') (i : Handle) (log : List LogRecord) :
    (Turn.ofObject w i log).Alike (Turn.ofObject w' i log) := by
  have there := h.object? i
  simp only [Turn.ofObject]
  generalize w.object? i = x at there ⊢
  generalize w'.object? i = y at there ⊢
  cases there with
  | error e => exact h.fail e log
  | ok alike => exact ⟨⟨hidden, h⟩, .ok (.shown (h.shown_masks alike)), rfl, rfl⟩

theorem ofInserted (h : w.Alike hidden w') (alike : Object.Alike hidden w.store o o')
    (log : List LogRecord) : (Turn.ofObject (w.insert o).1 (w.insert o).2 log).Alike
      (Turn.ofObject (w'.insert o').1 (w'.insert o').2 log) := by
  have last : (w'.insert o').2 = (w.insert o).2 := h.objects.length_eq.symm
  rw [last]
  exact (h.insert alike).ofObject _ log

theorem ofEdited (h : w.Alike hidden w') (i : Handle) (fault : Option Fault) :
    (Turn.ofEdited w i fault).Alike (Turn.ofEdited w' i fault) := by
  cases fault with
  | none => exact h.ofObject i []
  | some e => exact h.fail e []

theorem after {α β : Type} {R : α → β → Prop} {r : Except Fault α} {r' : Except Fault β}
    {f : α → Turn} {f' : β → Turn} (h : w.Alike hidden w') (rel : Except.Rel R r r')
    (next : ∀ a b, R a b → (f a).Alike (f' b)) : (w.after r f).Alike (w'.after r' f') := by
  cases rel with
  | ok related => exact next _ _ related
  | error e => exact h.fail e []

/-- Goes on with the same result. -/
theorem after_same {α : Type} {r : Except Fault α} {f f' : α → Turn} (h : w.Alike hidden w')
    (next : ∀ a, (f a).Alike (f' a)) : (w.after r f).Alike (w'.after r f') := by
  cases r with
  | ok a => exact next a
  | error e => exact h.fail e []

theorem onObject {name : String} {f f' : Handle → Object → Turn} (h : w.Alike hidden w')
    (next : ∀ i o o', Object.Alike hidden w.store o o' → (f i o).Alike (f' i o')) :
    (w.onObject name f).Alike (w'.onObject name f') := by
  rw [Workspace.onObject, Workspace.onObject, h.handle?_eq]
  exact h.after_same fun i => h.after (h.object? i) (next i)

theorem onDraft {name : String} {f f' : Handle → HeldDraft → Turn} (h : w.Alike hidden w')
    (next : ∀ i (d : HeldDraft) e, d.draft.Masks e → w.store.Clear hidden d.clientSettings →
      w.store.Clear hidden d.tokenSettings → (f i d).Alike (f' i { d with draft := e })) :
    (w.onDraft name f).Alike (w'.onDraft name f') := by
  refine h.onObject fun i o o' alike => ?_
  cases alike with
  | draft masks client token => exact next i _ _ masks client token
  | _ => exact h.fail _ []

theorem onClient {name : String} {f f' : HeldClient → Turn} (h : w.Alike hidden w')
    (next : ∀ (c : HeldClient) e, c.client.Masks e → w.store.Clear hidden (.cell c.clientSettings) →
      w.store.Clear hidden (.cell c.tokenSettings) → (f c).Alike (f' { c with client := e })) :
    (w.onClient name f).Alike (w'.onClient name f') := by
  refine h.onObject fun i o o' alike => ?_
  cases alike with
  | client masks client token => exact next _ _ masks client token
  | _ => exact h.fail _ []

theorem onSettingsDraft {name : String} {f f' : Handle → BagKind → Address → Turn}
    (h : w.Alike hidden w')
    (next : ∀ i kind a, w.store.Clear hidden (.cell a) → (f i kind a).Alike (f' i kind a)) :
    (w.onSettingsDraft name f).Alike (w'.onSettingsDraft name f') := by
  refine h.onObject fun i o o' alike => ?_
  cases alike with
  | settingsDraft kind clear => exact next i kind _ clear
  | _ => exact h.fail _ []

theorem onBag {name : String} {f f' : BagKind → Address → Turn} (h : w.Alike hidden w')
    (next : ∀ kind a, w.store.Clear hidden (.cell a) → (f kind a).Alike (f' kind a)) :
    (w.onBag name f).Alike (w'.onBag name f') := by
  refine h.onObject fun i o o' alike => ?_
  cases alike with
  | @value x clear =>
      cases x with
      | bag kind a => exact next kind a fun b at' => clear b at'
      | _ => exact h.fail _ []
  | _ => exact h.fail _ []

theorem onRegistry {name : String} {f f' : Handle → Registry Listed → Turn} (h : w.Alike hidden w')
    (next : ∀ i r, (f i r).Alike (f' i r)) :
    (w.onRegistry name f).Alike (w'.onRegistry name f') := by
  refine h.onObject fun i o o' alike => ?_
  cases alike with
  | registry r => exact next i r
  | _ => exact h.fail _ []

theorem onSnapshot {name : String} {f f' : HeldFields → Turn} (h : w.Alike hidden w')
    (next : ∀ fields : HeldFields, fields.map (·.1) = Snapshot.fieldNames →
      fields.Veiled hidden w.store → (f fields).Alike (f' fields)) :
    (w.onSnapshot name f).Alike (w'.onSnapshot name f') := by
  refine h.onObject fun i o o' alike => ?_
  cases alike with
  | snapshot names veiled => exact next _ names veiled
  | _ => exact h.fail _ []

end Alike

namespace Since

theorem trans {hidden₂ : Address → Prop} {w₂ w₂' : Workspace}
    (first : Since hidden w hidden₁ w₁ w₁') (second : Since hidden₁ w₁ hidden₂ w₂ w₂') :
    Since hidden w hidden₂ w₂ w₂' :=
  ⟨second.alike, first.later.trans second.later, second.ranked⟩

end Since

/-- Two secrets that are given in place. -/
def Operand.Secrets (x x' : Operand) : Prop :=
  ∃ v v' : Value, v.IsSecret ∧ v'.IsSecret ∧ x = .given v ∧ x' = .given v'

/-- The same operand under the same name, or two secrets under the name of the secret. -/
def VariesField (f f' : String × Operand) : Prop :=
  f'.1 = f.1 ∧ (f'.2 = f.2 ∨ f.1 = "client_secret" ∧ f.2.Secrets f'.2)

/-- A secret is laid out in one cell. -/
theorem alloc_secret (s : Store) (secret : v.IsSecret) :
    s.alloc v = (s ++ [.leaf v], .cell s.length) := by
  obtain ⟨o, rfl⟩ := Snapshot.isSecret_iff.mp secret
  cases o <;> rfl

/-- A secret has no marks to make new. -/
theorem readIn_secret (w : Workspace) (secret : v.IsSecret) :
    w.readIn v = ({ w with store := (w.store.alloc v).1 }, (w.store.alloc v).2) := by
  obtain ⟨o, rfl⟩ := Snapshot.isSecret_iff.mp secret
  cases o <;> rfl

namespace Alike

variable (h : w.Alike hidden w') (ranked : w.store.Ranked)

include h ranked

theorem readIn (v : Value) :
    Since hidden w hidden (w.readIn v).1 (w'.readIn v).1 ∧ (w'.readIn v).2 = (w.readIn v).2 ∧
      (w.readIn v).1.store.Clear hidden (w.readIn v).2 := by
  obtain ⟨lays, -⟩ := readIn_lays w v
  obtain ⟨veiled, held, clear⟩ := h.store.alloc (v.freshen w.next).1
  have later : Store.Later hidden w.store hidden (w.readIn v).1.store :=
    Store.later_of_length_le lays.length_le
  simp only [Workspace.readIn, h.next]
  exact ⟨⟨h.laid veiled later rfl rfl rfl rfl rfl, later, ranked.lays lays⟩, held, clear⟩

theorem readInAll (vs : List Value) :
    Since hidden w hidden (w.readInAll vs).1 (w'.readInAll vs).1 ∧
      (w'.readInAll vs).2 = (w.readInAll vs).2 ∧
      ∀ x ∈ (w.readInAll vs).2, (w.readInAll vs).1.store.Clear hidden x := by
  induction vs generalizing w w' with
  | nil => exact ⟨h.since ranked, rfl, fun _ member => by cases member⟩
  | cons v rest ih =>
      obtain ⟨since, same, clear⟩ := h.readIn ranked v
      obtain ⟨since', same', clear'⟩ := ih since.alike since.ranked
      refine ⟨since.trans since', ?_, List.forall_mem_cons.mpr ⟨clear.later since'.later, clear'⟩⟩
      simp only [Workspace.readInAll, same, same']

theorem readInEdits (edits : List (Edit Value)) :
    Since hidden w hidden (w.readInEdits edits).1 (w'.readInEdits edits).1 ∧
      (w'.readInEdits edits).2 = (w.readInEdits edits).2 ∧
      ∀ e ∈ (w.readInEdits edits).2, ∀ x ∈ e.args,
        (w.readInEdits edits).1.store.Clear hidden x := by
  induction edits generalizing w w' with
  | nil => exact ⟨h.since ranked, rfl, fun _ member => by cases member⟩
  | cons e rest ih =>
      cases e with
      | stop reason =>
          obtain ⟨since, same, clear⟩ := ih h ranked
          refine ⟨since, ?_, List.forall_mem_cons.mpr ⟨fun _ member => (by cases member), clear⟩⟩
          simp only [Workspace.readInEdits, same]
      | call method args =>
          obtain ⟨since, same, clear⟩ := h.readInAll ranked args
          obtain ⟨since', same', clear'⟩ := ih since.alike since.ranked
          refine ⟨since.trans since', ?_, List.forall_mem_cons.mpr ⟨?_, clear'⟩⟩
          · simp only [Workspace.readInEdits, same, same']
          · exact fun x arg => (clear x arg).later since'.later

theorem held (operand : Operand) :
    Except.Rel (fun p p' => p'.2 = p.2 ∧ Since hidden w hidden p.1 p'.1 ∧
      p.1.store.Clear hidden p.2) (w.held operand) (w'.held operand) := by
  cases operand with
  | given v =>
      obtain ⟨since, same, clear⟩ := h.readIn ranked v
      exact .ok ⟨same, since, clear⟩
  | «variable» name =>
      simp only [Workspace.held, named?, h.handle?_eq]
      cases w.handle? name with
      | error e => exact .error e
      | ok i =>
          have there := h.object? i
          simp only [Except.bind]
          generalize w.object? i = x at there ⊢
          generalize w'.object? i = y at there ⊢
          cases there with
          | error e => exact .error e
          | ok alike =>
              cases alike with
              | value clear => exact .ok ⟨rfl, h.since ranked, clear⟩
              | _ => exact .error _

theorem onHeld {operand : Operand} {f f' : Workspace → Shared → Turn}
    (next : ∀ w₁ w₁' x, Since hidden w hidden w₁ w₁' → w₁.store.Clear hidden x →
      (f w₁ x).Alike (f' w₁' x)) : (w.onHeld operand f).Alike (w'.onHeld operand f') := by
  refine h.after (h.held ranked operand) fun p p' ⟨same, since, clear⟩ => ?_
  obtain ⟨w₁', y⟩ := p'
  obtain rfl : y = p.2 := same
  exact next _ _ _ since clear

/-- Two secrets are hidden in a cell each. -/
theorem allocSecrets (secret : v.IsSecret) (secret' : v'.IsSecret) :
    ∃ hidden₁ a, Since hidden w hidden₁ { w with store := (w.store.alloc v).1 }
        { w' with store := (w'.store.alloc v').1 } ∧
      hidden₁ a ∧ (w.store.alloc v).2 = .cell a ∧ (w'.store.alloc v').2 = .cell a := by
  obtain ⟨veiled, later⟩ := h.store.hide secret secret'
  have ranked' := ranked.lays (Store.alloc_lays w.store v).1
  rw [alloc_secret _ secret] at ranked' ⊢
  rw [alloc_secret _ secret', h.store.length_eq]
  exact ⟨_, _, ⟨h.laid veiled later rfl rfl rfl rfl h.next, later, ranked'⟩, .inr rfl, rfl, rfl⟩

/-- Where it is for a secret, the operands may be two secrets. -/
theorem heldVaried {p : Prop} {operand operand' : Operand}
    (varies : operand' = operand ∨ p ∧ operand.Secrets operand') :
    Except.Rel (fun q q' => q'.2 = q.2 ∧ ∃ hidden₁, Since hidden w hidden₁ q.1 q'.1 ∧
      (q.1.store.Clear hidden₁ q.2 ∨ p ∧ ∃ a, q.2 = .cell a ∧ hidden₁ a))
      (w.held operand) (w'.held operand') := by
  rcases varies with rfl | ⟨own, v, v', secret, secret', rfl, rfl⟩
  · have rel := h.held ranked operand'
    generalize w.held operand' = x at rel ⊢
    generalize w'.held operand' = y at rel ⊢
    cases rel with
    | error e => exact .error e
    | ok held => exact .ok ⟨held.1, hidden, held.2.1, .inl held.2.2⟩
  · obtain ⟨hidden₁, a, since, veiled, held, held'⟩ := h.allocSecrets ranked secret secret'
    rw [Workspace.held, Workspace.held, readIn_secret w secret, readIn_secret w' secret']
    exact .ok ⟨held'.trans held.symm, hidden₁, since, .inr ⟨own, a, held, veiled⟩⟩

theorem heldNamed {given given' : List (String × Operand)}
    (varies : List.Forall₂ VariesField given given') :
    Except.Rel (fun p p' => p'.2 = p.2 ∧ ∃ hidden₁, Since hidden w hidden₁ p.1 p'.1 ∧
      p.2.Veiled hidden₁ p.1.store) (w.heldNamed given) (w'.heldNamed given') := by
  induction varies generalizing hidden w w' with
  | nil => exact .ok ⟨rfl, hidden, h.since ranked, fun _ member => by cases member⟩
  | @cons f f' _ _ first _ ih =>
      refine except_rel_bind (h.heldVaried ranked first.2) fun p p' ⟨same, hidden₁, since, veiled⟩ => ?_
      refine except_rel_bind (ih since.alike since.ranked)
        fun q q' ⟨same', hidden₂, since', veiled'⟩ => .ok ⟨?_, hidden₂, since.trans since', ?_⟩
      · rw [same, same', first.1]
      · refine List.forall_mem_cons.mpr ⟨veiled.imp (fun clear => clear.later since'.later) ?_, veiled'⟩
        exact fun ⟨own, a, held, secret⟩ => ⟨own, a, held, since'.later.kept a secret⟩

theorem afterVaried {p : Prop} {operand operand' : Operand} {f f' : Workspace × Shared → Turn}
    (varies : operand' = operand ∨ p ∧ operand.Secrets operand')
    (next : ∀ hidden₁ w₁ w₁' x, Since hidden w hidden₁ w₁ w₁' →
      (w₁.store.Clear hidden₁ x ∨ p ∧ ∃ a, x = .cell a ∧ hidden₁ a) →
        (f (w₁, x)).Alike (f' (w₁', x))) :
    (w.after (w.held operand) f).Alike (w'.after (w'.held operand') f') := by
  refine h.after (h.heldVaried ranked varies) fun q q' ⟨same, hidden₁, since, veiled⟩ => ?_
  obtain ⟨w₁', x⟩ := q'
  obtain rfl : x = q.2 := same
  exact next hidden₁ _ _ _ since veiled

theorem afterNamed {given given' : List (String × Operand)} {f f' : Workspace × HeldFields → Turn}
    (varies : List.Forall₂ VariesField given given')
    (next : ∀ hidden₁ w₁ w₁' fields, Since hidden w hidden₁ w₁ w₁' →
      fields.Veiled hidden₁ w₁.store → (f (w₁, fields)).Alike (f' (w₁', fields))) :
    (w.after (w.heldNamed given) f).Alike (w'.after (w'.heldNamed given') f') := by
  refine h.after (h.heldNamed ranked varies) fun q q' ⟨same, hidden₁, since, veiled⟩ => ?_
  obtain ⟨w₁', fields⟩ := q'
  obtain rfl : fields = q.2 := same
  exact next hidden₁ _ _ _ since veiled

end Alike

end ClientRegistry.Workspace
