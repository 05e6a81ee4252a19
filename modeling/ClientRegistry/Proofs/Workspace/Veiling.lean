import ClientRegistry.Proofs.Workspace.Veiled

/-! Steps that are taken in two workspaces that differ in secrets only, with the same operands or
with two secrets for a client. They log the same records, fail for the same reason or show the same
but for the secret, and leave two workspaces that differ in secrets only. -/

namespace ClientRegistry.Workspace

variable {hidden : Address → Prop} {s s' : Store} {w w' : Workspace} {x : Shared} {a : Address}
  {fields : HeldFields}

namespace Alike

/-- Another store with more cells, of which none are hidden. -/
theorem withStore (h : w.Alike hidden w') (store : s.Veiled hidden s')
    (less : w.store.length ≤ s.length) :
    ({ w with store := s } : Workspace).Alike hidden { w' with store := s' } :=
  h.laid store (Store.later_of_length_le less) rfl rfl rfl rfl h.next

theorem stored (h : w.Alike hidden w') (store : s.Veiled hidden s')
    (less : w.store.length ≤ s.length) (ranked : s.Ranked) :
    Since hidden w hidden { w with store := s } { w' with store := s' } :=
  ⟨h.withStore store less, Store.later_of_length_le less, ranked⟩

section Steps

variable (h : w.Alike hidden w') (ranked : w.store.Ranked)

include h ranked

theorem copyCell (clear : w.store.Clear hidden (.cell a)) :
    Since hidden w hidden { w with store := (w.store.copyCell a).1 }
        { w' with store := (w'.store.copyCell a).1 } ∧
      (w'.store.copyCell a).2 = (w.store.copyCell a).2 ∧
      (w.store.copyCell a).1.Clear hidden (.cell (w.store.copyCell a).2) := by
  obtain ⟨veiled, same, copy⟩ := h.store.copyCell ranked clear
  obtain ⟨grows, -⟩ := Store.copyCell_grows ranked (clear a rfl).1
  exact ⟨h.stored veiled grows.length_le (grows.ranked ranked), same, copy⟩

theorem copyBag (clear : w.store.Clear hidden x) :
    Since hidden w hidden { w with store := (w.store.copyBag x).1 }
        { w' with store := (w'.store.copyBag x).1 } ∧
      (w'.store.copyBag x).2 = (w.store.copyBag x).2 ∧
      (w.store.copyBag x).1.Clear hidden (.cell (w.store.copyBag x).2) := by
  obtain ⟨veiled, same, copy⟩ := h.store.copyBag ranked clear
  exact ⟨h.stored veiled (Store.copyBag_extends _ _).length_le
    (Store.copyBag_ranked ranked fun a at' => (clear a at').1), same, copy⟩

theorem copiedOptions {mapping : Shared} (clear : w.store.Clear hidden mapping) :
    Except.Rel (fun p p' => p'.2 = p.2 ∧ Since hidden w hidden p.1 p'.1 ∧
      p.1.store.Clear hidden (.cell p.2)) (w.copiedOptions mapping) (w'.copiedOptions mapping) := by
  rw [Workspace.copiedOptions, Workspace.copiedOptions,
    Bag.entriesFrom_agrees h.store.agrees clear]
  cases found : Bag.entriesFrom w.store.child mapping with
  | error e => exact .error e
  | ok es =>
      have parts := Bag.entriesFrom_values h.store.closed.keeps clear found
      obtain ⟨veiled, same, copy⟩ := h.store.copyEntries ranked parts
      refine .ok ⟨same, h.stored veiled (Store.copyEntries_length_le _ _) ?_, copy⟩
      exact Store.copyEntries_ranked ranked fun e member a at' => (parts e member a at').1

theorem editAt (clear : w.store.Clear hidden x) (path : List Value) (edits : List (Edit Value)) :
    (w.editAt x path edits).1.Alike hidden (w'.editAt x path edits).1 ∧
      (w'.editAt x path edits).2 = (w.editAt x path edits).2 := by
  obtain ⟨since, same, given⟩ := h.readInEdits ranked edits
  have source := clear.later since.later
  simp only [Workspace.editAt, same, since.alike.store.walk source path]
  split
  · exact ⟨since.alike, rfl⟩
  next y found =>
    have reached := since.alike.store.closed.walk source found
    obtain ⟨veiled, fault⟩ := since.alike.store.edit reached given
    exact ⟨since.alike.withStore veiled (Store.edit_length _ y _).ge, fault⟩

theorem editView {a : Address} (clear : w.store.Clear hidden (.cell a)) (path : List Value)
    (edits : List (Edit Value)) :
    (w.editView a path edits).1.Alike hidden (w'.editView a path edits).1 ∧
      (w'.editView a path edits).2 = (w.editView a path edits).2 := by
  cases path with
  | nil => exact ⟨h, rfl⟩
  | cons key rest => exact h.editAt ranked clear (key :: rest) edits

theorem withId (id : Operand) : (w.withId id).Alike (w'.withId id) := by
  refine h.onHeld ranked fun w₁ w₁' x since clear => ?_
  rw [since.alike.store.read clear]
  refine since.alike.after_same fun d => since.alike.ofInserted (.draft (.refl d) ?_ ?_) []
  · exact Store.clear_leaf _ _ _
  · exact Store.clear_leaf _ _ _

theorem fromClient (client : Option String) : (w.fromClient client).Alike (w'.fromClient client) := by
  cases client with
  | none => exact h.fail _ []
  | some name =>
      refine h.onClient fun c e masks client token => ?_
      obtain ⟨since₁, same₁, copy₁⟩ := h.copyCell ranked client
      obtain ⟨since₂, same₂, copy₂⟩ :=
        since₁.alike.copyCell since₁.ranked (token.later since₁.later)
      dsimp only at same₂ ⊢
      rw [same₁, same₂]
      refine since₂.alike.ofInserted (.draft ?_ ?_ copy₂) []
      · exact (HeldClient.current_masks h.store masks client token).ofClient
      · exact copy₁.later since₂.later

theorem assign (on : String) {field : ScalarField} {value value' : Operand}
    (varies : value' = value ∨ field = .secret ∧ value.Secrets value') :
    (w.assign on field value).Alike (w'.assign on field value') := by
  refine h.onDraft fun i d e masks client token => ?_
  refine h.afterVaried ranked varies fun hidden₁ w₁ w₁' x since veiled => ?_
  have client := client.later since.later
  have token := token.later since.later
  have current := HeldDraft.current_masks since.alike.store masks client token
  have values : w₁'.store.read x = w₁.store.read x ∨
      field = .secret ∧ (w₁.store.read x).Masks (w₁'.store.read x) :=
    veiled.imp (fun clear => since.alike.store.read clear) fun ⟨own, a, held, secret⟩ =>
      ⟨own, .inr (held ▸ read_hidden since.alike.store secret)⟩
  obtain ⟨applied, fault⟩ := Draft.assign_masks current values
  dsimp only
  generalize (d.current w₁.store).apply _ = r at applied fault ⊢
  generalize Draft.apply _ (.assign field (w₁'.store.read x)) = r' at applied fault ⊢
  obtain ⟨draft, none | e⟩ := r
  · obtain ⟨draft', rfl⟩ : ∃ draft', r' = (draft', none) := ⟨r'.1, Prod.ext rfl fault⟩
    refine (since.alike.replace i ?_).ofObject i []
    cases field with
    | clientSettings =>
        have clear := veiled.resolve_right (by simp)
        exact .draft (d := { d with draft := _, clientSettings := _ }) applied clear token
    | tokenSettings =>
        have clear := veiled.resolve_right (by simp)
        exact .draft (d := { d with draft := _, tokenSettings := _ }) applied client clear
    | _ => exact .draft (d := { d with draft := _ }) applied client token
  · obtain ⟨draft', rfl⟩ : ∃ draft', r' = (draft', some e) := ⟨r'.1, Prod.ext rfl fault⟩
    exact since.alike.fail e []

theorem add (on : String) (field : SetField) (value : Operand) :
    (w.add on field value).Alike (w'.add on field value) := by
  refine h.onDraft fun i d e masks client token => h.onHeld ranked fun w₁ w₁' x since clear => ?_
  have client := client.later since.later
  have token := token.later since.later
  have current := HeldDraft.current_masks since.alike.store masks client token
  obtain ⟨applied, fault⟩ := Draft.apply_masks current (.add field (w₁.store.read x))
  simp only [since.alike.store.read clear, fault]
  refine (since.alike.replace i ?_).ofEdited i _
  exact .draft (d := { d with draft := _ }) applied client token

theorem editMembers (on : String) (field : SetField) (edits : List (Edit Value)) :
    (w.editMembers on field edits).Alike (w'.editMembers on field edits) := by
  refine h.onDraft fun i d e masks client token => ?_
  obtain ⟨since, same, given⟩ := h.readInEdits ranked edits
  have client := client.later since.later
  have token := token.later since.later
  have current := HeldDraft.current_masks since.alike.store masks client token
  have read := since.alike.store.map_read given
  obtain ⟨applied, fault⟩ := Draft.apply_masks current
    (.edit field ((w.readInEdits edits).2.map fun e => e.map (w.readInEdits edits).1.store.read))
  simp only [same, read, fault]
  refine (since.alike.replace i ?_).ofEdited i _
  exact .draft (d := { d with draft := _ }) applied client token

omit ranked in
theorem ofOutcome {r r' : Outcome Client} {insert insert' : Client → Workspace × Handle}
    (masks : r.Masks r')
    (next : ∀ c c' log, c.Masks c' → (Turn.ofObject (insert c).1 (insert c).2 log).Alike
      (Turn.ofObject (insert' c').1 (insert' c').2 log)) :
    (Turn.ofOutcome w r insert).Alike (Turn.ofOutcome w' r' insert') := by
  obtain ⟨result, log⟩ := masks
  simp only [Turn.ofOutcome, log]
  generalize r.result = x at result ⊢
  generalize r'.result = y at result ⊢
  cases result with
  | ok masks => exact next _ _ _ masks
  | error e => exact h.fail e _

theorem build (on : String) : (w.build on).Alike (w'.build on) := by
  refine h.onObject fun i o o' alike => ?_
  cases alike with
  | @draft d e masks client token =>
      have current := HeldDraft.current_masks h.store masks client token
      refine h.ofOutcome (Draft.build_masks current) fun c c' log masks => ?_
      obtain ⟨since₁, same₁, copy₁⟩ := h.copyBag ranked client
      obtain ⟨since₂, same₂, copy₂⟩ :=
        since₁.alike.copyBag since₁.ranked (token.later since₁.later)
      dsimp only [insertBuilt] at same₂ ⊢
      rw [same₁, same₂]
      exact since₂.alike.ofInserted (.client masks (copy₁.later since₂.later) copy₂) log
  | settingsDraft kind clear =>
      obtain ⟨since, same, copy⟩ := h.copyCell ranked clear
      dsimp only
      rw [same]
      exact since.alike.ofInserted (.value ((Store.clear_bag kind).mpr copy)) []
  | _ => exact h.fail _ []

omit ranked in
theorem makeClient {f f' : Fields} (masks : f.Masks f') {client token : Option Address}
    (clear : ∀ a, client = some a → w.store.Clear hidden (.cell a))
    (clear' : ∀ a, token = some a → w.store.Clear hidden (.cell a)) :
    (w.makeClient f client token).Alike (w'.makeClient f' client token) := by
  obtain ⟨result, log⟩ := Client.make_masks masks
  simp only [Workspace.makeClient, log]
  generalize (Client.make f).result = x at result ⊢
  generalize (Client.make f').result = y at result ⊢
  cases result with
  | error e => exact h.fail e _
  | ok masks =>
      cases client with
      | none => exact h.fail _ _
      | some a =>
          cases token with
          | none => exact h.fail _ _
          | some b => exact h.ofInserted (.client masks (clear a rfl) (clear' b rfl)) _

theorem construct {given given' : List (String × Operand)}
    (varies : List.Forall₂ VariesField given given') :
    (w.construct given).Alike (w'.construct given') := by
  refine h.afterNamed ranked varies fun hidden₁ w₁ w₁' held since veiled => ?_
  have rel := Fields.ofNamed?_masks (HeldFields.current_masks since.alike.store veiled)
  dsimp only
  generalize Fields.ofNamed? (held.current w₁.store) = x at rel ⊢
  generalize Fields.ofNamed? (held.current w₁'.store) = y at rel ⊢
  cases rel with
  | none => exact since.alike.fail _ []
  | some masks =>
      exact since.alike.makeClient masks (fun a => veiled.bagCell (by decide))
        fun a => veiled.bagCell (by decide)

theorem replaceFields (on : String) {changes changes' : List (String × Operand)}
    (varies : List.Forall₂ VariesField changes changes') :
    (w.replaceFields on changes).Alike (w'.replaceFields on changes') := by
  refine h.onClient fun c e masks client token => ?_
  refine h.afterNamed ranked varies fun hidden₁ w₁ w₁' held since veiled => ?_
  have client := client.later since.later
  have token := token.later since.later
  have current := HeldClient.current_masks since.alike.store masks client token
  have rel := Fields.withAll?_masks (HeldFields.current_masks since.alike.store veiled)
    current.fields
  have own : ∀ name ≠ "client_secret", ∀ b, w₁.store.Clear hidden₁ (.cell b) → ∀ a,
      some ((bagCell? held name).getD b) = some a → w₁.store.Clear hidden₁ (.cell a) := by
    intro name other b clear a found
    cases given : bagCell? held name with
    | none =>
        rw [given] at found
        cases found
        exact clear
    | some a' =>
        rw [given] at found
        cases found
        exact veiled.bagCell other given
  dsimp only
  generalize (c.current w₁.store).fields.withAll? _ = x at rel ⊢
  generalize Fields.withAll? _ (held.current w₁'.store) = y at rel ⊢
  cases rel with
  | none => exact since.alike.fail _ []
  | some masks =>
      exact since.alike.makeClient masks (own _ (by decide) _ client) (own _ (by decide) _ token)

omit ranked in
theorem print (on : String) : (w.print on).Alike (w'.print on) := by
  refine h.onObject fun i o o' alike => ?_
  rw [h.printedObject_eq alike]
  exact h.ofResult (.refl _)

theorem bag (kind : BagKind) (mapping : Operand) :
    (w.bag kind mapping).Alike (w'.bag kind mapping) := by
  refine h.onHeld ranked fun w₁ w₁' x since clear => ?_
  refine since.alike.after (since.alike.copiedOptions since.ranked clear) ?_
  rintro ⟨w₂, a⟩ ⟨w₂', a'⟩ ⟨same, since, copy⟩
  obtain rfl : a' = a := same
  exact since.alike.ofInserted (.value ((Store.clear_bag kind).mpr copy)) []

theorem withSettings (kind : BagKind) (mapping : Operand) :
    (w.withSettings kind mapping).Alike (w'.withSettings kind mapping) := by
  refine h.onHeld ranked fun w₁ w₁' x since clear => ?_
  rw [since.alike.store.read clear]
  have options : w₁.store.Clear hidden (mappingOf x) := by
    cases x with
    | bag kind a => exact (Store.clear_bag kind).mp clear
    | _ => exact clear
  split
  · exact since.alike.fail _ []
  · refine since.alike.after (since.alike.copiedOptions since.ranked options) ?_
    rintro ⟨w₂, a⟩ ⟨w₂', a'⟩ ⟨same, since, copy⟩
    obtain rfl : a' = a := same
    exact since.alike.ofInserted (.settingsDraft kind copy) []

omit ranked in
theorem bagDraft (kind : BagKind) : (w.bagDraft kind).Alike (w'.bagDraft kind) := by
  obtain ⟨veiled, same, clear⟩ := h.store.allocOptions (SettingsDraft.empty kind).options
  obtain ⟨lays, -⟩ := Store.allocOptions_lays w.store (SettingsDraft.empty kind).options
  simp only [Workspace.bagDraft, same]
  exact (h.withStore veiled lays.length_le).ofInserted (.settingsDraft kind clear) []

theorem setting (on : String) (name value : Operand) :
    (w.setting on name value).Alike (w'.setting on name value) := by
  refine h.onSettingsDraft fun i kind a clear => ?_
  refine h.onHeld ranked fun w₁ w₁' n since₁ named => ?_
  refine since₁.alike.onHeld since₁.ranked fun w₂ w₂' x since₂ given => ?_
  have alike := since₂.alike
  have cell := (clear.later since₁.later).later since₂.later
  simp only [alike.store.read (named.later since₂.later), alike.store.entriesAt (cell a rfl).2]
  split
  · exact alike.fail _ []
  · have parts : ∀ y ∈ (Cell.dict (Entries.put (w₂.store.entriesAt a) (w₂.store.read n) x)).parts,
        w₂.store.Clear hidden y := by
      refine List.forall_mem_map.mpr ?_
      exact Entries.put_values (R := w₂.store.Clear hidden) (alike.store.entries_clear a) given
    have veiled := alike.store.set (cell a rfl).2 parts
    exact (alike.withStore veiled (List.length_set ..).ge).ofObject i []

theorem settings (on : String) (edits : List (Edit Value)) :
    (w.settings on edits).Alike (w'.settings on edits) := by
  refine h.onSettingsDraft fun i kind a clear => ?_
  obtain ⟨since, same, given⟩ := h.readInEdits ranked edits
  have alike := since.alike
  obtain ⟨veiled, fault⟩ := alike.store.editCell (clear.later since.later a rfl).2 given
  simp only [same, fault]
  exact (alike.withStore veiled (Store.editCell_length _ a _).ge).ofEdited i _

theorem getSetting (on : String) (name default : Operand) :
    (w.getSetting on name default).Alike (w'.getSetting on name default) := by
  refine h.onBag fun kind a clear => ?_
  refine h.onHeld ranked fun w₁ w₁' n since₁ named => ?_
  refine since₁.alike.onHeld since₁.ranked fun w₂ w₂' x since₂ given => ?_
  have alike := since₂.alike
  have cell := (clear.later since₁.later).later since₂.later
  simp only [alike.store.read (named.later since₂.later), alike.store.entriesAt (cell a rfl).2,
    alike.store.optionsAt (cell a rfl).2, alike.store.read given]
  refine alike.after_same fun _ => ?_
  have option : w₂.store.Clear hidden
      ((Entries.find? (w₂.store.entriesAt a) (w₂.store.read n)).getD x) := by
    cases found : Entries.find? (w₂.store.entriesAt a) (w₂.store.read n) with
    | none => exact given
    | some y =>
        obtain ⟨e, listed, rfl⟩ := List.mem_map.mp (Store.mem_of_find? found)
        exact alike.store.entries_clear a e listed
  obtain ⟨veiled, same, copy⟩ := alike.store.copy since₂.ranked option
  have less := (Store.copied_copies w₂.store
    [(Entries.find? (w₂.store.entriesAt a) (w₂.store.read n)).getD x]).length_le
  simp only [same]
  exact (alike.withStore veiled less).ofInserted (.value copy) []

theorem toDict (on : String) : (w.toDict on).Alike (w'.toDict on) := by
  refine h.onBag fun kind a clear => ?_
  obtain ⟨since, same, copy⟩ := h.copyCell ranked clear
  dsimp only
  rw [same]
  exact since.alike.ofInserted (.value copy) []

omit ranked in
theorem takeView (on : String) : (w.takeView on).Alike (w'.takeView on) := by
  refine h.onBag fun kind a clear => ?_
  have veiled := h.store.concat (c := .dict (w.store.entriesAt a))
    (List.forall_mem_map.mpr (h.store.entries_clear a))
  simp only [h.store.entriesAt (clear a rfl).2, h.store.length_eq]
  have less : w.store.length ≤ (w.store ++ [Cell.dict (w.store.entriesAt a)]).length := by simp
  exact (h.withStore veiled less).ofInserted (.value (h.store.clear_last _ rfl)) []

omit ranked in
theorem viewEdit (on : String) (edits : List (Edit Value)) :
    (w.viewEdit on edits).Alike (w'.viewEdit on edits) := by
  refine h.onBag fun kind a clear => ?_
  simp only [h.store.optionsAt (clear a rfl).2]
  split
  · exact h.fail _ []
  · exact h.ofResult (.refl _)

omit ranked in
theorem clientBag (on : String) (kind : BagKind) :
    (w.clientBag on kind).Alike (w'.clientBag on kind) := by
  refine h.onClient fun c e masks client token => ?_
  cases kind with
  | client => exact h.ofInserted (.value ((Store.clear_bag _).mpr client)) []
  | token => exact h.ofInserted (.value ((Store.clear_bag _).mpr token)) []

theorem plain (value : Operand) : (w.plain value).Alike (w'.plain value) := by
  cases value with
  | given v =>
      obtain ⟨since, same, clear⟩ := h.readIn ranked v
      simp only [Workspace.plain, operand, Workspace.after, same]
      exact since.alike.ofInserted (.value clear) []
  | «variable» name =>
      simp only [Workspace.plain, operand, h.handle?_eq]
      cases w.handle? name with
      | error e => exact h.fail e []
      | ok i => exact h.ofObject i []

theorem mutate (on : String) (path : List Value) (edits : List (Edit Value)) :
    (w.mutate on path edits).Alike (w'.mutate on path edits) := by
  refine h.onObject fun i o o' alike => ?_
  cases alike with
  | value clear =>
      obtain ⟨edited, fault⟩ := h.editAt ranked clear path edits
      simp only [fault]
      exact edited.ofEdited i _
  | _ => exact h.fail _ []

theorem token (kind : TokenKind) (name : Operand) :
    (w.token kind name).Alike (w'.token kind name) := by
  refine h.onHeld ranked fun w₁ w₁' x since clear => ?_
  have alike := since.alike
  rw [alike.store.read clear]
  refine alike.after_same fun v => ?_
  split
  · obtain ⟨veiled, same, laid⟩ := alike.store.alloc v
    obtain ⟨lays, -⟩ := Store.alloc_lays w₁.store v
    have last : w₁'.objects.length = w₁.objects.length := alike.objects.length_eq.symm
    simp only [insertValue, same, Workspace.insert, last]
    exact ⟨⟨hidden, (alike.withStore veiled lays.length_le).insert (.value laid)⟩,
      .ok (.shown (.refl _)), rfl, rfl⟩
  · exact alike.fail _ []

/-- What is laid out is clear, but for two secrets, which are hidden. -/
theorem holdFields {named named' : List (String × Value)}
    (masks : List.Forall₂ MasksField named named') :
    ∃ hidden₁, Since hidden w hidden₁ (w.holdFields named).1 (w'.holdFields named').1 ∧
      (w'.holdFields named').2 = (w.holdFields named).2 ∧
      (w.holdFields named).2.Veiled hidden₁ (w.holdFields named).1.store := by
  induction masks generalizing hidden w w' with
  | nil => exact ⟨hidden, h.since ranked, rfl, fun _ member => by cases member⟩
  | @cons f f' named named' first _ ih =>
      obtain ⟨name, v⟩ := f
      obtain ⟨name', v'⟩ := f'
      obtain ⟨rfl, value⟩ := first
      obtain ⟨hidden₁, since, held, veiled⟩ : ∃ hidden₁,
          Since hidden w hidden₁ { w with store := (w.store.alloc v).1 }
            { w' with store := (w'.store.alloc v').1 } ∧
          (w'.store.alloc v').2 = (w.store.alloc v).2 ∧
          ((w.store.alloc v).1.Clear hidden₁ (w.store.alloc v).2 ∨ name' = "client_secret" ∧
            ∃ a, (w.store.alloc v).2 = .cell a ∧ hidden₁ a) := by
        rcases value with rfl | ⟨own, secret, secret'⟩
        · obtain ⟨veiled, held, clear⟩ := h.store.alloc v'
          obtain ⟨lays, -⟩ := Store.alloc_lays w.store v'
          exact ⟨hidden, h.stored veiled lays.length_le (ranked.lays lays), held, .inl clear⟩
        · obtain ⟨hidden₁, a, since, veiled, held, held'⟩ := h.allocSecrets ranked secret secret'
          exact ⟨hidden₁, since, held'.trans held.symm, .inr ⟨own, a, held, veiled⟩⟩
      obtain ⟨hidden₂, since', held', veiled'⟩ := ih since.alike since.ranked
      refine ⟨hidden₂, since.trans since', ?_, List.forall_mem_cons.mpr ⟨?_, veiled'⟩⟩
      · simp only [Workspace.holdFields, held, held']
      · refine veiled.imp (fun clear => clear.later since'.later) ?_
        rintro ⟨own, a, laid, secret⟩
        exact ⟨own, a, laid, since'.later.kept a secret⟩

theorem exported {c : HeldClient} (e : Client) (client : w.store.Clear hidden (.cell c.clientSettings))
    (token : w.store.Clear hidden (.cell c.tokenSettings)) {named named' : List (String × Value)}
    (masks : List.Forall₂ MasksField named named') :
    ∃ hidden₁, Since hidden w hidden₁ (w.exported c named).1
        (w'.exported { c with client := e } named').1 ∧
      (w'.exported { c with client := e } named').2 = (w.exported c named).2 ∧
      (w.exported c named).2.Veiled hidden₁ (w.exported c named).1.store := by
  obtain ⟨hidden₁, since, held, veiled⟩ := h.holdFields ranked masks
  obtain ⟨since₁, same₁, copy₁⟩ := since.alike.copyCell since.ranked (client.later since.later)
  obtain ⟨since₂, same₂, copy₂⟩ := since₁.alike.copyCell since₁.ranked
    ((token.later since.later).later since₁.later)
  dsimp only at same₂
  refine ⟨hidden₁, (since.trans since₁).trans since₂, ?_, ?_⟩
  · simp only [Workspace.exported, held, same₁, same₂]
  · have fields := (veiled.later since₁.later).later since₂.later
    exact (fields.put (copy₁.later since₂.later)).put copy₂

theorem keepField {given fields : HeldFields} (source : given.Veiled hidden w.store)
    (veiled : fields.Veiled hidden w.store) {name : String} (other : name ≠ "client_secret") :
    Since hidden w hidden (Workspace.keepField given name (w, fields)).1
        (Workspace.keepField given name (w', fields)).1 ∧
      (Workspace.keepField given name (w', fields)).2 =
        (Workspace.keepField given name (w, fields)).2 ∧
      (Workspace.keepField given name (w, fields)).2.Veiled hidden
        (Workspace.keepField given name (w, fields)).1.store := by
  have still := And.intro (h.since ranked) (And.intro (Eq.refl fields) veiled)
  simp only [Workspace.keepField]
  cases found : given.field? name with
  | none => exact still
  | some x =>
      cases x with
      | cell a =>
          have clear := source.clear other found
          simp only [h.store.entriesAt (clear a rfl).2]
          cases checked : Snapshot.checkEntries name (w.store.entriesAt a) with
          | error e => exact still
          | ok es =>
              have parts : ∀ e ∈ es, w.store.Clear hidden e.2 :=
                Snapshot.checkEntries_values checked (h.store.entries_clear a)
              have store := h.store.concat (c := .dict es) (List.forall_mem_map.mpr parts)
              have less : w.store.length ≤ (w.store ++ [Cell.dict es]).length := by simp
              have ranked' : (w.store ++ [Cell.dict es]).Ranked := ranked.concat
                (List.forall_mem_map.mpr fun e member b at' => (parts e member b at').1)
              have since := h.stored store less ranked'
              refine ⟨since, ?_, (veiled.later since.later).put (h.store.clear_last _ rfl)⟩
              rw [h.store.length_eq]
      | _ => exact still

theorem keepEntries {given fields : HeldFields} (source : given.Veiled hidden w.store)
    (veiled : fields.Veiled hidden w.store) :
    Since hidden w hidden (w.keepEntries given fields).1 (w'.keepEntries given fields).1 ∧
      (w'.keepEntries given fields).2 = (w.keepEntries given fields).2 ∧
      (w.keepEntries given fields).2.Veiled hidden (w.keepEntries given fields).1.store := by
  obtain ⟨since, same, veiled⟩ := h.keepField ranked source veiled
    (by decide : "client_settings" ≠ "client_secret")
  simp only [Workspace.keepEntries]
  generalize Workspace.keepField given "client_settings" (w, fields) = p at since same veiled ⊢
  generalize Workspace.keepField given "client_settings" (w', fields) = p' at since same ⊢
  obtain ⟨w₁, fields₁⟩ := p
  obtain ⟨w₁', fields₁'⟩ := p'
  obtain rfl : fields₁' = fields₁ := same
  obtain ⟨since', same', veiled'⟩ := since.alike.keepField since.ranked (source.later since.later)
    veiled (by decide : "token_settings" ≠ "client_secret")
  exact ⟨since.trans since', same', veiled'⟩

/-- The new object is opaque here: laying out twelve fields must not be unfolded. -/
theorem snapshot (on : String) : (w.snapshot on).Alike (w'.snapshot on) := by
  refine h.onClient fun c e masks client token => ?_
  have current := HeldClient.current_masks h.store masks client token
  refine h.after (Snapshot.ofClient_masks current) fun s s' masks => ?_
  obtain ⟨hidden₁, since, held, veiled⟩ :=
    h.exported ranked e client token (Snapshot.named_masks masks)
  have names : (w.exported c s.named).2.map (·.1) = Snapshot.fieldNames :=
    exported_names w c s.named
  generalize w.exported c s.named = p at since held veiled names ⊢
  generalize w'.exported _ s'.named = p' at since held ⊢
  obtain ⟨w₁, fields⟩ := p
  obtain ⟨w₁', fields'⟩ := p'
  obtain rfl : fields' = fields := held
  obtain ⟨since', held', veiled'⟩ := since.alike.keepEntries since.ranked veiled veiled
  have names' := (keepEntries_names w₁ fields' fields').trans names
  dsimp only at since' held' veiled' names' ⊢
  generalize w₁.keepEntries fields' fields' = q at since' held' veiled' names' ⊢
  generalize w₁'.keepEntries fields' fields' = q' at since' held' ⊢
  obtain ⟨w₂, kept⟩ := q
  obtain ⟨w₂', kept'⟩ := q'
  obtain rfl : kept' = kept := held'
  exact since'.alike.ofInserted (.snapshot names' veiled') []

theorem restoredOptions (veiled : fields.Veiled hidden w.store) {name : String}
    (other : name ≠ "client_secret") :
    Since hidden w hidden (w.restoredOptions fields name).1 (w'.restoredOptions fields name).1 ∧
      (w'.restoredOptions fields name).2 = (w.restoredOptions fields name).2 ∧
      (w.restoredOptions fields name).1.store.Clear hidden
        (.cell (w.restoredOptions fields name).2) := by
  have clear : w.store.Clear hidden ((fields.field? name).getD (.leaf .null)) := by
    cases found : fields.field? name with
    | none => exact Store.clear_leaf _ _ _
    | some x => exact veiled.clear other found
  have rel := h.copiedOptions ranked clear
  simp only [Workspace.restoredOptions]
  generalize w.copiedOptions _ = r at rel ⊢
  generalize w'.copiedOptions _ = r' at rel ⊢
  cases rel with
  | ok copied => exact ⟨copied.2.1, copied.1, copied.2.2⟩
  | error e =>
      have store := h.store.concat (c := .dict []) fun _ member => by cases member
      have ranked' : (w.store ++ [Cell.dict []]).Ranked :=
        ranked.concat fun _ member => by cases member
      refine ⟨h.stored store (by simp) ranked', h.store.length_eq, h.store.clear_last _ rfl⟩

theorem insertRestored (veiled : fields.Veiled hidden w.store) {c c' : Client} (masks : c.Masks c')
    (log : List LogRecord) :
    (Turn.ofObject (w.insertRestored fields c).1 (w.insertRestored fields c).2 log).Alike
      (Turn.ofObject (w'.insertRestored fields c').1 (w'.insertRestored fields c').2 log) := by
  obtain ⟨since₁, same₁, copy₁⟩ := h.restoredOptions ranked veiled
    (by decide : "client_settings" ≠ "client_secret")
  obtain ⟨since₂, same₂, copy₂⟩ := since₁.alike.restoredOptions since₁.ranked
    (veiled.later since₁.later) (by decide : "token_settings" ≠ "client_secret")
  simp only [Workspace.insertRestored, same₁, same₂]
  exact since₂.alike.ofInserted (.client masks (copy₁.later since₂.later) copy₂) log

theorem toClient (on : String) : (w.toClient on).Alike (w'.toClient on) := by
  refine h.onSnapshot fun fields names veiled => ?_
  have masks := HeldFields.current_masks h.store veiled
  have names : (fields.current w.store).map (·.1) = Snapshot.fieldNames := by
    rw [← names, HeldFields.current, List.map_map]
    rfl
  have rel := Snapshot.ofNamed?_masks masks
  have row := rowOfSnapshot_masks masks names
  dsimp only
  generalize fields.current w.store = named at rel row ⊢
  generalize fields.current w'.store = named' at rel row ⊢
  generalize Snapshot.ofNamed? named = r at rel ⊢
  generalize Snapshot.ofNamed? named' = r' at rel ⊢
  cases rel with
  | some masks =>
      exact h.ofOutcome (Snapshot.toClient_masks masks) fun c c' log masks =>
        h.insertRestored ranked veiled masks log
  | none =>
      refine h.after row ?_
      rintro _ _ ⟨f, f', rfl, rfl, masks⟩
      exact h.ofOutcome (Row.toClient_masks masks) fun c c' log masks =>
        h.insertRestored ranked veiled masks log

/-- Every field but the secret can be edited in place. -/
theorem mutateField (on : String) {field : String} (other : field ≠ "client_secret")
    (path : List Value) (edits : List (Edit Value)) :
    (w.mutateField on field path edits).Alike (w'.mutateField on field path edits) := by
  refine h.onObject fun i o o' alike => ?_
  cases alike with
  | snapshot names veiled =>
      dsimp only
      split
      · exact h.fail _ []
      next x found =>
        obtain ⟨edited, fault⟩ := h.editAt ranked (veiled.clear other found) path edits
        simp only [fault]
        exact edited.ofEdited i _
  | value clear =>
      rename_i x
      cases x with
      | bag kind a =>
          have options := (Store.clear_bag kind).mp clear
          dsimp only
          split
          · obtain ⟨edited, fault⟩ := h.editView ranked options path edits
            simp only [fault]
            exact edited.ofEdited i _
          · exact h.fail _ []
      | _ => exact h.fail _ []
  | _ => exact h.fail _ []

omit ranked in
theorem listed (name : String) : w'.listed name = w.listed name := by
  simp only [Workspace.listed, h.handle?_eq]
  refine bind_congr fun i => ?_
  have there := h.object? i
  generalize w.object? i = x at there ⊢
  generalize w'.object? i = y at there ⊢
  cases there with
  | error e => rfl
  | ok alike =>
      cases alike with
      | client masks _ _ =>
          obtain ⟨v, -, rfl⟩ := masks
          rfl
      | _ => rfl

omit ranked in
theorem settle (r : Outcome (Registry Listed)) (i : Option Handle) :
    (w.settle r i).Alike (w'.settle r i) := by
  obtain ⟨result, log⟩ := r
  cases result with
  | error e => exact h.fail e log
  | ok r =>
      cases i with
      | some i => exact (h.replace i (.registry r)).ofObject i log
      | none => exact h.ofInserted (.registry r) log

omit ranked in
theorem registry (clients : List String) : (w.registry clients).Alike (w'.registry clients) := by
  have same : w'.listed = w.listed := funext h.listed
  rw [Workspace.registry, Workspace.registry, same]
  exact h.after_same fun entries => h.settle _ none

omit ranked in
theorem save (on client : String) : (w.save on client).Alike (w'.save on client) := by
  refine h.onRegistry fun i r => ?_
  rw [h.listed]
  exact h.after_same fun c => h.settle _ (some i)

omit ranked in
theorem showFound (found : Option Listed) : (w.showFound found).Alike (w'.showFound found) := by
  cases found with
  | none => exact h.ofResult (.refl _)
  | some c => exact h.ofObject c.handle []

theorem findById (on : String) (key : Operand) : (w.findById on key).Alike (w'.findById on key) := by
  refine h.onRegistry fun i r => h.onHeld ranked fun w₁ w₁' x since clear => ?_
  rw [since.alike.store.read clear]
  exact since.alike.after_same since.alike.showFound

theorem findByClientId (on : String) (key : Operand) :
    (w.findByClientId on key).Alike (w'.findByClientId on key) := by
  refine h.onRegistry fun i r => h.onHeld ranked fun w₁ w₁' x since clear => ?_
  rw [since.alike.store.read clear]
  exact since.alike.after_same since.alike.showFound

end Steps

end Alike

end ClientRegistry.Workspace
