import ClientRegistry.Proofs.Store.Parted
import ClientRegistry.Proofs.Workspace.Extended
import ClientRegistry.Proofs.Workspace.Replacing

/-! What is exported. The fields of a snapshot or a row are held in new cells and in rigid ones. A
snapshot step shows the snapshot of the client as it is now, and a row step its row, with what the
cells of the bags read as for the settings. -/

namespace ClientRegistry

namespace Snapshot

variable {α β : Type}

theorem collect_map (f : α → β) (cs : List (Checked α)) :
    collect (cs.map fun c => c.map f) = (collect cs).map fun as => as.map f := by
  induction cs with
  | nil => rfl
  | cons c rest ih =>
      simp only [List.map_cons, collect, ih]
      cases c <;> cases collect rest <;> rfl

/-- The settings of a client's snapshot are those of the client, with their keys checked. -/
theorem options_of_ofClient {c : Client} {s : Snapshot} (made : ofClient c = .ok s) :
    checkEntries "client_settings" c.clientSettings = .ok s.clientSettings ∧
      checkEntries "token_settings" c.tokenSettings = .ok s.tokenSettings := by
  obtain ⟨methods, -, made⟩ := except_bind_eq_ok.mp made
  obtain ⟨grants, -, made⟩ := except_bind_eq_ok.mp made
  obtain ⟨uris, -, made⟩ := except_bind_eq_ok.mp made
  obtain ⟨scopes, -, made⟩ := except_bind_eq_ok.mp made
  have checks := ofInput_eq_ok.mp made
  exact ⟨checks.clientSettings, checks.tokenSettings⟩

end Snapshot

namespace Entries

variable {α β : Type}

theorem put_map (f : α → β) (es : List (Value × α)) (k : Value) (v : α) :
    put (es.map fun e => (e.1, f e.2)) k (f v) = (put es k v).map fun e => (e.1, f e.2) := by
  induction es with
  | nil => rfl
  | cons e rest ih =>
      simp only [List.map_cons, put]
      split
      · rfl
      · rw [ih, List.map_cons]

theorem ofList_map (f : α → β) (es : List (Value × α)) :
    ofList (es.map fun e => (e.1, f e.2)) = (ofList es).map fun e => (e.1, f e.2) := by
  have folded : ∀ fs : List (Value × α),
      (es.map fun e => (e.1, f e.2)).foldl (fun gs e => put gs e.1 e.2)
          (fs.map fun e => (e.1, f e.2)) =
        (es.foldl (fun gs e => put gs e.1 e.2) fs).map fun e => (e.1, f e.2) := by
    induction es with
    | nil => exact fun _ => rfl
    | cons e rest ih =>
        intro fs
        simp only [List.map_cons, List.foldl_cons, put_map, ih]
  exact folded []

end Entries

/-- Checking entries looks at their keys only. -/
theorem Snapshot.checkEntries_map {α β : Type} (f : α → β) (field : String)
    (es : List (Value × α)) :
    checkEntries field (es.map fun e => (e.1, f e.2)) =
      (checkEntries field es).map fun fs => fs.map fun e => (e.1, f e.2) := by
  have keys : (es.map fun e => (e.1, f e.2)).map
      (fun e => (checkKey field e.1).map fun k => (k, e.2)) =
        (es.map fun e => (checkKey field e.1).map fun k => (k, e.2)).map
          fun c => c.map fun e => (e.1, f e.2) := by
    simp only [List.map_map]
    refine List.map_congr_left fun e _ => ?_
    simp only [Function.comp_apply]
    cases checkKey field e.1 <;> rfl
  rw [checkEntries, keys, collect_map, checkEntries]
  cases collect _ with
  | error found => rfl
  | ok checked => exact congrArg Except.ok (Entries.ofList_map f checked)

namespace Workspace

variable {w w' : Workspace} {on : String} {c : HeldClient} {fields : HeldFields} {s s' : Store}
  {x : Shared} {a : Address} {name : String}

/-- The values with another one under a name. -/
def putValue (named : List (String × Value)) (name : String) (v : Value) : List (String × Value) :=
  named.map fun f => if f.1 == name then (f.1, v) else f

namespace HeldFields

theorem current_put (s : Store) (fields : HeldFields) (name : String) (x : Shared) :
    (fields.put name x).current s = putValue (fields.current s) name (s.read x) := by
  simp only [put, current, putValue, List.map_map]
  refine List.map_congr_left fun f _ => ?_
  simp only [Function.comp_apply]
  split <;> rfl

theorem current_extends (grown : s.Extends s') (ranked : s.Ranked)
    (inside : ∀ f ∈ fields, ∀ a, f.2.address? = some a → a < s.length) :
    fields.current s' = fields.current s :=
  List.map_congr_left fun f member => by rw [grown.read ranked (inside f member)]

theorem field?_put_self (present : name ∈ fields.map (·.1)) :
    (fields.put name x).field? name = some x := by
  induction fields with
  | nil => cases present
  | cons f rest ih =>
      simp only [put, field?, List.map_cons, List.find?_cons] at ih ⊢
      cases same : f.1 == name with
      | true => simp [same]
      | false =>
          have later : name ∈ rest.map (·.1) := by
            refine (List.mem_cons.mp present).resolve_left fun eq => ?_
            simp [eq] at same
          simpa [same] using ih later

theorem field?_put_ne {other : String} (ne : name ≠ other) :
    (fields.put name x).field? other = fields.field? other := by
  induction fields with
  | nil => rfl
  | cons f rest ih =>
      simp only [put, field?, List.map_cons, List.find?_cons] at ih ⊢
      cases same : f.1 == name with
      | true =>
          have apart : (f.1 == other) = false := by
            rw [eq_of_beq same]
            simpa using ne
          simpa [apart] using ih
      | false =>
          simp only [Bool.false_eq_true, if_false]
          cases f.1 == other with
          | true => rfl
          | false => exact ih

theorem put_names (fields : HeldFields) (name : String) (x : Shared) :
    (fields.put name x).map (·.1) = fields.map (·.1) := by
  simp only [put, List.map_map]
  refine List.map_congr_left fun f _ => ?_
  simp only [Function.comp_apply]
  split <;> rfl

end HeldFields

/-- What is laid out reads as it is. -/
theorem holdFields_current (ranked : w.store.Ranked) (named : List (String × Value)) :
    (w.holdFields named).2.current (w.holdFields named).1.store = named := by
  induction named generalizing w with
  | nil => rfl
  | cons f rest ih =>
      obtain ⟨name, v⟩ := f
      obtain ⟨laid, new⟩ := Store.alloc_lays w.store v
      obtain ⟨laid', -⟩ := holdFields_lays { w with store := (w.store.alloc v).1 } rest
      have first := laid'.read (ranked.lays laid) fun b at' => (new b at').2
      have later := ih (w := { w with store := (w.store.alloc v).1 }) (ranked.lays laid)
      simp only [holdFields, HeldFields.current, List.map_cons] at later ⊢
      rw [first, ranked.read_alloc v, later]

/-- Deep copies of two cells, and new cells for all else. -/
theorem exported_grows (ranked : w.store.Ranked) {c : HeldClient}
    (inside : ∀ x ∈ (Object.client c).parts, ∀ a, x.address? = some a → a < w.store.length)
    (named : List (String × Value)) :
    w.store.Grows (w.exported c named).1.store ∧
      ∀ f ∈ (w.exported c named).2, w.store.Free (w.exported c named).1.store f.2 := by
  obtain ⟨lays, new⟩ := holdFields_lays w named
  have below : ∀ a, .cell a ∈ (Object.client c).parts → a < (w.holdFields named).1.store.length :=
    fun a member => Nat.lt_of_lt_of_le (inside _ member a rfl) lays.length_le
  obtain ⟨grows₁, free₁⟩ := Store.copyCell_grows (ranked.lays lays) (below _ List.mem_cons_self)
  obtain ⟨grows₂, free₂⟩ := Store.copyCell_grows (grows₁.ranked (ranked.lays lays))
    (Nat.lt_of_lt_of_le (below c.tokenSettings (List.mem_cons_of_mem _ List.mem_cons_self))
      grows₁.length_le)
  have grows := lays.grows.trans grows₁
  refine ⟨grows.trans grows₂, HeldFields.put_holds (HeldFields.put_holds ?_ ?_) ?_⟩
  · exact fun f member => (new f member).free.later (grows₁.trans grows₂).toExtends
  · exact (free₁.earlier lays.length_le).later grows₂.toExtends
  · exact free₂.earlier grows.length_le

/-- A new dictionary of what a new or a rigid one holds. -/
theorem keepField_grows (ranked : s.Ranked) (grows : s.Grows w.store) {given fields : HeldFields}
    (source : ∀ f ∈ given, s.Free w.store f.2) (free : ∀ f ∈ fields, s.Free w.store f.2)
    (name : String) :
    s.Grows (keepField given name (w, fields)).1.store ∧
      w.store.Extends (keepField given name (w, fields)).1.store ∧
      ∀ f ∈ (keepField given name (w, fields)).2,
        s.Free (keepField given name (w, fields)).1.store f.2 := by
  simp only [keepField]
  split
  next a found =>
    split
    next es checked =>
      have root := HeldFields.holds_of_field? source found
      have parts : ∀ e ∈ es, s.Free w.store e.2 := by
        refine Snapshot.checkEntries_values checked fun e listed b at' => ?_
        have part := Store.mem_parts_of_entriesAt listed
        rcases root a rfl with rigid | ⟨new, -⟩
        · exact .inl (rigid.part part at')
        · exact grows.free_part ranked new part b at'
      have more := Store.Extends.append w.store [.dict es]
      refine ⟨grows.concat (List.forall_mem_map.mpr parts), more, ?_⟩
      exact HeldFields.put_holds (fun f member => (free f member).later more)
        (Store.new_last grows.length_le rfl rfl).free
    · exact ⟨grows, .refl _, free⟩
  · exact ⟨grows, .refl _, free⟩

theorem keepEntries_grows (ranked : s.Ranked) (grows : s.Grows w.store)
    {given fields : HeldFields} (source : ∀ f ∈ given, s.Free w.store f.2)
    (free : ∀ f ∈ fields, s.Free w.store f.2) :
    s.Grows (w.keepEntries given fields).1.store ∧
      ∀ f ∈ (w.keepEntries given fields).2, s.Free (w.keepEntries given fields).1.store f.2 := by
  obtain ⟨grows₁, more, free₁⟩ := keepField_grows ranked grows source free "client_settings"
  obtain ⟨grows₂, -, free₂⟩ := keepField_grows ranked grows₁
    (fun f member => (source f member).later more) free₁ "token_settings"
  exact ⟨grows₂, free₂⟩

/-- The cell of the second store reads as the one of the first and has its options. -/
structure ReadsAs (s : Store) (a : Address) (s' : Store) (b : Address) : Prop where
  lt : b < s'.length
  read : s'.read (.cell b) = s.read (.cell a)
  options : s'.optionsAt b = s.optionsAt a

theorem ReadsAs.trans {s'' : Store} {b d : Address} (first : ReadsAs s a s' b)
    (second : ReadsAs s' b s'' d) : ReadsAs s a s'' d :=
  ⟨second.lt, second.read.trans first.read, second.options.trans first.options⟩

/-- A store that only grows reads the same. -/
theorem readsAs_extends (grown : s.Extends s') (ranked : s.Ranked) (inside : a < s.length) :
    ReadsAs s a s' a where
  lt := Nat.lt_of_lt_of_le inside grown.length_le
  read := grown.read ranked fun b at' => by
    cases at'
    exact inside
  options := grown.optionsAt ranked inside

theorem readsAs_copyCell (ranked : s.Ranked) (inside : a < s.length) :
    ReadsAs s a (s.copyCell a).1 (s.copyCell a).2 := by
  obtain ⟨there, options⟩ := Store.copyCell_optionsAt ranked inside
  refine ⟨there, ?_, options⟩
  exact ranked.read_copy (x := .cell a) fun b at' => by
    cases at'
    exact inside

theorem holdFields_names (w : Workspace) (named : List (String × Value)) :
    (w.holdFields named).2.map (·.1) = named.map (·.1) := by
  induction named generalizing w with
  | nil => rfl
  | cons f rest ih => exact congrArg (f.1 :: ·) (ih { w with store := (w.store.alloc f.2).1 })

theorem exported_names (w : Workspace) (c : HeldClient) (named : List (String × Value)) :
    (w.exported c named).2.map (·.1) = named.map (·.1) := by
  simp only [exported, HeldFields.put_names, holdFields_names]

theorem keepField_names (given : HeldFields) (name : String) (p : Workspace × HeldFields) :
    (keepField given name p).2.map (·.1) = p.2.map (·.1) := by
  simp only [keepField]
  split
  · split
    · exact HeldFields.put_names _ _ _
    · rfl
  · rfl

theorem keepEntries_names (w : Workspace) (given fields : HeldFields) :
    (w.keepEntries given fields).2.map (·.1) = fields.map (·.1) := by
  simp only [keepEntries, keepField_names]

/-- Under the name, the fields hold a dictionary with the options that a bag had. -/
def HeldFields.Exports (fields : HeldFields) (s : Store) (name : String) (options : Options) : Prop :=
  ∃ a, fields.field? name = some (.cell a) ∧ a < s.length ∧ s.optionsAt a = options

theorem HeldFields.Exports.later {options : Options} (h : fields.Exports s name options)
    (grown : s.Extends s') (ranked : s.Ranked) : fields.Exports s' name options := by
  obtain ⟨a, found, there, same⟩ := h
  exact ⟨a, found, Nat.lt_of_lt_of_le there grown.length_le,
    (grown.optionsAt ranked there).trans same⟩

/-- The exported fields are the named ones, but for the settings, which are copies of the bags. -/
theorem exported_current (ranked : w.store.Ranked) (inside : c.clientSettings < w.store.length)
    (inside' : c.tokenSettings < w.store.length) (named : List (String × Value)) :
    (w.exported c named).2.current (w.exported c named).1.store =
        putValue (putValue named "client_settings" (w.store.read (.cell c.clientSettings)))
          "token_settings" (w.store.read (.cell c.tokenSettings)) ∧
      ("client_settings" ∈ named.map (·.1) → (w.exported c named).2.Exports
        (w.exported c named).1.store "client_settings" (w.store.optionsAt c.clientSettings)) ∧
      ("token_settings" ∈ named.map (·.1) → (w.exported c named).2.Exports
        (w.exported c named).1.store "token_settings" (w.store.optionsAt c.tokenSettings)) := by
  obtain ⟨lays, new⟩ := holdFields_lays w named
  have laid := holdFields_current ranked named
  have names := holdFields_names w named
  have client := readsAs_extends lays.extends ranked inside
  have token := readsAs_extends lays.extends ranked inside'
  have ranked₁ := ranked.lays lays
  simp only [exported]
  generalize w.holdFields named = p at lays new laid names client token ranked₁ ⊢
  obtain ⟨w₁, held⟩ := p
  dsimp only at lays new laid names client token ranked₁ ⊢
  have grows₁ := (Store.copyCell_grows ranked₁ client.lt).1
  have ranked₂ := grows₁.ranked ranked₁
  have token₁ := token.trans (readsAs_extends grows₁.toExtends ranked₁ token.lt)
  have grows₂ := (Store.copyCell_grows ranked₂ token₁.lt).1
  have copy := client.trans (readsAs_copyCell ranked₁ client.lt)
  have client' := copy.trans (readsAs_extends grows₂.toExtends ranked₂ copy.lt)
  have token' := token₁.trans (readsAs_copyCell ranked₂ token₁.lt)
  refine ⟨?_, fun present => ⟨_, ?_, client'.lt, client'.options⟩,
    fun present => ⟨_, HeldFields.field?_put_self ?_, token'.lt, token'.options⟩⟩
  · rw [HeldFields.current_put, HeldFields.current_put,
      HeldFields.current_extends (grows₁.trans grows₂).toExtends ranked₁
        fun f member b at' => (new f member b at').2, laid, client'.read, token'.read]
  · rw [HeldFields.field?_put_ne (by decide)]
    exact HeldFields.field?_put_self (names ▸ present)
  · rw [HeldFields.put_names]
    exact names ▸ present

/-- A settings field with the options of a bag gets a dictionary of the checked ones. -/
theorem keepField_current (ranked : w.store.Ranked)
    (inside : ∀ f ∈ fields, ∀ b, f.2.address? = some b → b < w.store.length)
    {given : HeldFields} {options checked : Options} (exports : given.Exports w.store name options)
    (check : Snapshot.checkEntries name options = .ok checked) :
    (keepField given name (w, fields)).2.current (keepField given name (w, fields)).1.store =
      putValue (fields.current w.store) name (.dict checked) := by
  obtain ⟨a, found, there, rfl⟩ := exports
  rw [Store.optionsAt, Snapshot.checkEntries_map] at check
  cases kept : Snapshot.checkEntries name (w.store.entriesAt a) with
  | error found => simp [kept, Except.map] at check
  | ok es =>
      rw [kept] at check
      cases check
      have below : ∀ e ∈ es, ∀ b, e.2.address? = some b → b < w.store.length := by
        refine Snapshot.checkEntries_values
          (R := fun x => ∀ b, x.address? = some b → b < w.store.length) kept ?_
        intro e listed b at'
        obtain ⟨rank, below⟩ := ranked
        exact (below a b ⟨e.2, Store.mem_parts_of_entriesAt listed, at'⟩).1
      simp only [keepField, found, kept]
      rw [HeldFields.current_put, ranked.read_concat (List.forall_mem_map.mpr below),
        HeldFields.current_extends (.append _ _) ranked inside]
      rfl

theorem onClient_of_named (named : w.named? on = .ok (.client c)) (f : HeldClient → Turn) :
    w.onClient on f = f c := by
  obtain ⟨i, found, present⟩ := handle_of_named named
  exact onObject_of_handle found present _

theorem client_parts_lt (grounded : w.holding.Grounded) (named : w.named? on = .ok (.client c)) :
    ∀ x ∈ (Object.client c).parts, ∀ a, x.address? = some a → a < w.store.length := by
  obtain ⟨i, -, present⟩ := handle_of_named named
  exact parts_lt grounded (List.mem_of_getElem? present)

/-- A snapshot step shows the snapshot of the client. -/
theorem snapshot_display (grounded : w.holding.Grounded) (named : w.named? on = .ok (.client c)) :
    (w.snapshot on).display = (Snapshot.ofClient (c.current w.store)).map fun s =>
      .shown (.snapshot s.named) := by
  have inside := client_parts_lt grounded named
  rw [snapshot, onClient_of_named named]
  cases made : Snapshot.ofClient (c.current w.store) with
  | error e => rfl
  | ok s =>
      obtain ⟨clientChecked, tokenChecked⟩ := Snapshot.options_of_ofClient made
      obtain ⟨fields, client, token⟩ := exported_current grounded.ranked
        (inside _ List.mem_cons_self _ rfl)
        (inside _ (List.mem_cons_of_mem _ List.mem_cons_self) _ rfl) s.named
      have client := client (by simp [Snapshot.named])
      have token := token (by simp [Snapshot.named])
      obtain ⟨grows, free⟩ := exported_grows grounded.ranked inside s.named
      simp only [after, Except.map]
      generalize w.exported c s.named = p at fields client token grows free ⊢
      obtain ⟨w₁, held⟩ := p
      have ranked₁ := grows.ranked grounded.ranked
      obtain ⟨grows₂, more, free₂⟩ :=
        keepField_grows grounded.ranked grows free free "client_settings"
      have first := keepField_current ranked₁ (fun f member => (free f member).lt) client
        clientChecked
      have token₂ := token.later more ranked₁
      simp only [keepEntries]
      generalize keepField held "client_settings" (w₁, held) = q at grows₂ more free₂ first token₂ ⊢
      obtain ⟨w₂, held₂⟩ := q
      have second := keepField_current (grows₂.ranked grounded.ranked)
        (fun f member => (free₂ f member).lt) token₂ tokenChecked
      rw [ofNew_insert_display]
      simp only [shown, second, first, fields]
      rfl

/-- A row step shows the row of the client, with the cells of the bags for the settings. -/
theorem row_display (grounded : w.holding.Grounded) (named : w.named? on = .ok (.client c)) :
    (w.row on).display = (Row.ofClient (c.current w.store)).map fun r =>
      .shown (.row (putValue
        (putValue r.columns "client_settings" (w.store.read (.cell c.clientSettings)))
        "token_settings" (w.store.read (.cell c.tokenSettings)))) := by
  have inside := client_parts_lt grounded named
  rw [row, onClient_of_named named]
  cases made : Row.ofClient (c.current w.store) with
  | error e => rfl
  | ok r =>
      obtain ⟨fields, -, -⟩ := exported_current grounded.ranked
        (inside _ List.mem_cons_self _ rfl)
        (inside _ (List.mem_cons_of_mem _ List.mem_cons_self) _ rfl) r.columns
      simp only [after, Except.map]
      generalize w.exported c r.columns = p at fields ⊢
      rw [ofNew_insert_display]
      simp only [shown, fields]

end Workspace

end ClientRegistry
