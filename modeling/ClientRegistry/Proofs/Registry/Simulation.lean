import ClientRegistry.Proofs.Registry.Index
import ClientRegistry.Proofs.Row.RoundTrip
import ClientRegistry.Registry.UnitOfWork
import Mathlib.Data.List.Forall2

/-! The registry over a table does what the registry in memory does. The table has one row for
each entry, in the same order; a call keeps it so, and what it answers on either side agrees. -/

namespace ClientRegistry

/-- The calls that both registries know. -/
inductive Call where
  | save (c : Client)
  | findById (key : Value)
  | findByClientId (key : Value)

abbrev Answer := Except Fault (Option Client)

/-- The same fault, nothing on both sides, or the same client. -/
inductive Answer.Agree : Answer → Answer → Prop
  | fault (e : Fault) : Agree (.error e) (.error e)
  | nothing : Agree (.ok none) (.ok none)
  | client {c d : Client} (same : c.same d = true) : Agree (.ok (some c)) (.ok (some d))

/-- Clients that can be stored and keys that can be looked up; an empty key is refused before
it is looked up. -/
def Call.Admissible : Call → Prop
  | .save c => c.Storable
  | .findById key => key.truthy = true → key.hashable = true
  | .findByClientId key => key.truthy = true → key.hashable = true

/-- A call on the registry in memory, and its answer. -/
def Registry.perform (r : Registry Client) : Call → Registry Client × Answer
  | .save c => match (r.save c).result with
    | .ok r' => (r', .ok none)
    | .error e => (r, .error e)
  | .findById key => (r, r.findById key)
  | .findByClientId key => (r, r.findByClientId key)

/-- The answers to calls made one after the other. -/
def Registry.answers (r : Registry Client) : List Call → List Answer
  | [] => []
  | call :: rest => (r.perform call).2 :: (r.perform call).1.answers rest

/-- A call as a step of a unit of work; the caller goes on after a fault. -/
def Call.step : Call → BodyStep
  | .save c => ⟨.save c, true⟩
  | .findById key => ⟨.findById key, true⟩
  | .findByClientId key => ⟨.findByClientId key, true⟩

/-- The work that calls do on a table. -/
def Table.work (t : Table) (calls : List Call) : Work :=
  ((Work.start t).run (calls.map Call.step)).1

/-- One row for each entry, written from its client. -/
structure Table.Mirrors (t : Table) (r : Registry Client) : Prop where
  indexed : r.Indexed
  storable : ∀ e ∈ r.byId, e.2.Storable
  rows : List.Forall₂ (fun e row => Row.ofClient e.2 = .ok row) r.byId t

namespace Table

variable {t : Table} {r : Registry Client} {es : List (Value × Client)} {c : Client} {row : Row}

/-- A row written from a client takes the place that the client takes. -/
theorem merge_rows (own : ∀ e ∈ es, e.1 = e.2.id) (keyed : Entries.Keyed es)
    (rows : List.Forall₂ (fun e row => Row.ofClient e.2 = .ok row) es t)
    (written : Row.ofClient c = .ok row) (text : c.id.IsText) :
    List.Forall₂ (fun e row => Row.ofClient e.2 = .ok row) (Entries.put es c.id c)
      (t.merge row) := by
  induction rows with
  | nil => exact .cons written .nil
  | @cons e r es t first rest ih =>
      have ids : r.id.same row.id = c.id.same e.1 := by
        rw [Row.id_of_ofClient first, Row.id_of_ofClient written, ← own e List.mem_cons_self,
          Bool.eq_iff_iff, text.iff_same, text.same_iff]
      rw [List.forall_mem_cons] at own
      simp only [Entries.put, merge, ids]
      split
      · exact .cons written rest
      · exact .cons first (ih own.2 keyed.tail)

theorem get?_rows (own : ∀ e ∈ es, e.1 = e.2.id) (keyed : Entries.Keyed es)
    (rows : List.Forall₂ (fun e row => Row.ofClient e.2 = .ok row) es t) (key : Value) :
    match Entries.find? es key with
    | none => t.get? key = none
    | some c => ∃ row, t.get? key = some row ∧ Row.ofClient c = .ok row := by
  induction rows with
  | nil => rfl
  | @cons e r es t first rest ih =>
      have ids : r.id.same key = key.same e.1 := by
        have text := keyed.head_text
        rw [Row.id_of_ofClient first, ← own e List.mem_cons_self, Bool.eq_iff_iff, text.iff_same,
          text.same_iff]
      rw [List.forall_mem_cons] at own
      simp only [Entries.find?, List.find?_cons, get?, ids] at ih ⊢
      cases key.same e.1 with
      | true => exact ⟨r, rfl, first⟩
      | false => exact ih own.2 keyed.tail

/-- The rows with a client id are the row of the entry that has it, or none. -/
theorem withClientId_rows (keyed : Entries.Keyed es) (texts : ∀ e ∈ es, e.2.clientId.IsText)
    (sole : ∀ e ∈ es, ∀ f ∈ es, e.2.clientId = f.2.clientId → e = f)
    (rows : List.Forall₂ (fun e row => Row.ofClient e.2 = .ok row) es t) (x : Value) :
    (t.withClientId x = [] ∧ ∀ e ∈ es, e.2.clientId ≠ x) ∨
      ∃ e ∈ es, e.2.clientId = x ∧ ∃ row, t.withClientId x = [row] ∧ Row.ofClient e.2 = .ok row := by
  induction rows with
  | nil => exact .inl ⟨rfl, fun _ member => absurd member List.not_mem_nil⟩
  | @cons e r es t first rest ih =>
      have ih := ih keyed.tail (fun f member => texts f (List.mem_cons_of_mem e member))
        fun f hf g hg => sole f (List.mem_cons_of_mem e hf) g (List.mem_cons_of_mem e hg)
      have text := texts e List.mem_cons_self
      simp only [withClientId, List.filter_cons, Row.clientId_of_ofClient first] at ih ⊢
      by_cases here : e.2.clientId = x
      · rw [if_pos (text.same_iff.mpr here.symm)]
        rcases ih with ⟨empty, _⟩ | ⟨f, member, there, _⟩
        · exact .inr ⟨e, List.mem_cons_self, here, r, by rw [empty], first⟩
        · -- A second row would belong to an entry that is listed twice.
          have twice := sole e List.mem_cons_self f (List.mem_cons_of_mem e member)
            (here.trans there.symm)
          exact absurd (twice ▸ member) (keyed.head_notin e.2)
      · rw [if_neg fun same => here (text.same_iff.mp same).symm]
        rcases ih with ⟨empty, absent⟩ | ⟨f, member, found⟩
        · exact .inl ⟨empty, List.forall_mem_cons.mpr ⟨here, absent⟩⟩
        · exact .inr ⟨f, List.mem_cons_of_mem e member, found⟩

theorem empty_mirrors : Mirrors [] Registry.empty where
  indexed := Registry.empty_indexed
  storable _ member := absurd member List.not_mem_nil
  rows := .nil

theorem Mirrors.get?_none (h : t.Mirrors r) {key : Value}
    (absent : Entries.find? r.byId key = none) : t.get? key = none := by
  have found := get?_rows h.indexed.ids h.indexed.byId h.rows key
  rw [absent] at found
  exact found

theorem Mirrors.get?_some (h : t.Mirrors r) {key : Value}
    (listed : Entries.find? r.byId key = some c) :
    c.Storable ∧ ∃ row, t.get? key = some row ∧ Row.ofClient c = .ok row := by
  have found := get?_rows h.indexed.ids h.indexed.byId h.rows key
  rw [listed] at found
  exact ⟨h.storable _ ((Entries.find?_eq_some h.indexed.byId).mp listed), found⟩

/-- Two entries with one client id are one entry. -/
theorem Mirrors.sole (h : t.Mirrors r) {e f : Value × Client} (he : e ∈ r.byId) (hf : f ∈ r.byId)
    (same : e.2.clientId = f.2.clientId) : e = f := by
  have left : (e.2.clientId, e.2) ∈ r.byClientId := h.indexed.mem_byClientId he
  have right : (f.2.clientId, f.2) ∈ r.byClientId := h.indexed.mem_byClientId hf
  have clients : e.2 = f.2 := h.indexed.byClientId.unique (same ▸ left) right
  have ids : e.1 = f.1 := by rw [h.indexed.ids e he, h.indexed.ids f hf, clients]
  exact Prod.ext ids clients

theorem Mirrors.withClientId (h : t.Mirrors r) (x : Value) :
    (t.withClientId x = [] ∧ ∀ e ∈ r.byId, e.2.clientId ≠ x) ∨
      ∃ e ∈ r.byId, e.2.clientId = x ∧
        ∃ row, t.withClientId x = [row] ∧ Row.ofClient e.2 = .ok row :=
  withClientId_rows h.indexed.byId (fun _ member => (h.indexed.named member).clientId)
    (fun _ he _ hf => h.sole he hf) h.rows x

theorem Mirrors.withClientId_none (h : t.Mirrors r) {x : Value}
    (absent : Entries.find? r.byClientId x = none) : t.withClientId x = [] := by
  rcases h.withClientId x with ⟨empty, _⟩ | ⟨e, member, here, _⟩
  · exact empty
  · have listed := h.indexed.mem_byClientId member
    exact absurd (here ▸ listed) ((Entries.find?_eq_none h.indexed.byClientId).mp absent e.2)

theorem Mirrors.withClientId_some (h : t.Mirrors r) {x : Value}
    (listed : Entries.find? r.byClientId x = some c) :
    c.Storable ∧ ∃ row, t.withClientId x = [row] ∧ Row.ofClient c = .ok row := by
  have member := (Entries.find?_eq_some h.indexed.byClientId).mp listed
  rcases h.withClientId x with ⟨_, absent⟩ | ⟨e, member', here, row, sole, written⟩
  · exact absurd (h.indexed.clientIds _ member).symm
      (absent (c.id, c) (h.indexed.mem_byId member))
  · have eq : e.2 = c :=
      h.indexed.byClientId.unique (here ▸ h.indexed.mem_byClientId member') member
    exact ⟨eq ▸ h.storable e member', row, sole, eq ▸ written⟩

/-- Whether the row with the client id of a client belongs to another client. -/
def foreign (c : Client) : Option Row → Bool
  | some row => !row.id.isNull && !row.id.same c.id
  | none => false

/-- The table finds the client id of a client taken exactly when the registry in memory does. -/
theorem Mirrors.owner (h : t.Mirrors r) (c : Client) :
    ∃ owner, single? (t.withClientId c.clientId) = .ok owner ∧ foreign c owner = r.taken c := by
  unfold Registry.taken
  cases listed : Entries.find? r.byClientId (Registered.clientId c) with
  | none => exact ⟨none, by rw [h.withClientId_none (x := c.clientId) listed]; rfl, rfl⟩
  | some d =>
      obtain ⟨storable, row, sole, written⟩ := h.withClientId_some (x := c.clientId) listed
      refine ⟨some row, by rw [sole]; rfl, ?_⟩
      obtain ⟨s, named⟩ := storable.id
      simp [foreign, Row.id_of_ofClient written, Registered.id, named, Value.isNull, Value.equal,
        Value.isNaN]

theorem Mirrors.store (h : t.Mirrors r) (storable : c.Storable) (free : r.taken c = false)
    (written : Row.ofClient c = .ok row) : (t.merge row).Mirrors (r.store c) where
  indexed := Registry.store_indexed h.indexed ⟨storable.id, storable.clientId⟩ free
  storable e member := by
    rcases (Registry.mem_store_byId h.indexed).mp member with rfl | ⟨old, _⟩
    · exact storable
    · exact h.storable e old
  rows := merge_rows h.indexed.ids h.indexed.byId h.rows written storable.id

end Table

theorem Session.save_eq {s : Session} {c : Client} {owner : Option Row} {row : Row}
    (single : Table.single? (s.table.withClientId c.clientId) = .ok owner)
    (written : Row.ofClient c = .ok row) :
    (s.save c).2 =
        (if Table.foreign c owner then .error (.alreadyExists c.clientId) else .ok ()) ∧
      (s.save c).1.table = if Table.foreign c owner then s.table else s.table.merge row := by
  simp only [save, note, single, written]
  cases owner with
  | none => exact ⟨rfl, rfl⟩
  | some other =>
      simp only [Table.foreign]
      rcases Bool.eq_false_or_eq_true (!other.id.isNull && !other.id.same c.id) with taken | free
      · simp only [taken, if_true, and_self]
      · simp only [free, Bool.false_eq_true, if_false, and_self]

theorem Session.save_agrees {s : Session} {r : Registry Client} {c : Client}
    (h : s.table.Mirrors r) (storable : c.Storable) :
    Answer.Agree (r.perform (.save c)).2 ((s.save c).2.map fun _ => none) ∧
      (s.save c).1.table.Mirrors (r.perform (.save c)).1 := by
  obtain ⟨owner, single, foreign⟩ := h.owner c
  obtain ⟨row, written⟩ := Row.exists_ofClient storable
  obtain ⟨answer, table⟩ := save_eq single written
  have memory := Registry.save_result r (c := c) ⟨storable.id, storable.clientId⟩
  rw [answer, table, foreign]
  cases taken : r.taken c with
  | true =>
      simp only [taken, if_true] at memory ⊢
      simp only [Registry.perform, memory]
      exact ⟨.fault _, h⟩
  | false =>
      simp only [taken, Bool.false_eq_true, if_false] at memory ⊢
      simp only [Registry.perform, memory]
      exact ⟨.nothing, h.store storable taken written⟩

theorem Session.rebuilt_agrees {c : Client} {row : Row} (storable : c.Storable)
    (written : Row.ofClient c = .ok row) :
    Answer.Agree (.ok (some c)) (rebuilt (some row)).result := by
  obtain ⟨d, read, same⟩ := Row.toClient_same storable written
  have found : (rebuilt (some row)).result = .ok (some d) := by
    simp only [rebuilt, Outcome.bind_eq_ok, Outcome.pure_result]
    exact ⟨d, read, rfl⟩
  rw [found]
  exact .client same

theorem Session.findById_agrees {s : Session} {r : Registry Client} {key : Value}
    (h : s.table.Mirrors r) (hashable : key.truthy = true → key.hashable = true) :
    Answer.Agree (r.findById key) (s.findById key).2.result ∧ (s.findById key).1.table = s.table := by
  cases present : key.truthy with
  | false =>
      simp only [Registry.findById, Session.findById, present, Bool.not_false, if_true]
      exact ⟨.fault _, trivial⟩
  | true =>
      simp only [Registry.findById, Session.findById, present, hashable present, Bool.not_true,
        Bool.false_eq_true, if_false]
      refine ⟨?_, rfl⟩
      cases listed : Entries.find? r.byId key with
      | none =>
          rw [h.get?_none listed]
          exact .nothing
      | some c =>
          obtain ⟨storable, row, found, written⟩ := h.get?_some listed
          rw [found]
          exact rebuilt_agrees storable written

theorem Session.findByClientId_agrees {s : Session} {r : Registry Client} {key : Value}
    (h : s.table.Mirrors r) (hashable : key.truthy = true → key.hashable = true) :
    Answer.Agree (r.findByClientId key) (s.findByClientId key).2.result ∧
      (s.findByClientId key).1.table = s.table := by
  cases present : key.truthy with
  | false =>
      simp only [Registry.findByClientId, Session.findByClientId, present, Bool.not_false, if_true]
      exact ⟨.fault _, trivial⟩
  | true =>
      simp only [Registry.findByClientId, Session.findByClientId, present, hashable present,
        Bool.not_true, Bool.false_eq_true, if_false, Session.note]
      cases listed : Entries.find? r.byClientId key with
      | none =>
          rw [h.withClientId_none listed]
          exact ⟨.nothing, rfl⟩
      | some c =>
          obtain ⟨storable, row, found, written⟩ := h.withClientId_some listed
          rw [found]
          exact ⟨rebuilt_agrees storable written, rfl⟩

namespace Work

variable {w : Work} {r : Registry Client}

theorem answers_save (w : Work) (c : Client) :
    (w.save c).1.answers = w.answers ++ [(w.session.save c).2.map fun _ => none] := by
  unfold save
  rcases w.session.save c with ⟨session, _ | _⟩
  · rfl
  · rfl

theorem session_save (w : Work) (c : Client) :
    (w.save c).1.session = (w.session.save c).1 := by
  unfold save
  rcases w.session.save c with ⟨session, _ | _⟩
  · rfl
  · rfl

theorem answers_answer (w : Work) (found : Session × Outcome (Option Client)) :
    (perform.answer w found).1.answers = w.answers ++ [found.2.result] := by
  unfold perform.answer
  cases found.2.result <;> rfl

theorem session_answer (w : Work) (found : Session × Outcome (Option Client)) :
    (perform.answer w found).1.session = found.1 := by
  unfold perform.answer
  cases found.2.result <;> rfl

/-- One call on both sides. -/
theorem perform_agrees (h : w.session.table.Mirrors r) {call : Call} (admissible : call.Admissible) :
    ∃ answer, (w.perform call.step.step).1.answers = w.answers ++ [answer] ∧
      (r.perform call).2.Agree answer ∧
      (w.perform call.step.step).1.session.table.Mirrors (r.perform call).1 := by
  cases call with
  | save c =>
      obtain ⟨agree, mirrors⟩ := Session.save_agrees h admissible
      refine ⟨_, answers_save w c, agree, ?_⟩
      simp only [Call.step, perform, session_save]
      exact mirrors
  | findById key =>
      obtain ⟨agree, kept⟩ := Session.findById_agrees h admissible
      refine ⟨_, answers_answer w _, agree, ?_⟩
      simp only [Call.step, perform, session_answer, kept]
      exact h
  | findByClientId key =>
      obtain ⟨agree, kept⟩ := Session.findByClientId_agrees h admissible
      refine ⟨_, answers_answer w _, agree, ?_⟩
      simp only [Call.step, perform, session_answer, kept]
      exact h

theorem run_step (w : Work) (call : Call) (rest : List BodyStep) :
    w.run (call.step :: rest) = (w.perform call.step.step).1.run rest := by
  have caught : call.step.caught = true := by cases call <;> rfl
  rw [run]
  rcases w.perform call.step.step with ⟨w', _ | e⟩
  · rfl
  · simp only [caught, if_true]

/-- A run of calls on both sides. -/
theorem run_agrees (h : w.session.table.Mirrors r) {calls : List Call}
    (admissible : ∀ call ∈ calls, call.Admissible) :
    ∃ answers, (w.run (calls.map Call.step)).1.answers = w.answers ++ answers ∧
      List.Forall₂ Answer.Agree (r.answers calls) answers ∧
      ∃ r' : Registry Client, (w.run (calls.map Call.step)).1.session.table.Mirrors r' := by
  induction calls generalizing w r with
  | nil => exact ⟨[], (List.append_nil _).symm, .nil, r, h⟩
  | cons call rest ih =>
      rw [List.forall_mem_cons] at admissible
      obtain ⟨answer, answered, agree, mirrors⟩ := perform_agrees h admissible.1
      obtain ⟨answers, run, agrees, r', mirrors'⟩ := ih mirrors admissible.2
      rw [List.map_cons, run_step]
      refine ⟨answer :: answers, ?_, .cons agree agrees, r', mirrors'⟩
      rw [run, answered, List.append_assoc]
      rfl

end Work

/-- From an empty registry and an empty table, calls are answered alike, and after any calls no
client id has two rows. -/
theorem Table.work_agrees (calls : List Call) (admissible : ∀ call ∈ calls, call.Admissible) :
    List.Forall₂ Answer.Agree (Registry.empty.answers calls) (Table.work [] calls).answers ∧
      ∀ x, ((Table.work [] calls).session.table.withClientId x).length ≤ 1 := by
  have empty : (Work.start []).session.table.Mirrors Registry.empty := Table.empty_mirrors
  obtain ⟨answers, answered, agree, r, mirrors⟩ := Work.run_agrees empty admissible
  constructor
  · rw [Table.work, answered]
    exact agree
  · intro x
    rcases mirrors.withClientId x with ⟨none, _⟩ | ⟨_, _, _, _, sole, _⟩
    · simp only [Table.work, none, List.length_nil, Nat.zero_le]
    · simp only [Table.work, sole, List.length_singleton, Nat.le_refl]

/-- A client with unsorted scopes, a redirect URI and an option of many parts. -/
def shop (id clientId : String) : Client :=
  ⟨.text id, .text clientId, .null, .text "s3cret", .null, .text "Shop", [clientSecretBasic],
    [authorizationCode, .token .grantType (.text "refresh_token")],
    [.text "https://shop.example/cb"], [.text "write", .text "read"],
    [(.text "origins", .list [.text "shop", .set [.int 1, .null]])], []⟩

theorem shop_storable (id clientId : String) (named : id ≠ "") (named' : clientId ≠ "") :
    (shop id clientId).Storable where
  accepted := {
    id := by simpa [shop, Value.truthy] using named
    clientId := by simpa [shop, Value.truthy] using named'
    name := rfl
    grants := by simp [shop]
    methods := by simp [shop]
    redirects := by simp [shop]
    scopes := by
      simp [shop, Validation.scopeOk]
      decide +kernel
    redirectUris := by
      simp [shop, Validation.redirectUriOk]
      decide +kernel }
  id := ⟨id, rfl⟩
  clientId := ⟨clientId, rfl⟩
  methods := by simp [shop, Value.IsNamedToken, clientSecretBasic]
  grants := by simp [shop, Value.IsNamedToken, authorizationCode]
  scopes := by simp [shop, Value.IsText]
  methodsOnce := by simp [shop]
  grantsOnce := by simp [shop, authorizationCode]
  redirectUrisOnce := by simp [shop]
  scopesOnce := by simp [shop]
  clientSettings := ⟨by simp [shop, Value.IsText], by simp [shop]⟩
  tokenSettings := .nil

/-- A client id that is refused, found, left and taken over, and keys that nothing has. -/
def visits : List Call :=
  [.save (shop "a" "x"), .save (shop "b" "x"), .findByClientId (.text "x"), .findById (.text ""),
    .save (shop "a" "y"), .save (shop "b" "x"), .findByClientId (.text "y"), .findById (.text "c"),
    .findById .null]

theorem visits_agree :
    List.Forall₂ Answer.Agree (Registry.empty.answers visits) (Table.work [] visits).answers ∧
      ∀ x, ((Table.work [] visits).session.table.withClientId x).length ≤ 1 := by
  refine Table.work_agrees visits ?_
  simp [visits, Call.Admissible, shop_storable, Value.hashable]

end ClientRegistry
