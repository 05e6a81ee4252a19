import ClientRegistry.Registry.Memory
import ClientRegistry.Registry.Table
import ClientRegistry.Snapshot.Validation
import ClientRegistry.Value.Fresh
import ClientRegistry.Workspace.Copy

/-! A workspace holds named objects. Objects that hold containers hold them by address, so that
the edits of one holder reach the others; `current` reads an object as it is now. -/

namespace ClientRegistry

abbrev Handle := Nat

namespace Workspace

/-- A draft whose settings may be the bags of another holder. -/
structure HeldDraft where
  draft : Draft
  clientSettings : Shared
  tokenSettings : Shared

def HeldDraft.current (s : Store) (d : HeldDraft) : Draft :=
  { d.draft with
    clientSettings := s.read d.clientSettings
    tokenSettings := s.read d.tokenSettings }

/-- A client and the cells of its two bags. -/
structure HeldClient where
  client : Client
  clientSettings : Address
  tokenSettings : Address

def HeldClient.current (s : Store) (c : HeldClient) : Client :=
  { c.client with
    clientSettings := s.optionsAt c.clientSettings
    tokenSettings := s.optionsAt c.tokenSettings }

/-- Named fields, each held on its own: the form of snapshots and rows. -/
abbrev HeldFields := List (String × Shared)

def HeldFields.current (s : Store) (f : HeldFields) : List (String × Value) :=
  f.map fun x => (x.1, s.read x.2)

def HeldFields.put (fields : HeldFields) (name : String) (x : Shared) : HeldFields :=
  fields.map fun f => if f.1 == name then (f.1, x) else f

def HeldFields.field? (fields : HeldFields) (name : String) : Option Shared :=
  (fields.find? fun f => f.1 == name).map (·.2)

def HeldFields.relocate (f : Address → Address) (fields : HeldFields) : HeldFields :=
  fields.map fun x => (x.1, x.2.relocate f)

/-- A client in a registry, known by its handle. -/
structure Listed where
  handle : Handle
  id : Value
  clientId : Value

instance : Registered Listed := ⟨Listed.id, Listed.clientId⟩

inductive Object where
  | value (x : Shared)
  | draft (d : HeldDraft)
  | client (c : HeldClient)
  | settingsDraft (kind : BagKind) (options : Address)
  | snapshot (fields : HeldFields)
  | row (fields : HeldFields)
  | registry (r : Registry Listed)
  | database (t : Table)

namespace Object

def parts : Object → List Shared
  | value x => [x]
  | draft d => [d.clientSettings, d.tokenSettings]
  | client c => [.cell c.clientSettings, .cell c.tokenSettings]
  | settingsDraft _ options => [.cell options]
  | snapshot fields => fields.map (·.2)
  | row fields => fields.map (·.2)
  | registry _ => []
  | database _ => []

def relocate (f : Address → Address) : Object → Object
  | value x => value (x.relocate f)
  | draft d => draft
    { d with
      clientSettings := d.clientSettings.relocate f
      tokenSettings := d.tokenSettings.relocate f }
  | client c => client
    { c with
      clientSettings := f c.clientSettings
      tokenSettings := f c.tokenSettings }
  | settingsDraft kind options => settingsDraft kind (f options)
  | snapshot fields => snapshot (fields.relocate f)
  | row fields => row (fields.relocate f)
  | registry r => registry r
  | database t => database t

end Object

end Workspace

/-- `next` is the next mark for a not-a-number that is read in. -/
structure Workspace where
  store : Store
  objects : List Workspace.Object
  names : List (String × Handle)
  next : Nat

namespace Workspace

def empty : Workspace := ⟨[], [], [], 1⟩

/-- What a step shows of an object, or of its own result. A text that depends on the order of a
set is not shown. -/
inductive Shown where
  | value (v : Value)
  | draft (d : Draft)
  | client (c : Client)
  | settingsDraft (d : SettingsDraft)
  | snapshot (fields : List (String × Value))
  | row (fields : List (String × Value))
  | registry (byId byClientId : List (Value × Value))
  | comparison (equal same : Bool)
  | printed (text : Option (List Char))
  | token (kind : TokenKind) (name : Value)

def handle? (w : Workspace) (name : String) : Except Fault Handle :=
  match w.names.find? fun n => n.1 == name with
  | some (_, h) => .ok h
  | none => .error (.unbound name)

def object? (w : Workspace) (h : Handle) : Except Fault Object :=
  match w.objects[h]? with
  | some o => .ok o
  | none => .error .noAttribute

def named? (w : Workspace) (name : String) : Except Fault Object :=
  (w.handle? name).bind w.object?

/-- The name stands for the object from now on. -/
def bind (w : Workspace) (name : String) (h : Handle) : Workspace :=
  { w with names := (name, h) :: w.names }

def insert (w : Workspace) (o : Object) : Workspace × Handle :=
  ({ w with objects := w.objects ++ [o] }, w.objects.length)

def replace (w : Workspace) (h : Handle) (o : Object) : Workspace :=
  { w with objects := w.objects.set h o }

/-- A value that is read in: laid out in new cells, with marks of its own. -/
def readIn (w : Workspace) (v : Value) : Workspace × Shared :=
  let (v, next) := v.freshen w.next
  let (store, x) := w.store.alloc v
  ({ w with store, next }, x)

def insertValue (w : Workspace) (v : Value) : Workspace × Handle :=
  let (store, x) := w.store.alloc v
  { w with store }.insert (.value x)

/-- A client with bags in cells of their own. -/
def holdClient (w : Workspace) (c : Client) : Workspace × HeldClient :=
  let (store, clientSettings) := w.store.allocOptions c.clientSettings
  let (store, tokenSettings) := store.allocOptions c.tokenSettings
  ({ w with store }, ⟨c, clientSettings, tokenSettings⟩)

def insertClient (w : Workspace) (c : Client) : Workspace × Handle :=
  let (w, held) := w.holdClient c
  w.insert (.client held)

def insertDraft (w : Workspace) (d : Draft) : Workspace × Handle :=
  w.insert (.draft ⟨d, .leaf .null, .leaf .null⟩)

def holdFields (w : Workspace) : List (String × Value) → Workspace × HeldFields
  | [] => (w, [])
  | (name, v) :: rest =>
    let (store, x) := w.store.alloc v
    let (w, fields) := { w with store }.holdFields rest
    (w, (name, x) :: fields)

def insertSnapshot (w : Workspace) (s : Snapshot) : Workspace × Handle :=
  let (w, fields) := w.holdFields s.named
  w.insert (.snapshot fields)

/-- The ids of a listing, each key with the other. -/
def shownRegistry (r : Registry Listed) : Shown :=
  .registry (r.byId.map fun e => (e.1, e.2.clientId)) (r.byClientId.map fun e => (e.1, e.2.id))

def shown (w : Workspace) : Object → Shown
  | .value x => .value (w.store.read x)
  | .draft d => .draft (d.current w.store)
  | .client c => .client (c.current w.store)
  | .settingsDraft kind a => .settingsDraft ⟨kind, w.store.optionsAt a⟩
  | .snapshot f => .snapshot (f.current w.store)
  | .row f => .row (f.current w.store)
  | .registry r => shownRegistry r
  | .database _ => .value .null

/-- The value that an object is; objects of other kinds are no values. -/
def value? (w : Workspace) : Object → Except Fault Value
  | .value x => .ok (w.store.read x)
  | _ => .error .badType

end Workspace

end ClientRegistry
