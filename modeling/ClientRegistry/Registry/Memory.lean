import ClientRegistry.Client.Basic

/-! The registry in memory: entries by id and, again, by client id. A save replaces the entry of
the same id, and is refused if another entry has the client id. -/

namespace ClientRegistry

/-- What the registry needs to know of its entries. -/
class Registered (α : Type) where
  id : α → Value
  clientId : α → Value

instance : Registered Client := ⟨Client.id, Client.clientId⟩

/-- Two indexes of the same entries, both in order of first insertion. -/
structure Registry (α : Type) where
  byId : List (Value × α)
  byClientId : List (Value × α)

namespace Registry

variable {α : Type} [Registered α]

def empty : Registry α := ⟨[], []⟩

def map {β : Type} (f : α → β) (r : Registry α) : Registry β :=
  ⟨r.byId.map fun e => (e.1, f e.2), r.byClientId.map fun e => (e.1, f e.2)⟩

def saved (c : α) : LogRecord :=
  ⟨.info, .registry,
    "Saved registered client id=".toList ++ (Registered.id c).displayed
      ++ " client_id=".toList ++ (Registered.clientId c).displayed,
    [(.registrationId, Registered.id c), (.clientId, Registered.clientId c)], none⟩

def duplicate (c : α) : LogRecord :=
  ⟨.warning, .registry,
    "Rejected duplicate client_id=".toList ++ (Registered.clientId c).displayed,
    [(.registrationId, Registered.id c), (.clientId, Registered.clientId c)], none⟩

/-- Whether the client id belongs to an entry of another id. No id that is not a number is equal
to itself. -/
def taken (r : Registry α) (c : α) : Bool :=
  match Entries.find? r.byClientId (Registered.clientId c) with
  | some owner => !(Registered.id owner).equal (Registered.id c)
  | none => false

/-- The registry with an entry stored; the client id of the entry that it replaces is freed. -/
def store (r : Registry α) (c : α) : Registry α :=
  let freed := match Entries.find? r.byId (Registered.id c) with
    | some previous => Entries.erase r.byClientId (Registered.clientId previous)
    | none => r.byClientId
  ⟨Entries.put r.byId (Registered.id c) c, Entries.put freed (Registered.clientId c) c⟩

/-- Both ids have to be values that can be keys, the client id first. -/
def save (r : Registry α) (c : α) : Outcome (Registry α) :=
  if !(Registered.clientId c).hashable then .fail .badType
  else if r.taken c then .reject (duplicate c) (.alreadyExists (Registered.clientId c))
  else if !(Registered.id c).hashable then .fail .badType
  else do
    Outcome.record (saved c)
    pure (r.store c)

/-- The registry of a list of entries, saved in order; the first refused entry ends it. -/
def ofList (entries : List α) : Outcome (Registry α) :=
  go empty entries
where
  go (r : Registry α) : List α → Outcome (Registry α)
    | [] => pure r
    | c :: rest => do
      let r' ← r.save c
      go r' rest

/-- An empty key is refused. -/
def findById (r : Registry α) (key : Value) : Except Fault (Option α) :=
  if !key.truthy then .error (.emptyArgument "id")
  else if !key.hashable then .error .badType
  else .ok (Entries.find? r.byId key)

def findByClientId (r : Registry α) (key : Value) : Except Fault (Option α) :=
  if !key.truthy then .error (.emptyArgument "client_id")
  else if !key.hashable then .error .badType
  else .ok (Entries.find? r.byClientId key)

end Registry

end ClientRegistry
