import ClientRegistry.Workspace.Turn

/-! Equality and identity of objects. Values, clients and snapshots are equal by content, other
objects only to themselves; a number of small values exist only once. -/

namespace ClientRegistry.Workspace

/-- Values of which there is only one. -/
def single : Value → Value → Bool
  | .null, .null => true
  | .bool a, .bool b => a == b
  | .int m, .int n => m == n && -5 ≤ m && m ≤ 256
  | .text s, .text t => s == t && s.length ≤ 1 && s.toList.all fun c => c.toNat < 256
  | .bytes a, .bytes b => a == b && a.length ≤ 1
  | .tuple [], .tuple [] => true
  | _, _ => false

def sameHeld (s : Store) (x y : Shared) : Bool :=
  match x, y with
  | .cell a, .cell b => a == b || single (s.read x) (s.read y)
  | .bag _ a, .bag _ b => a == b
  | x, y => single (s.read x) (s.read y)

def isSame (w : Workspace) (a b : Handle) : Bool :=
  a == b || (match w.objects[a]?, w.objects[b]? with
    | some (.value x), some (.value y) => sameHeld w.store x y
    | _, _ => false)

def isEqual (w : Workspace) (a b : Handle) : Bool :=
  match w.objects[a]?, w.objects[b]? with
  | some (.value x), some (.value y) => (w.store.read x).equal (w.store.read y)
  | some (.client c), some (.client d) => (c.current w.store).same (d.current w.store)
  | some (.snapshot f), some (.snapshot g) =>
    Value.sameList ((f.current w.store).map (·.2)) ((g.current w.store).map (·.2))
  | _, _ => a == b

/-- What a hash depends on: the content, or the object itself. -/
inductive Footprint where
  | content (d : Digest)
  | object (h : Handle)

def Footprint.agree : Footprint → Footprint → Bool
  | .content d, .content e => d.agree e
  | .object h, .object i => h == i
  | _, _ => false

/-- Objects that can change in content have no hash. -/
def footprint (w : Workspace) (h : Handle) : Except Fault Footprint :=
  match w.objects[h]? with
  | some (.value x) =>
    let v := w.store.read x
    if v.hashable then .ok (.content v.digest) else .error .badType
  | some (.client c) =>
    let c := c.current w.store
    if c.values.all Value.hashable then .ok (.content c.digest) else .error .badType
  | some (.snapshot _) => .error .badType
  | _ => .ok (.object h)

/-- The first of each group of objects that are the same or equal. -/
def distinctFrom (w : Workspace) (kept : List Handle) : List Handle → List Handle
  | [] => kept
  | h :: rest =>
    if kept.any fun k => w.isSame k h || w.isEqual k h then distinctFrom w kept rest
    else distinctFrom w (kept ++ [h]) rest

/-- The printed form of an object, if no set in it leaves the order open. -/
def printedObject (w : Workspace) : Object → Option (List Char)
  | .value x =>
    let v := w.store.read x
    if v.isOrdered then some v.printed else none
  | .client c =>
    let c := c.current w.store
    if c.shownFields.all fun f => f.2.isOrdered then some c.printed else none
  | .snapshot f =>
    let named := f.current w.store
    if named.all fun f => f.2.isOrdered then some (Snapshot.printedNamed named) else none
  | _ => none

def clientAt? (w : Workspace) (h : Handle) : Option HeldClient :=
  match w.objects[h]? with
  | some (.client c) => some c
  | _ => none

/-- The clients of a registry, each once. -/
def listedClients (w : Workspace) (r : Registry Listed) : List (Handle × HeldClient) :=
  ((r.byId ++ r.byClientId).map fun e => e.2.handle).eraseDups.filterMap fun h =>
    (w.clientAt? h).map fun c => (h, c)

def partsOf (w : Workspace) : Object → List Shared
  | .registry r => (w.listedClients r).flatMap fun c => (Object.client c.2).parts
  | o => o.parts

/-- Clients with their bags elsewhere. -/
def relocated (f : Address → Address) (clients : List (Handle × HeldClient)) :
    List (Handle × Object) :=
  clients.map fun c => (c.1, (Object.client c.2).relocate f)

/-- Puts the copies of a registry's clients in its place, and the registry that lists them. -/
def insertRegistry (w : Workspace) (clients : List (Handle × Object)) (r : Registry Listed) :
    Workspace × Handle :=
  let (handles, copies) := clients.unzip
  let moved := fun (c : Listed) =>
    { c with handle := w.objects.length + handles.idxOf c.handle }
  { w with objects := w.objects ++ copies }.insert (.registry (r.map moved))

/-- A copy of an object that shares nothing with it that can change. -/
def copyObject (w : Workspace) (o : Object) : Workspace × Handle :=
  let (store, f) := w.store.copied (w.partsOf o)
  let w' := { w with store }
  match o with
  | .registry r => w'.insertRegistry (relocated f (w.listedClients r)) r
  | o => w'.insert (o.relocate f)

/-- A deep copy; what nothing can change is its own copy. -/
def deepCopyOf (w : Workspace) (h : Handle) (o : Object) : Workspace × Handle :=
  match o with
  | .value (.leaf v) => if v.isFixed then (w, h) else w.copyObject o
  | .value (.cell a) => if w.store.isFixed a then (w, h) else w.copyObject o
  | _ => w.copyObject o

/-- A client with marks of its own for the not-a-numbers outside its bags. -/
def HeldClient.freshen (next : Nat) (c : HeldClient) : HeldClient × Nat :=
  let (id, next) := c.client.id.freshen next
  let (clientId, next) := c.client.clientId.freshen next
  let (issuedAt, next) := c.client.issuedAt.freshen next
  let (secret, next) := c.client.secret.freshen next
  let (secretExpiresAt, next) := c.client.secretExpiresAt.freshen next
  let (name, next) := c.client.name.freshen next
  let (methods, next) := Value.freshenList next c.client.methods
  let (grants, next) := Value.freshenList next c.client.grants
  let (redirectUris, next) := Value.freshenList next c.client.redirectUris
  let (scopes, next) := Value.freshenList next c.client.scopes
  let client := ⟨id, clientId, issuedAt, secret, secretExpiresAt, name, methods, grants,
    redirectUris, scopes, c.client.clientSettings, c.client.tokenSettings⟩
  ({ c with client }, next)

def freshenClients (next : Nat) : List (Handle × HeldClient) → List (Handle × HeldClient) × Nat
  | [] => ([], next)
  | (h, c) :: rest =>
    let (c, next) := c.freshen next
    let (cs, next) := freshenClients next rest
    ((h, c) :: cs, next)

/-- A copy by way of bytes: not-a-numbers get new marks, and no key of a registry that is one
finds its client again. -/
def pickleOf (w : Workspace) (o : Object) : Workspace × Handle :=
  let (store, f, next) := w.store.transferred w.next (w.partsOf o)
  let w' := { w with store, next }
  match o.relocate f with
  | .value x =>
    let (y, next) := x.freshen next
    { w' with next }.insert (.value y)
  | .client c =>
    let (c, next) := c.freshen next
    { w' with next }.insert (.client c)
  | .registry r =>
    let (clients, next) := freshenClients next (w.listedClients r)
    let (byId, next) := Entries.freshenKeys next r.byId
    let (byClientId, next) := Entries.freshenKeys next r.byClientId
    { w' with next }.insertRegistry (relocated f clients) ⟨byId, byClientId⟩
  | copy => w'.insert copy

end ClientRegistry.Workspace
