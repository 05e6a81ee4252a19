import ClientRegistry.Workspace.Identity

/-! Steps on the registry in memory and on the database. -/

namespace ClientRegistry.Workspace

def listed (w : Workspace) (name : String) : Except Fault Listed := do
  let h ← w.handle? name
  let o ← w.object? h
  match o with
  | .client c => .ok ⟨h, c.client.id, c.client.clientId⟩
  | _ => .error .noAttribute

/-- Puts a registry in the place of an object, or of none, and shows it. -/
def settle (w : Workspace) (x : Outcome (Registry Listed)) (h : Option Handle) : Turn :=
  match x.result, h with
  | .ok r, some h => .ofObject (w.replace h (.registry r)) h x.log
  | .ok r, none =>
    let (w, h) := w.insert (.registry r)
    .ofObject w h x.log
  | .error e, _ => .failLogged w e x.log

def registry (w : Workspace) (clients : List String) : Turn :=
  w.after (clients.mapM w.listed) fun entries => w.settle (Registry.ofList entries) none

def save (w : Workspace) (on client : String) : Turn :=
  w.onRegistry on fun h r => w.after (w.listed client) fun c => w.settle (r.save c) (some h)

/-- The client that was found, or nothing, which cannot be named. -/
def showFound (w : Workspace) : Option Listed → Turn
  | some c => .ofObject w c.handle []
  | none => .ofResult w (.value .null)

def findById (w : Workspace) (on : String) (key : Operand) : Turn :=
  w.onRegistry on fun _ r => w.onHeld key fun w k =>
    w.after (r.findById (w.store.read k)) fun found => w.showFound found

def findByClientId (w : Workspace) (on : String) (key : Operand) : Turn :=
  w.onRegistry on fun _ r => w.onHeld key fun w k =>
    w.after (r.findByClientId (w.store.read k)) fun found => w.showFound found

def namedClient (w : Workspace) (name : String) : Except Fault Client :=
  match w.named? name with
  | .ok (.client c) => .ok (c.current w.store)
  | .ok _ => .error .noAttribute
  | .error e => .error e

/-- The positions of the lines that give a name, the latest first. -/
def positionsOf (before : List WorkLine) (name : String) : List Nat :=
  (before.zipIdx.filterMap fun l => if l.1.name == some name then some l.2 else none).reverse

/-- One line of a unit of work, which may save what earlier lines found. -/
def workStep (w : Workspace) (before : List WorkLine) : WorkAction → Workspace × WorkStep
  | .save client => (w, .saveFound (positionsOf before client) (w.namedClient client))
  | .findById key => match w.held key with
    | .ok (w, k) => (w, .findById (w.store.read k))
    | .error e => (w, .raise e)
  | .findByClientId key => match w.held key with
    | .ok (w, k) => (w, .findByClientId (w.store.read k))
    | .error e => (w, .raise e)
  | .putRow columns => match w.heldNamed columns with
    | .ok (w, given) => match Row.ofNamed (given.current w.store) with
      | .ok r => (w, .putRow r)
      | .error e => (w, .raise e)
    | .error e => (w, .raise e)
  | .raise reason => (w, .raise (.stopped reason))

def workBody (w : Workspace) (before : List WorkLine) : List WorkLine → Workspace × List BodyStep
  | [] => (w, [])
  | line :: rest =>
    let (w, step) := w.workStep before line.action
    let (w, steps) := w.workBody (before ++ [line]) rest
    (w, ⟨step, line.caught⟩ :: steps)

/-- Names what the lines of a unit found. -/
def bindFound (w : Workspace) : List (WorkLine × Except Fault (Option Client)) → Workspace
  | [] => w
  | (line, answer) :: rest =>
    let w := match line.action, line.name, answer with
      | .save _, _, _ => w
      | .putRow _, _, _ => w
      | _, some name, .ok (some c) =>
        let (w, h) := w.insertClient c
        w.bind name h
      | _, _, _ => w
    w.bindFound rest

def onDatabase (w : Workspace) (name : String) (f : Handle → Table → Turn) : Turn :=
  w.onObject name fun h o => match o with
    | .database t => f h t
    | _ => .fail w .noAttribute

/-- Runs a unit of work on a database. Its faults are part of what it shows. -/
def work (w : Workspace) (on : String) (configured : Bool) (lines : List WorkLine) : Turn :=
  w.onDatabase on fun h t =>
    let (w, body) := w.workBody [] lines
    let settled := unitOfWork ⟨configured, none⟩ t body
    let w := (w.replace h (.database settled.table)).bindFound (lines.zip settled.answers)
    ⟨w, .ok (.settled settled), none, settled.log⟩

end ClientRegistry.Workspace
