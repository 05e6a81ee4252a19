import ClientRegistry.Workspace.Action

/-! One turn of a workspace: the workspace after a step, what the step shows or why it failed,
and what it logged. A failed step may have changed the workspace. -/

namespace ClientRegistry.Workspace

/-- What a successful step shows. -/
inductive Display where
  | shown (s : Shown)
  | settled (s : Settled)

/-- `object` is what a name given to the step will stand for. -/
structure Turn where
  workspace : Workspace
  display : Except Fault Display
  object : Option Handle
  log : List LogRecord

namespace Turn

def fail (w : Workspace) (e : Fault) : Turn := ⟨w, .error e, none, []⟩

def failLogged (w : Workspace) (e : Fault) (log : List LogRecord) : Turn := ⟨w, .error e, none, log⟩

def ofObject (w : Workspace) (h : Handle) (log : List LogRecord) : Turn :=
  match w.object? h with
  | .ok o => ⟨w, .ok (.shown (w.shown o)), some h, log⟩
  | .error e => ⟨w, .error e, none, log⟩

def ofNew (p : Workspace × Handle) : Turn := ofObject p.1 p.2 []

def ofResult (w : Workspace) (s : Shown) : Turn := ⟨w, .ok (.shown s), none, []⟩

/-- Shows an object that edits were made to, unless one of them failed. -/
def ofEdited (w : Workspace) (h : Handle) : Option Fault → Turn
  | none => ofObject w h []
  | some e => fail w e

/-- The client of an outcome as a new object. -/
def ofOutcome (w : Workspace) (x : Outcome Client) (insert : Client → Workspace × Handle) : Turn :=
  match x.result with
  | .ok c =>
    let (w, h) := insert c
    ofObject w h x.log
  | .error e => failLogged w e x.log

end Turn

/-- Goes on with a result, or fails. -/
def after {α : Type} (w : Workspace) (r : Except Fault α) (f : α → Turn) : Turn :=
  match r with
  | .ok a => f a
  | .error e => .fail w e

/-- Goes on with a named object. -/
def onObject (w : Workspace) (name : String) (f : Handle → Object → Turn) : Turn :=
  w.after (w.handle? name) fun h => w.after (w.object? h) fun o => f h o

def onDraft (w : Workspace) (name : String) (f : Handle → HeldDraft → Turn) : Turn :=
  w.onObject name fun h o => match o with
    | .draft d => f h d
    | _ => .fail w .noAttribute

def onClient (w : Workspace) (name : String) (f : HeldClient → Turn) : Turn :=
  w.onObject name fun _ o => match o with
    | .client c => f c
    | _ => .fail w .noAttribute

/-- Goes on with a draft of a bag, known by the cell of its options. -/
def onSettingsDraft (w : Workspace) (name : String) (f : Handle → BagKind → Address → Turn) :
    Turn :=
  w.onObject name fun h o => match o with
    | .settingsDraft kind a => f h kind a
    | _ => .fail w .noAttribute

/-- Goes on with a bag, known by the cell of its options. -/
def onBag (w : Workspace) (name : String) (f : BagKind → Address → Turn) : Turn :=
  w.onObject name fun _ o => match o with
    | .value (.bag kind a) => f kind a
    | _ => .fail w .noAttribute

def onRegistry (w : Workspace) (name : String) (f : Handle → Registry Listed → Turn) : Turn :=
  w.onObject name fun h o => match o with
    | .registry r => f h r
    | _ => .fail w .noAttribute

/-- The object of an operand; a value given in place is a new object. -/
def operand (w : Workspace) : Operand → Except Fault (Workspace × Handle)
  | .variable name => (w.handle? name).map fun h => (w, h)
  | .given v =>
    let (w, x) := w.readIn v
    .ok (w.insert (.value x))

def held (w : Workspace) : Operand → Except Fault (Workspace × Shared)
  | .given v => .ok (w.readIn v)
  | .variable name => match w.named? name with
    | .ok (.value x) => .ok (w, x)
    | .ok _ => .error .badType
    | .error e => .error e

def heldAll (w : Workspace) : List Operand → Except Fault (Workspace × List Shared)
  | [] => .ok (w, [])
  | x :: xs => do
    let (w, y) ← w.held x
    let (w, ys) ← w.heldAll xs
    .ok (w, y :: ys)

def heldNamed (w : Workspace) : List (String × Operand) → Except Fault (Workspace × HeldFields)
  | [] => .ok (w, [])
  | (name, x) :: rest => do
    let (w, y) ← w.held x
    let (w, ys) ← w.heldNamed rest
    .ok (w, (name, y) :: ys)

def readInAll (w : Workspace) : List Value → Workspace × List Shared
  | [] => (w, [])
  | v :: vs =>
    let (w, x) := w.readIn v
    let (w, xs) := w.readInAll vs
    (w, x :: xs)

def readInEdits (w : Workspace) : List (Edit Value) → Workspace × List (Edit Shared)
  | [] => (w, [])
  | .stop reason :: rest =>
    let (w, es) := w.readInEdits rest
    (w, .stop reason :: es)
  | .call method args :: rest =>
    let (w, xs) := w.readInAll args
    let (w, es) := w.readInEdits rest
    (w, .call method xs :: es)

def operands (w : Workspace) : List Operand → Except Fault (Workspace × List Handle)
  | [] => .ok (w, [])
  | x :: xs => do
    let (w, h) ← w.operand x
    let (w, hs) ← w.operands xs
    .ok (w, h :: hs)

/-- Goes on with the value of an operand, and with how it is held. -/
def onHeld (w : Workspace) (x : Operand) (f : Workspace → Shared → Turn) : Turn :=
  w.after (w.held x) fun (w, y) => f w y

end ClientRegistry.Workspace
