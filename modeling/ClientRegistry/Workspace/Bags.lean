import ClientRegistry.Workspace.Identity

/-! Steps on bags, on drafts of bags, and on plain values. A bag hands out copies, with the
exception of its view, whose options are those of the bag itself. -/

namespace ClientRegistry.Workspace

/-- The options of a new bag: deep copies of what a mapping holds. -/
def copiedOptions (w : Workspace) (mapping : Shared) : Except Fault (Workspace × Address) :=
  (Bag.entriesFrom w.store.child mapping).map fun es =>
    let (store, a) := w.store.copyEntries es
    ({ w with store }, a)

def bag (w : Workspace) (kind : BagKind) (mapping : Operand) : Turn :=
  w.onHeld mapping fun w x =>
    w.after (w.copiedOptions x) fun (w, a) => .ofNew (w.insert (.value (.bag kind a)))

def bagDraft (w : Workspace) (kind : BagKind) : Turn :=
  let (store, a) := w.store.allocOptions (SettingsDraft.empty kind).options
  .ofNew ({ w with store }.insert (.settingsDraft kind a))

/-- A bag stands for its options. -/
def mappingOf : Shared → Shared
  | .bag _ a => .cell a
  | x => x

def withSettings (w : Workspace) (kind : BagKind) (mapping : Operand) : Turn :=
  w.onHeld mapping fun w x => match w.store.read x with
    | .null => .fail w (.nullArgument "settings")
    | _ => w.after (w.copiedOptions (mappingOf x)) fun (w, a) =>
      .ofNew (w.insert (.settingsDraft kind a))

/-- The option stays shared with whoever else holds its value. -/
def setting (w : Workspace) (on : String) (name value : Operand) : Turn :=
  w.onSettingsDraft on fun h _ a => w.onHeld name fun w n => w.onHeld value fun w x =>
    let name := w.store.read n
    match SettingsDraft.nameFault? name with
    | some e => .fail w e
    | none =>
      let cell := Cell.dict (Entries.put (w.store.entriesAt a) name x)
      .ofObject { w with store := w.store.set a cell } h []

def settings (w : Workspace) (on : String) (edits : List (Edit Value)) : Turn :=
  w.onSettingsDraft on fun h _ a =>
    let (w, edits) := w.readInEdits edits
    let (store, fault) := w.store.editCell a edits
    .ofEdited { w with store } h fault

/-- A copy of one option, or of the default. -/
def getSetting (w : Workspace) (on : String) (name default : Operand) : Turn :=
  w.onBag on fun kind a => w.onHeld name fun w n => w.onHeld default fun w x =>
    let b : Bag := ⟨kind, w.store.optionsAt a⟩
    let name := w.store.read n
    w.after (b.getSetting name (w.store.read x)) fun _ =>
      let (store, y) := w.store.copy ((Entries.find? (w.store.entriesAt a) name).getD x)
      .ofNew ({ w with store }.insert (.value y))

def toDict (w : Workspace) (on : String) : Turn :=
  w.onBag on fun _ a =>
    let (store, b) := w.store.copyCell a
    .ofNew ({ w with store }.insert (.value (.cell b)))

/-- The view made a dictionary of its own, with the options themselves. -/
def takeView (w : Workspace) (on : String) : Turn :=
  w.onBag on fun _ a =>
    let store := w.store ++ [.dict (w.store.entriesAt a)]
    .ofNew ({ w with store }.insert (.value (.cell w.store.length)))

/-- Shows the view, which is no object of the workspace and takes no edits itself. -/
def viewEdit (w : Workspace) (on : String) (edits : List (Edit Value)) : Turn :=
  w.onBag on fun _ a => match Edit.refuse edits with
    | some e => .fail w e
    | none => .ofResult w (.value (.dict (w.store.optionsAt a)))

def clientBag (w : Workspace) (on : String) (kind : BagKind) : Turn :=
  w.onClient on fun c => match kind with
    | .client => .ofNew (w.insert (.value (.bag kind c.clientSettings)))
    | .token => .ofNew (w.insert (.value (.bag kind c.tokenSettings)))

def plain (w : Workspace) (v : Operand) : Turn :=
  w.after (w.operand v) fun (w, h) => .ofObject w h []

/-- Edits the part of a held value at the end of a path. -/
def editAt (w : Workspace) (x : Shared) (path : List Value) (edits : List (Edit Value)) :
    Workspace × Option Fault :=
  let (w, edits) := w.readInEdits edits
  match w.store.walk x path with
  | .error e => (w, some e)
  | .ok y =>
    let (store, fault) := w.store.edit y edits
    ({ w with store }, fault)

/-- Edits what a path from the view of a bag leads to; at the end of no path is the view itself. -/
def editView (w : Workspace) (a : Address) (path : List Value) (edits : List (Edit Value)) :
    Workspace × Option Fault :=
  match path with
  | [] => (w, Edit.refuse edits)
  | key :: rest => w.editAt (.cell a) (key :: rest) edits

def mutate (w : Workspace) (on : String) (path : List Value) (edits : List (Edit Value)) :
    Turn :=
  w.onObject on fun h o => match o with
    | .value x =>
      let (w, fault) := w.editAt x path edits
      .ofEdited w h fault
    | _ => .fail w .badType

end ClientRegistry.Workspace
