import ClientRegistry.Workspace.Identity

/-! Steps on drafts of clients and on clients. -/

namespace ClientRegistry.Workspace

def withId (w : Workspace) (id : Operand) : Turn :=
  w.onHeld id fun w x =>
    w.after (Draft.withId (w.store.read x)) fun d => .ofNew (w.insertDraft d)

/-- A draft of a client; its bags are copies. -/
def fromClient (w : Workspace) : Option String → Turn
  | none => .fail w (.nullArgument "registered_client")
  | some name => w.onClient name fun c =>
    let draft := Draft.ofClient (c.current w.store)
    let (store, a) := w.store.copyCell c.clientSettings
    let (store, b) := store.copyCell c.tokenSettings
    .ofNew ({ w with store }.insert (.draft ⟨draft, .bag .client a, .bag .token b⟩))

/-- Assigned settings stay shared with whoever else holds them. -/
def HeldDraft.assigned (d : HeldDraft) (draft : Draft) (field : ScalarField) (x : Shared) :
    HeldDraft :=
  match field with
  | .clientSettings => { d with draft, clientSettings := x }
  | .tokenSettings => { d with draft, tokenSettings := x }
  | _ => { d with draft }

def assign (w : Workspace) (on : String) (field : ScalarField) (value : Operand) : Turn :=
  w.onDraft on fun h d => w.onHeld value fun w x =>
    match (d.current w.store).apply (.assign field (w.store.read x)) with
    | (draft, none) => .ofObject (w.replace h (.draft (d.assigned draft field x))) h []
    | (_, some e) => .fail w e

def add (w : Workspace) (on : String) (field : SetField) (value : Operand) : Turn :=
  w.onDraft on fun h d => w.onHeld value fun w x =>
    let (draft, fault) := (d.current w.store).apply (.add field (w.store.read x))
    .ofEdited (w.replace h (.draft { d with draft })) h fault

def editMembers (w : Workspace) (on : String) (field : SetField) (edits : List (Edit Value)) :
    Turn :=
  w.onDraft on fun h d =>
    let (w, edits) := w.readInEdits edits
    let read := edits.map fun e => e.map w.store.read
    let (draft, fault) := (d.current w.store).apply (.edit field read)
    .ofEdited (w.replace h (.draft { d with draft })) h fault

/-- A new client with copies of two bags. -/
def insertBuilt (w : Workspace) (clientSettings tokenSettings : Shared) (c : Client) :
    Workspace × Handle :=
  let (store, a) := w.store.copyBag clientSettings
  let (store, b) := store.copyBag tokenSettings
  { w with store }.insert (.client ⟨c, a, b⟩)

/-- Builds a client, or a bag, of a draft. -/
def build (w : Workspace) (on : String) : Turn :=
  w.onObject on fun _ o => match o with
    | .draft d =>
      .ofOutcome w (d.current w.store).build (w.insertBuilt d.clientSettings d.tokenSettings)
    | .settingsDraft kind a =>
      let (store, b) := w.store.copyCell a
      .ofNew ({ w with store }.insert (.value (.bag kind b)))
    | _ => .fail w .noAttribute

/-- The cell of a bag among named fields. -/
def bagCell? (fields : HeldFields) (name : String) : Option Address :=
  match fields.field? name with
  | some (.bag _ a) => some a
  | _ => none

/-- A client of offered fields. The bags that were given stay shared. -/
def makeClient (w : Workspace) (fields : Fields) (clientSettings tokenSettings : Option Address) :
    Turn :=
  let made := Client.make fields
  match made.result, clientSettings, tokenSettings with
  | .ok c, some a, some b =>
    let (w, h) := w.insert (.client ⟨c, a, b⟩)
    .ofObject w h made.log
  | .ok _, _, _ => .failLogged w .badType made.log
  | .error e, _, _ => .failLogged w e made.log

def construct (w : Workspace) (fields : List (String × Operand)) : Turn :=
  w.after (w.heldNamed fields) fun (w, given) =>
    match Fields.ofNamed? (given.current w.store) with
    | some f => w.makeClient f (bagCell? given "client_settings") (bagCell? given "token_settings")
    | none => .fail w .badType

/-- A client with some fields replaced; the others are its own, bags included. -/
def replaceFields (w : Workspace) (on : String) (changes : List (String × Operand)) : Turn :=
  w.onClient on fun c => w.after (w.heldNamed changes) fun (w, given) =>
    match (c.current w.store).fields.withAll? (given.current w.store) with
    | some f =>
      w.makeClient f ((bagCell? given "client_settings").getD c.clientSettings)
        ((bagCell? given "token_settings").getD c.tokenSettings)
    | none => .fail w .badType

/-- Clients, tokens and snapshots cannot be assigned to. -/
def setAttribute (w : Workspace) (on field : String) (value : Operand) : Turn :=
  w.onObject on fun h o => match o with
    | .client _ => .fail w .frozenRecord
    | .value x => match w.store.read x with
      | .token _ _ => .fail w .frozenRecord
      | _ => .fail w .noAttribute
    | .snapshot _ => .fail w (.badSnapshot [⟨.frozen, [.name field]⟩])
    | .row f => w.onHeld value fun w x =>
      .ofResult (w.replace h (.row (f.put field x))) (.value (.text "assigned"))
    | _ => .ofResult w (.value (.text "assigned"))

/-- The fields of a client cannot be edited. -/
def fieldCall (w : Workspace) (on : String) (edits : List (Edit Value)) : Turn :=
  w.onObject on fun h o => match o with
    | .client _ => .ofEdited w h (Edit.refuse edits)
    | _ => .fail w .noAttribute

def compareObjects (w : Workspace) (a b : Operand) : Turn :=
  w.after (w.operand a) fun (w, g) => w.after (w.operand b) fun (w, h) =>
    .ofResult w (.comparison (w.isEqual g h) (w.isSame g h))

def compareDigests (w : Workspace) (a b : Operand) : Turn :=
  w.after (w.operand a) fun (w, g) => w.after (w.operand b) fun (w, h) =>
    w.after (w.footprint g) fun f => w.after (w.footprint h) fun e =>
      .ofResult w (.value (.bool (f.agree e)))

def countDistinct (w : Workspace) (items : List Operand) : Turn :=
  w.after (w.operands items) fun (w, hs) => w.after (hs.mapM w.footprint) fun _ =>
    .ofResult w (.value (.int (w.distinctFrom [] hs).length))

def print (w : Workspace) (on : String) : Turn :=
  w.onObject on fun _ o => .ofResult w (.printed (w.printedObject o))

/-- A token, shown with its name in running text, which only a text can stand in for. -/
def token (w : Workspace) (kind : TokenKind) (name : Operand) : Turn :=
  w.onHeld name fun w x =>
    w.after (Row.tokenOf kind (w.store.read x)) fun v => match w.store.read x with
      | .text _ =>
        let (w, h) := w.insertValue v
        ⟨w, .ok (.shown (.token kind v)), some h, []⟩
      | _ => .fail w .badType

end ClientRegistry.Workspace
