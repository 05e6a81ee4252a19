import ClientRegistry.Workspace.Bags

/-! Steps on snapshots and rows. Their containers can be edited in place, and a client is
rebuilt of what they hold then. -/

namespace ClientRegistry.Workspace

/-- The exported fields of a client, with dictionaries that are copies of its bags. -/
def exported (w : Workspace) (c : HeldClient) (named : List (String × Value)) :
    Workspace × HeldFields :=
  let (w, fields) := w.holdFields named
  let (store, a) := w.store.copyCell c.clientSettings
  let (store, b) := store.copyCell c.tokenSettings
  ({ w with store }, (fields.put "client_settings" (.cell a)).put "token_settings" (.cell b))

/-- A settings field that was given a dictionary has a new one, of the same values, whose keys
are texts. -/
def keepField (given : HeldFields) (name : String) (p : Workspace × HeldFields) :
    Workspace × HeldFields :=
  let (w, fields) := p
  match given.field? name with
  | some (.cell a) => match Snapshot.checkEntries name (w.store.entriesAt a) with
    | .ok es =>
      ({ w with store := w.store ++ [.dict es] }, fields.put name (.cell w.store.length))
    | .error _ => p
  | _ => p

/-- The fields of a snapshot with the settings that they were given. -/
def keepEntries (w : Workspace) (given fields : HeldFields) : Workspace × HeldFields :=
  keepField given "token_settings" (keepField given "client_settings" (w, fields))

def snapshot (w : Workspace) (on : String) : Turn :=
  w.onClient on fun c => w.after (Snapshot.ofClient (c.current w.store)) fun s =>
    let (w, fields) := w.exported c s.named
    let (w, fields) := w.keepEntries fields fields
    .ofNew (w.insert (.snapshot fields))

def snapshotOf (w : Workspace) (fields : List (String × Operand)) : Turn :=
  w.after (w.heldNamed fields) fun (w, given) =>
    w.after (Snapshot.ofInput .program (given.current w.store)) fun s =>
      let (w, fields) := w.holdFields s.named
      let (w, fields) := w.keepEntries given fields
      .ofNew (w.insert (.snapshot fields))

def freshOptions (w : Workspace) (options : Options) : Workspace × Options :=
  let (es, next) := Value.freshenEntries w.next options
  ({ w with next }, es)

/-- A snapshot that was read; its not-a-numbers get marks of their own. -/
def insertRead (w : Workspace) (s : Snapshot) : Turn :=
  let (w, clientSettings) := w.freshOptions s.clientSettings
  let (w, tokenSettings) := w.freshOptions s.tokenSettings
  .ofNew (w.insertSnapshot { s with clientSettings, tokenSettings })

def readJson (w : Workspace) (text : List Char) : Turn :=
  w.after (Snapshot.ofJson text) fun s => w.insertRead s

def readJsonBytes (w : Workspace) (bytes : List UInt8) : Turn :=
  w.after (Snapshot.ofJsonBytes bytes) fun s => w.insertRead s

def onSnapshot (w : Workspace) (name : String) (f : HeldFields → Turn) : Turn :=
  w.onObject name fun _ o => match o with
    | .snapshot fields => f fields
    | _ => .fail w .noAttribute

def onRow (w : Workspace) (name : String) (f : HeldFields → Turn) : Turn :=
  w.onObject name fun _ o => match o with
    | .row fields => f fields
    | _ => .fail w .noAttribute

def writeJson (w : Workspace) (on : String) : Turn :=
  w.onSnapshot on fun fields => w.after (Snapshot.jsonOfNamed (fields.current w.store)) fun cs =>
    .ofNew (w.insertValue (.text (String.ofList cs)))

/-- A copy of the options that a field holds; a field without entries has none. -/
def restoredOptions (w : Workspace) (fields : HeldFields) (name : String) : Workspace × Address :=
  match w.copiedOptions ((fields.field? name).getD (.leaf .null)) with
  | .ok p => p
  | .error _ => ({ w with store := w.store ++ [.dict []] }, w.store.length)

/-- A client that was rebuilt of fields, with copies of their options. -/
def insertRestored (w : Workspace) (fields : HeldFields) (c : Client) : Workspace × Handle :=
  let (w, a) := w.restoredOptions fields "client_settings"
  let (w, b) := w.restoredOptions fields "token_settings"
  w.insert (.client ⟨c, a, b⟩)

/-- The row with the values of a snapshot, taken in order. -/
def rowOfSnapshot (named : List (String × Value)) : Except Fault Row :=
  Row.ofNamed (Fields.blank.named.zipWith (fun f s => (f.1, s.2)) named)

/-- A snapshot whose lists were edited to hold other values than texts is read like a row. -/
def toClient (w : Workspace) (on : String) : Turn :=
  w.onSnapshot on fun fields =>
    let named := fields.current w.store
    match Snapshot.ofNamed? named with
    | some s => .ofOutcome w s.toClient (w.insertRestored fields)
    | none => w.after (rowOfSnapshot named) fun r =>
      .ofOutcome w r.toClient (w.insertRestored fields)

/-- Edits in place what a field of a snapshot or of a row holds, or what the view of a bag, which
is its only field, shows. -/
def mutateField (w : Workspace) (on field : String) (path : List Value)
    (edits : List (Edit Value)) : Turn :=
  w.onObject on fun h o =>
    let edited := fun (fields : HeldFields) => match fields.field? field with
      | none => Turn.fail w .noAttribute
      | some x =>
        let (w, fault) := w.editAt x path edits
        .ofEdited w h fault
    match o with
    | .snapshot fields => edited fields
    | .row fields => edited fields
    | .value (.bag _ a) =>
      if field == "settings" then
        let (w, fault) := w.editView a path edits
        .ofEdited w h fault
      else .fail w .noAttribute
    | _ => .fail w .noAttribute

def row (w : Workspace) (on : String) : Turn :=
  w.onClient on fun c => w.after (Row.ofClient (c.current w.store)) fun r =>
    let (w, fields) := w.exported c r.columns
    .ofNew (w.insert (.row fields))

/-- The columns of a new row hold what was given. -/
def rowOf (w : Workspace) (columns : List (String × Operand)) : Turn :=
  w.after (w.heldNamed columns) fun (w, given) =>
    w.after (Row.ofNamed (given.current w.store)) fun r =>
      let (w, fields) := w.holdFields r.columns
      .ofNew (w.insert (.row (given.foldl (fun f g => f.put g.1 g.2) fields)))

def rowToClient (w : Workspace) (on : String) : Turn :=
  w.onRow on fun fields => w.after (Row.ofNamed (fields.current w.store)) fun r =>
    .ofOutcome w r.toClient (w.insertRestored fields)

end ClientRegistry.Workspace
