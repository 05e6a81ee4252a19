import ClientRegistry.Workspace.Clients
import ClientRegistry.Workspace.Registries
import ClientRegistry.Workspace.Snapshots

/-! Running steps one after the other. A step that fails names no object. -/

namespace ClientRegistry.Workspace

def perform (w : Workspace) : Action → Turn
  | .withId id => w.withId id
  | .fromClient client => w.fromClient client
  | .assign on field value => w.assign on field value
  | .add on field value => w.add on field value
  | .edit on field edits => w.editMembers on field edits
  | .build on => w.build on
  | .look on => w.onObject on fun h _ => .ofObject w h []
  | .construct fields => w.construct fields
  | .replace on changes => w.replaceFields on changes
  | .setAttribute on field value => w.setAttribute on field value
  | .fieldCall on edits => w.fieldCall on edits
  | .compare a b => w.compareObjects a b
  | .compareDigests a b => w.compareDigests a b
  | .distinct items => w.countDistinct items
  | .print on => w.print on
  | .pickle on => w.onObject on fun _ o => .ofNew (w.pickleOf o)
  | .deepCopy on => w.onObject on fun h o => .ofNew (w.deepCopyOf h o)
  | .bag kind mapping => w.bag kind mapping
  | .bagDraft kind => w.bagDraft kind
  | .withSettings kind mapping => w.withSettings kind mapping
  | .setting on name value => w.setting on name value
  | .settings on edits => w.settings on edits
  | .getSetting on name default => w.getSetting on name default
  | .toDict on => w.toDict on
  | .view on => w.viewEdit on []
  | .takeView on => w.takeView on
  | .viewEdit on edits => w.viewEdit on edits
  | .clientBag on kind => w.clientBag on kind
  | .value v => w.plain v
  | .mutate on path edits => w.mutate on path edits
  | .snapshot on => w.snapshot on
  | .snapshotOf fields => w.snapshotOf fields
  | .readJson text => w.readJson text
  | .readJsonBytes bytes => w.readJsonBytes bytes
  | .writeJson on => w.writeJson on
  | .toClient on => w.toClient on
  | .mutateField on field path edits => w.mutateField on field path edits
  | .registry clients => w.registry clients
  | .save on client => w.save on client
  | .findById on key => w.findById on key
  | .findByClientId on key => w.findByClientId on key
  | .row on => w.row on
  | .rowOf columns => w.rowOf columns
  | .rowToClient on => w.rowToClient on
  | .database => .ofNew (w.insert (.database []))
  | .work on configured lines => w.work on configured lines
  | .token kind name => w.token kind name

/-- The workspace after a turn, with the object of a successful step under its name. -/
def Turn.named (t : Turn) (name : Option String) : Workspace :=
  match t.display, t.object, name with
  | .ok _, some h, some n => t.workspace.bind n h
  | _, _, _ => t.workspace

def run (w : Workspace) : List Step → List (Except Fault Display × List LogRecord)
  | [] => []
  | step :: rest =>
    let t := w.perform step.action
    (t.display, t.log) :: run (t.named step.name) rest

end ClientRegistry.Workspace
