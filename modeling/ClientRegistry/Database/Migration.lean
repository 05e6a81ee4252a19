import ClientRegistry.Database.Driver
import ClientRegistry.Database.Placeholder
import ClientRegistry.Database.Revision
import ClientRegistry.Database.Schema
import ClientRegistry.Database.Url
import ClientRegistry.Logging.Setup

/-! Schema changes as SQL scripts. A script leads from one end of the history to the other, and
its form is that of the dialect it is written in. -/

namespace ClientRegistry.Database

inductive Direction where
  | upgrade
  | downgrade
  deriving DecidableEq

/-- Where a script starts and ends, as texts; an upgrade without a start begins at the base. -/
structure RevisionRange where
  start : Option (List Char)
  target : List Char

/-- A range is written with one colon. An upgrade may leave out its start and the colon. -/
def RevisionRange.ofText (direction : Direction) (text : List Char) :
    Except Fault RevisionRange :=
  match direction, Text.splitAll ':' text with
  | .upgrade, [target] => .ok ⟨none, target⟩
  | .downgrade, [_] => .error .unknownRevision
  | _, [start, target] => .ok ⟨some start, target⟩
  | _, _ => .error .manyParts

/-- The stages that a range leads from and to. -/
def RevisionRange.stages (direction : Direction) (range : RevisionRange) :
    Except Fault (Stage × Stage) := do
  let start ← (match range.start with
    | none => .ok .base
    | some text => Stage.start text)
  let target ← (match direction with
    | .upgrade => Stage.upgradeTarget start range.target
    | .downgrade => Stage.downgradeTarget start range.target)
  .ok (start, target)

inductive Entry where
  | remark (text : String)
  | statement (lines : List String)

def revisionName : String := String.ofList revision

def versionTable : List String :=
  ["CREATE TABLE alembic_version (", "version_num VARCHAR(32) NOT NULL,",
    "CONSTRAINT alembic_version_pkc PRIMARY KEY (version_num)", ")"]

def upgradeEntries : List Entry :=
  [.statement versionTable, .remark ("Running upgrade -> " ++ revisionName),
    .statement createTable,
    .statement ["INSERT INTO alembic_version (version_num) VALUES ('" ++ revisionName
      ++ "') RETURNING alembic_version.version_num"]]

def downgradeEntries : List Entry :=
  [.remark ("Running downgrade " ++ revisionName ++ " ->"), .statement dropTable,
    .statement ["DELETE FROM alembic_version WHERE alembic_version.version_num = '"
      ++ revisionName ++ "'"]]

/-- The entries between two stages. Only one dialect has all the column types of the table. An
upgrade to an earlier stage has no entries; a downgrade to a later one is refused. -/
def entries (dialect : Dialect) (direction : Direction) (start target : Stage) :
    Except Fault (List Entry) :=
  match direction, start, target with
  | .upgrade, .base, .created =>
    if dialect = .postgresql then .ok upgradeEntries else .error .unwritableType
  | .upgrade, _, _ => .ok []
  | .downgrade, .created, .base => .ok downgradeEntries
  | .downgrade, .base, .created => .error .unknownRevision
  | .downgrade, _, _ => .ok []

/-- The form of a dialect's scripts: what opens and closes one, what ends the last line of a
statement, and what follows each statement. -/
structure ScriptForm where
  opening : List String
  closing : List String
  terminator : String
  separator : List String

def Dialect.scriptForm : Dialect → ScriptForm
  | postgresql => ⟨["BEGIN;"], ["COMMIT;"], ";", []⟩
  | mssql => ⟨["BEGIN TRANSACTION;"], ["COMMIT;", "GO"], ";", ["GO"]⟩
  | oracle => ⟨[], [], "", ["/"]⟩
  | _ => ⟨[], [], ";", []⟩

namespace ScriptForm

def terminated (form : ScriptForm) : List String → List String
  | [] => []
  | [line] => [line ++ form.terminator]
  | line :: lines => line :: form.terminated lines

def entryLines (form : ScriptForm) : Entry → List String
  | .remark text => ["-- " ++ text]
  | .statement lines => form.terminated lines ++ form.separator

def lines (form : ScriptForm) (es : List Entry) : List String :=
  form.opening ++ es.flatMap form.entryLines ++ form.closing

end ScriptForm

def script (dialect : Dialect) (direction : Direction) (range : RevisionRange) :
    Except Fault (List String) := do
  let (start, target) ← range.stages direction
  let es ← entries dialect direction start target
  .ok (dialect.scriptForm.lines es)

/-- A script, the URL it is meant for, and the logging that its run sets up. -/
structure Migration where
  script : List String
  url : String
  logging : Logging.State

/-- The migration of an environment. No driver has to be installed for it. -/
def migration (env : Environment) (direction : Direction) (revisions : String) :
    Except Fault Migration := do
  let configuration ← Configuration.load env
  let range ← RevisionRange.ofText direction revisions.toList
  let text ← migrationUrl configuration
  let layout := if configuration.jsonLogs then Logging.Layout.json else .container
  let url ← Url.ofText text
  let driver ← Driver.ofName url.driver
  let level ← Logging.levelOf configuration.verbosity.name.toList
  let lines ← script driver.dialect direction range
  .ok ⟨lines, String.ofList text, .configured level layout⟩

end ClientRegistry.Database
