import ClientRegistry.Settings.Bag

/-! Drafts of settings bags. Options are set one by one or edited by a callback; building copies
them, so that a draft can be used again. -/

namespace ClientRegistry

structure SettingsDraft where
  kind : BagKind
  options : Options

namespace SettingsDraft

def empty (kind : BagKind) : SettingsDraft := ⟨kind, []⟩

def ofSettings (kind : BagKind) (mapping : Value) : Except Fault SettingsDraft :=
  match mapping with
  | .null => .error (.nullArgument "settings")
  | _ => (Bag.optionsOf mapping).map fun es => ⟨kind, es⟩

inductive Call where
  | setting (name value : Value)
  | settings (edits : List (Edit Value))

/-- What is wrong with the name of a single option. -/
def nameFault? (name : Value) : Option Fault :=
  if !name.truthy then some (.emptyArgument "name")
  else if !name.hashable then some .badType
  else none

/-- The name of a single option is checked; a callback may use any name. -/
def apply (d : SettingsDraft) : Call → SettingsDraft × Option Fault
  | .setting name value => match nameFault? name with
    | some e => (d, some e)
    | none => ({ d with options := Entries.put d.options name value }, none)
  | .settings edits =>
    let (options, fault) := Edit.run (Edit.onDict Child.value) edits d.options
    ({ d with options }, fault)

def applyAll (d : SettingsDraft) (calls : List Call) : SettingsDraft :=
  calls.foldl (fun d c => (d.apply c).1) d

def build (d : SettingsDraft) : Bag := ⟨d.kind, d.options⟩

end SettingsDraft

end ClientRegistry
