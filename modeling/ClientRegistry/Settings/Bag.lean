import ClientRegistry.Value.Edit.Members
import ClientRegistry.Value.Edit.Parts

/-! Settings bags: options by name, of one of two kinds. A bag never changes, and what it hands
out is a copy; with values as trees a copy is the value itself. -/

namespace ClientRegistry

structure Bag where
  kind : BagKind
  options : Options

namespace Bag

/-- The entries of a mapping. Nothing, and whatever counts as empty, stands for no entries. -/
def entriesFrom {α : Type} (child : Child α) (mapping : α) :
    Except Fault (List (Value × α)) := do
  if (child.view mapping).truthy then
    let entries ← child.entries mapping
    match Edit.putAll [] entries with
    | (options, none) => .ok options
    | (_, some e) => .error e
  else .ok []

def optionsOf (mapping : Value) : Except Fault Options :=
  entriesFrom Child.value mapping

def ofMapping (kind : BagKind) (mapping : Value) : Except Fault Bag :=
  (optionsOf mapping).map fun es => ⟨kind, es⟩

def value (b : Bag) : Value := .bag b.kind b.options

def toDict (b : Bag) : Value := .dict b.options

/-- One option, or the default where there is none of that name. An empty name is refused even
if the bag has an option of that name. -/
def getSetting (b : Bag) (name default : Value) : Except Fault Value :=
  if !name.truthy then .error (.emptyArgument "name")
  else if !name.hashable then .error .badType
  else .ok ((Entries.find? b.options name).getD default)

/-- Bags are the same if they are of one kind and have the same options. -/
def same (a b : Bag) : Bool := a.value.same b.value

end Bag

end ClientRegistry
