import ClientRegistry.Registry.UnitOfWork
import ClientRegistry.Workspace.Basic

/-! What can be done in a workspace. Names refer to objects of earlier steps; values are given
in place or by name. The values that edits bring in are given in place. -/

namespace ClientRegistry.Workspace

inductive Operand where
  | given (v : Value)
  | variable (name : String)
  deriving Inhabited

inductive WorkAction where
  | save (client : String)
  | findById (key : Operand)
  | findByClientId (key : Operand)
  | putRow (columns : List (String × Operand))
  | raise (reason : String)

/-- What a find yields can be named; a caught fault stays inside the unit. -/
structure WorkLine where
  action : WorkAction
  caught : Bool
  name : Option String

inductive Action where
  | withId (id : Operand)
  | fromClient (client : Option String)
  | assign (on : String) (field : ScalarField) (value : Operand)
  | add (on : String) (field : SetField) (value : Operand)
  | edit (on : String) (field : SetField) (edits : List (Edit Value))
  | build (on : String)
  | look (on : String)
  | construct (fields : List (String × Operand))
  | replace (on : String) (changes : List (String × Operand))
  | setAttribute (on field : String) (value : Operand)
  | fieldCall (on : String) (edits : List (Edit Value))
  | compare (a b : Operand)
  | compareDigests (a b : Operand)
  | distinct (items : List Operand)
  | print (on : String)
  | pickle (on : String)
  | deepCopy (on : String)
  | bag (kind : BagKind) (mapping : Operand)
  | bagDraft (kind : BagKind)
  | withSettings (kind : BagKind) (mapping : Operand)
  | setting (on : String) (name value : Operand)
  | settings (on : String) (edits : List (Edit Value))
  | getSetting (on : String) (name default : Operand)
  | toDict (on : String)
  | view (on : String)
  | takeView (on : String)
  | viewEdit (on : String) (edits : List (Edit Value))
  | clientBag (on : String) (kind : BagKind)
  | value (v : Operand)
  | mutate (on : String) (path : List Value) (edits : List (Edit Value))
  | snapshot (on : String)
  | snapshotOf (fields : List (String × Operand))
  | readJson (text : List Char)
  | readJsonBytes (bytes : List UInt8)
  | writeJson (on : String)
  | toClient (on : String)
  | mutateField (on field : String) (path : List Value) (edits : List (Edit Value))
  | registry (clients : List String)
  | save (on client : String)
  | findById (on : String) (key : Operand)
  | findByClientId (on : String) (key : Operand)
  | row (on : String)
  | rowOf (columns : List (String × Operand))
  | rowToClient (on : String)
  | database
  | work (on : String) (configured : Bool) (lines : List WorkLine)
  | token (kind : TokenKind) (name : Operand)

/-- An action, and the name that its object gets if it succeeds. -/
structure Step where
  action : Action
  name : Option String

end ClientRegistry.Workspace
