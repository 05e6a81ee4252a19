import ClientRegistry.Client.Basic
import ClientRegistry.Value.Order

/-! Sorted listings of the set fields of a client: the form in which snapshots and table rows
hold them. Texts are ordered by code points. -/

namespace ClientRegistry.Listing

def sortTexts (xs : List String) : List String :=
  xs.mergeSort fun s t => Text.before s.toList t.toList

def text? : Value → Option String
  | .text s => some s
  | _ => none

/-- Texts in order, or values of other types in theirs. -/
def ofMembers (xs : List Value) : Except Fault (List Value) :=
  match xs.mapM text? with
  | some texts => .ok ((sortTexts texts).map .text)
  | none => Value.sort xs

def tokenName? : Value → Option Value
  | .token _ name => some name
  | _ => none

def ofTokens (xs : List Value) : Except Fault (List Value) :=
  match xs.mapM tokenName? with
  | some names => ofMembers names
  | none => .error .noAttribute

end ClientRegistry.Listing
