import ClientRegistry.Journal
import ClientRegistry.Scope
import ClientRegistry.Uri.Redirect

/-! Syntax checks of scopes and redirect URIs. A list is refused at its first bad entry, which
is logged. -/

namespace ClientRegistry.Validation

def character? : Value → Option Char
  | .text s => match s.toList with
    | [c] => some c
    | _ => none
  | _ => none

/-- Checks values that are no texts item by item, as far as the items are characters. -/
def scanItems (ok : Char → Bool) : List Value → Except Fault Bool
  | [] => .ok true
  | v :: rest => match character? v with
    | some c => if ok c then scanItems ok rest else .ok false
    | none => .error .badType

/-- An absent scope is admissible, and so is an empty text. -/
def scopeOk : Value → Except Fault Bool
  | .null => .ok true
  | .text s => .ok (Scope.isAdmissible s.toList)
  | v => match v.items? with
    | some items => scanItems Scope.isTokenChar items
    | none => .error .badType

/-- Only texts are redirect URIs. -/
def redirectUriOk : Value → Except Fault Bool
  | .text s => .ok (Uri.isRedirect s.toList)
  | v => match v.items? with
    | some items => match scanItems Uri.isUriChar items with
      | .ok true => .error .badType
      | other => other
    | none => .error .badType

def scopeRejected (scope : Value) : LogRecord :=
  ⟨.warning, .validation, "Rejected scope=".toList ++ scope.printed, [], none⟩

def redirectUriRejected (uri : Value) : LogRecord :=
  ⟨.warning, .validation, "Rejected redirect_uri=".toList ++ uri.printed, [], none⟩

/-- Refuses the first scope that is not admissible. -/
def scopes : List Value → Outcome Unit
  | [] => .ok ()
  | s :: rest => match scopeOk s with
    | .ok true => scopes rest
    | .ok false => .reject (scopeRejected s) (.invalidScope s)
    | .error e => .fail e

/-- Refuses the first redirect URI that is malformed or has a fragment. -/
def redirectUris : List Value → Outcome Unit
  | [] => .ok ()
  | u :: rest => match redirectUriOk u with
    | .ok true => redirectUris rest
    | .ok false => .reject (redirectUriRejected u) (.invalidRedirectUri u)
    | .error e => .fail e

end ClientRegistry.Validation
