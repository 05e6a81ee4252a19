import ClientRegistry.Fault

/-! The order of values: numbers by magnitude, texts by code points, byte strings by octets,
moments by instant, sequences by their first difference, and sets by inclusion. Values of
different classes have no order, and neither have nulls, tokens, bags and dictionaries. -/

namespace ClientRegistry

/-- The order of code points, the shorter text first where it begins the other. -/
def Text.before : List Char → List Char → Bool
  | [], _ => true
  | _ :: _, [] => false
  | a :: s, b :: t => if a = b then before s t else a.toNat < b.toNat

/-- The order of octets, the shorter string first where it begins the other. -/
def octetsBefore : List UInt8 → List UInt8 → Bool
  | [], _ => true
  | _ :: _, [] => false
  | a :: s, b :: t => if a = b then octetsBefore s t else a < b

namespace Value

/-- A number as a quotient; infinities have the denominator zero. -/
def quotient? : Value → Option (Int × Nat)
  | real (.finite negative m e) =>
    let (n, d) := Binary64.fraction m e
    some (Binary64.negated negative n, d)
  | real (.infinite negative) => some (if negative then -1 else 1, 0)
  | v => v.integer?.map fun n => (n, 1)

/-- Whether one quotient is below another. -/
def quotientLess (a b : Int × Nat) : Bool :=
  if a.2 == 0 && b.2 == 0 then a.1 < b.1 else a.1 * b.2 < b.1 * a.2

def isNumber : Value → Bool
  | real _ => true
  | v => v.integer?.isSome

/-- The order of values without parts; a not-a-number is not below anything. -/
def lessLeaf : Value → Value → Except Fault Bool
  | text s, text t => .ok (!Text.before t.toList s.toList)
  | bytes a, bytes b => .ok (!octetsBefore b a)
  | moment a, moment b =>
    if a.zone.isSome == b.zone.isSome then .ok (a.instant < b.instant) else .error .badType
  | a, b =>
    if a.isNumber && b.isNumber then
      match a.quotient?, b.quotient? with
      | some p, some q => .ok (quotientLess p q)
      | _, _ => .ok false
    else .error .badType

mutual

def less : Value → Value → Except Fault Bool
  | list xs, list ys => lessList xs ys
  | tuple xs, tuple ys => lessList xs ys
  | set xs, set ys => .ok (xs.length < ys.length && allMembers xs ys)
  | set xs, frozen ys => .ok (xs.length < ys.length && allMembers xs ys)
  | frozen xs, set ys => .ok (xs.length < ys.length && allMembers xs ys)
  | frozen xs, frozen ys => .ok (xs.length < ys.length && allMembers xs ys)
  | a, b => lessLeaf a b

/-- Sequences are compared at their first difference. -/
def lessList : List Value → List Value → Except Fault Bool
  | _, [] => .ok false
  | [], _ :: _ => .ok true
  | x :: xs, y :: ys => if x.same y then lessList xs ys else less x y

end

/-- Puts a value in front of the first that comes after it. -/
def insertInOrder (x : Value) : List Value → Except Fault (List Value)
  | [] => .ok [x]
  | y :: ys => match x.less y, insertInOrder x ys with
    | .ok true, _ => .ok (x :: y :: ys)
    | .ok false, .ok zs => .ok (y :: zs)
    | .ok false, .error e => .error e
    | .error e, _ => .error e

def sort : List Value → Except Fault (List Value)
  | [] => .ok []
  | x :: xs => match sort xs with
    | .ok ys => insertInOrder x ys
    | .error e => .error e

end Value

end ClientRegistry
