import ClientRegistry.Value.Edit.Basic

/-! The methods of sets. An iterable is gone through item by item, so that an item that cannot
be a member stops the edit where it stands. -/

namespace ClientRegistry.Edit

/-- Goes through the members of an iterable up to the first that cannot be a member. -/
def eachMember (f : List Value → Value → List Value) (xs : List Value) :
    List Value → Edited (List Value)
  | [] => (xs, none)
  | y :: ys => if y.hashable then eachMember f (f xs y) ys else (xs, some .badType)

/-- Goes through several iterables, one after the other. -/
def eachIterable (f : List Value → Value → List Value) (xs : List Value) :
    List Value → Edited (List Value)
  | [] => (xs, none)
  | a :: rest => match a.items? with
    | none => (xs, some .badType)
    | some ys => match eachMember f xs ys with
      | (xs', none) => eachIterable f xs' rest
      | stopped => stopped

/-- The items of an iterable, all of which can be members. -/
def membersOf (a : Value) : Except Fault (List Value) :=
  match a.items? with
  | some ys => if ys.all Value.hashable then .ok ys else .error .badType
  | none => .error .badType

/-- The members of a set that a sequence of items yields, each as the sequence spells it. The
walk ends when all have been found. -/
def sharedFrom (xs found : List Value) : List Value → Except Fault (List Value)
  | [] => .ok found
  | y :: ys =>
    if y.hashable then
      if y.memberOf xs then
        let found' := Value.insertMember found y
        if xs.length ≤ found'.length then .ok found' else sharedFrom xs found' ys
      else sharedFrom xs found ys
    else .error .badType

/-- The members common to two sets, as the smaller one spells them. -/
def sharedMembers (xs ys : List Value) : List Value :=
  if xs.length < ys.length then xs.filter fun x => x.memberOf ys
  else ys.filter fun y => y.memberOf xs

/-- What a set has in common with any iterable. -/
def shared (xs : List Value) : Value → Except Fault (List Value)
  | .set ys => .ok (sharedMembers xs ys)
  | .frozen ys => .ok (sharedMembers xs ys)
  | a => match a.items? with
    | some ys => sharedFrom xs [] ys
    | none => .error .badType

/-- A member leaves a set that has it and joins one that does not. -/
def toggle (xs : List Value) (y : Value) : List Value :=
  if y.memberOf xs then Value.eraseMember xs y else xs ++ [y]

/-- What can be asked for as a member; a set stands for a frozen one. -/
def isAskable : Value → Bool
  | .set _ => true
  | v => v.hashable

def onSet (method : Method) (args xs : List Value) : Edited (List Value) :=
  match method, args with
  | .add, [x] => if x.hashable then (Value.insertMember xs x, none) else (xs, some .badType)
  | .remove, [x] =>
    if isAskable x then
      if x.memberOf xs then (Value.eraseMember xs x, none) else (xs, some .missingKey)
    else (xs, some .badType)
  | .discard, [x] =>
    if isAskable x then (Value.eraseMember xs x, none) else (xs, some .badType)
  | .clear, [] => ([], none)
  | .update, _ => eachIterable Value.insertMember xs args
  | .differenceUpdate, _ => eachIterable Value.eraseMember xs args
  | .intersectionUpdate, _ => whole xs (args.foldlM shared xs)
  | .symmetricDifferenceUpdate, [ys] =>
    whole xs ((membersOf ys).map fun zs => (Value.toMembers zs).foldl toggle xs)
  | .pop, [] => match xs with
    | [] => (xs, some .missingKey)
    | _ :: rest => (rest, none)
  | .setDefault, _ => (xs, some .noAttribute)
  | .append, _ => (xs, some .noAttribute)
  | .extend, _ => (xs, some .noAttribute)
  | .insert, _ => (xs, some .noAttribute)
  | .reverse, _ => (xs, some .noAttribute)
  | .other, _ => (xs, some .noAttribute)
  | _, _ => (xs, some .badType)

end ClientRegistry.Edit
