import ClientRegistry.Value.Edit.Basic

/-! The methods of dictionaries and lists, whose parts may be values or anything that is seen as
values. -/

namespace ClientRegistry

/-- How the children of a container are seen: by value, by their items, and by their entries,
each of which may turn out to be no pair. -/
structure Child (α : Type) where
  view : α → Value
  items? : α → Option (List α)
  entries : α → Except Fault (List (Except Fault (Value × α)))
  null : α

namespace Child

variable {α : Type}

/-- The item at a position as an entry. -/
def pair (items? : α → Option (List α)) (view : α → Value) (x : α × Nat) :
    Except Fault (Value × α) :=
  match items? x.1 with
  | some [k, v] => .ok (view k, v)
  | some xs => .error (.notPair x.2 xs.length)
  | none => .error .badType

/-- The items of an iterable as entries. -/
def pairs (items? : α → Option (List α)) (view : α → Value) (x : α) :
    Except Fault (List (Except Fault (Value × α))) :=
  match items? x with
  | some xs => .ok (xs.zipIdx.map (pair items? view))
  | none => .error .badType

def entriesOf : Value → Except Fault (List (Except Fault (Value × Value)))
  | .dict es => .ok (es.map .ok)
  | v => pairs Value.items? id v

def value : Child Value := ⟨id, Value.items?, entriesOf, .null⟩

end Child

namespace Edit

variable {α : Type}

/-- Stores entries one after the other, up to the first that is none. -/
def putAll (es : List (Value × α)) :
    List (Except Fault (Value × α)) → Edited (List (Value × α))
  | [] => (es, none)
  | .error e :: _ => (es, some e)
  | .ok (k, v) :: rest =>
    if k.hashable then putAll (Entries.put es k v) rest else (es, some .badType)

def onKey (child : Child α) (method : Method) (args : List α) (es : List (Value × α)) :
    Except Fault (List (Value × α)) :=
  let key := fun (a : α) => (child.view a)
  let guarded := fun (a : α) (r : Except Fault (List (Value × α))) =>
    if (key a).hashable then r else .error .badType
  match method, args with
  | .setItem, [k, v] => guarded k (.ok (Entries.put es (key k) v))
  | .delItem, [k] => guarded k
    (if Entries.contains es (key k) then .ok (Entries.erase es (key k)) else .error .missingKey)
  | .pop, [k] => if es.isEmpty then .error .missingKey else guarded k
    (if Entries.contains es (key k) then .ok (Entries.erase es (key k)) else .error .missingKey)
  | .pop, [k, _] => if es.isEmpty then .ok es else guarded k (.ok (Entries.erase es (key k)))
  | .setDefault, [k] => guarded k
    (.ok (if Entries.contains es (key k) then es else Entries.put es (key k) child.null))
  | .setDefault, [k, v] => guarded k
    (.ok (if Entries.contains es (key k) then es else Entries.put es (key k) v))
  | .update, [] => .ok es
  | .clear, [] => .ok []
  | .pop, _ => .error .badType
  | .setItem, _ => .error .badType
  | .delItem, _ => .error .badType
  | .setDefault, _ => .error .badType
  | .update, _ => .error .badType
  | .clear, _ => .error .badType
  | _, _ => .error .noAttribute

def onDict (child : Child α) (method : Method) (args : List α) (es : List (Value × α)) :
    Edited (List (Value × α)) :=
  match method, args with
  | .update, [d] => match child.entries d with
    | .ok ps => putAll es ps
    | .error e => (es, some e)
  | _, _ => whole es (onKey child method args es)

/-- The position that an index names; negative ones count from the end. -/
def position? (size : Nat) (index : Int) : Option Nat :=
  let n := if index < 0 then index + size else index
  if 0 ≤ n ∧ n < size then some n.toNat else none

/-- The position at which an insertion happens; it is clipped to the ends. -/
def insertPosition (size : Nat) (index : Int) : Nat :=
  let n := if index < 0 then index + size else index
  (min (max n 0) size).toNat

/-- Positions handed to a method fit a signed word of 64 bits. -/
def isWord (index : Int) : Bool :=
  -9223372036854775808 ≤ index && index ≤ 9223372036854775807

def word (v : Value) : Except Fault Int :=
  match v.integer? with
  | none => .error .badType
  | some i => if isWord i then .ok i else .error .tooLarge

def onItems (child : Child α) (method : Method) (args xs : List α) : Except Fault (List α) :=
  let at' := fun (a : α) (f : Nat → List α) => match (child.view a).integer? with
    | none => .error .badType
    | some i => match position? xs.length i with
      | some n => .ok (f n)
      | none => .error .outOfRange
  match method, args with
  | .append, [x] => .ok (xs ++ [x])
  | .extend, [ys] => match child.items? ys with
    | some zs => .ok (xs ++ zs)
    | none => .error .badType
  | .insert, [i, x] => (word (child.view i)).map fun n =>
    let p := insertPosition xs.length n
    xs.take p ++ x :: xs.drop p
  | .reverse, [] => .ok xs.reverse
  | .clear, [] => .ok []
  | .pop, [] => if xs.isEmpty then .error .outOfRange else .ok xs.dropLast
  | .pop, [i] => word (child.view i) >>= fun n => match position? xs.length n with
    | some p => .ok (xs.eraseIdx p)
    | none => .error .outOfRange
  | .setItem, [i, x] => at' i fun n => xs.set n x
  | .delItem, [i] => at' i fun n => xs.eraseIdx n
  | .append, _ => .error .badType
  | .extend, _ => .error .badType
  | .insert, _ => .error .badType
  | .reverse, _ => .error .badType
  | .clear, _ => .error .badType
  | .pop, _ => .error .badType
  | .setItem, _ => .error .badType
  | .delItem, _ => .error .badType
  | _, _ => .error .noAttribute

def onList (child : Child α) (method : Method) (args xs : List α) : Edited (List α) :=
  whole xs (onItems child method args xs)

end Edit

end ClientRegistry
