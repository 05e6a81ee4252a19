import ClientRegistry.Time.Moment

/-! Option values: what a settings bag can hold, and what callers may pass where a registration
expects a text, a moment or a set. -/

namespace ClientRegistry

/-- The two open-ended token types of a registration. -/
inductive TokenKind where
  | grantType
  | authMethod
  deriving DecidableEq

inductive BagKind where
  | client
  | token
  deriving DecidableEq

/-- A value is a tree. Sets list their members and dictionaries their entries, in the order of
first insertion; no two members, and no two keys, are the same value. -/
inductive Value where
  | null
  | bool (b : Bool)
  | int (n : Int)
  | real (x : Binary64)
  | text (s : String)
  | bytes (bs : List UInt8)
  | moment (m : Moment)
  | token (kind : TokenKind) (name : Value)
  | bag (kind : BagKind) (options : List (Value × Value))
  | list (xs : List Value)
  | tuple (xs : List Value)
  | set (xs : List Value)
  | frozen (xs : List Value)
  | dict (entries : List (Value × Value))
  deriving Inhabited

/-- The entries of a settings bag or of a dictionary. -/
abbrev Options := List (Value × Value)

namespace Value

/-- Booleans count as the integers 0 and 1. -/
def integer? : Value → Option Int
  | bool b => some (if b then 1 else 0)
  | int n => some n
  | _ => none

/-- Sameness of values without parts; numbers are compared across their types. -/
def sameLeaf : Value → Value → Bool
  | null, null => true
  | real x, real y => x.same y
  | text s, text t => s == t
  | bytes a, bytes b => a == b
  | moment a, moment b => a.same b
  | real x, b => match b.integer? with
    | some n => x.equalsInt n
    | none => false
  | a, real y => match a.integer? with
    | some n => y.equalsInt n
    | none => false
  | a, b => match a.integer?, b.integer? with
    | some m, some n => m == n
    | _, _ => false

mutual

/-- Sameness as members of a container: by content, whatever the order of members and entries
and whatever the type of a number. A mutable set is the same as a frozen one; a list is not the
same as a tuple. -/
def same : Value → Value → Bool
  | token k a, token l b => k == l && a.same b
  | list xs, list ys => sameList xs ys
  | tuple xs, tuple ys => sameList xs ys
  | set xs, set ys => xs.length == ys.length && allMembers xs ys
  | set xs, frozen ys => xs.length == ys.length && allMembers xs ys
  | frozen xs, set ys => xs.length == ys.length && allMembers xs ys
  | frozen xs, frozen ys => xs.length == ys.length && allMembers xs ys
  | dict es, dict fs => es.length == fs.length && allEntries es fs
  | bag k es, bag l fs => k == l && es.length == fs.length && allEntries es fs
  | a, b => sameLeaf a b

def sameList : List Value → List Value → Bool
  | [], [] => true
  | x :: xs, y :: ys => x.same y && sameList xs ys
  | _, _ => false

def allMembers : List Value → List Value → Bool
  | [], _ => true
  | x :: xs, ys => ys.any (fun y => x.same y) && allMembers xs ys

def allEntries : List (Value × Value) → List (Value × Value) → Bool
  | [], _ => true
  | (k, v) :: es, fs => fs.any (fun f => k.same f.1 && v.same f.2) && allEntries es fs

end

def isNaN : Value → Bool
  | real x => x.isNaN
  | _ => false

def isNull : Value → Bool
  | null => true
  | _ => false

/-- Equality of values that callers compare: sameness, but no not-a-number equals itself. -/
def equal (a b : Value) : Bool :=
  a.same b && !a.isNaN

/-- Values that count as present in a check for emptiness. -/
def truthy : Value → Bool
  | null => false
  | bool b => b
  | int n => n != 0
  | real x => !x.isZero
  | text s => !s.isEmpty
  | bytes bs => !bs.isEmpty
  | moment _ => true
  | token _ _ => true
  | bag _ _ => true
  | list xs => !xs.isEmpty
  | tuple xs => !xs.isEmpty
  | set xs => !xs.isEmpty
  | frozen xs => !xs.isEmpty
  | dict es => !es.isEmpty

mutual

/-- Values that cannot change may be members of sets and keys of dictionaries. -/
def hashable : Value → Bool
  | list _ => false
  | set _ => false
  | dict _ => false
  | tuple xs => allHashable xs
  | token _ name => name.hashable
  | _ => true

def allHashable : List Value → Bool
  | [] => true
  | x :: xs => x.hashable && allHashable xs

end

/-- What iterating over a value yields; numbers, moments, tokens and bags yield nothing. -/
def items? : Value → Option (List Value)
  | text s => some (s.toList.map fun c => text (String.singleton c))
  | bytes bs => some (bs.map fun b => int b.toNat)
  | list xs => some xs
  | tuple xs => some xs
  | set xs => some xs
  | frozen xs => some xs
  | dict es => some (es.map (·.1))
  | _ => none

def memberOf (x : Value) (xs : List Value) : Bool :=
  xs.any fun y => x.same y

/-- A set with one more member; a member that is there already stays. -/
def insertMember (xs : List Value) (x : Value) : List Value :=
  if x.memberOf xs then xs else xs ++ [x]

/-- A set with the given members, each kept at its first occurrence. -/
def toMembers (xs : List Value) : List Value :=
  xs.foldl insertMember []

def eraseMember (xs : List Value) (x : Value) : List Value :=
  xs.filter fun y => !x.same y

end Value

namespace Entries

variable {α : Type}

def find? (entries : List (Value × α)) (k : Value) : Option α :=
  (entries.find? fun e => k.same e.1).map (·.2)

def contains (entries : List (Value × α)) (k : Value) : Bool :=
  entries.any fun e => k.same e.1

/-- Stores a value under a key. A key that is there keeps its place and its spelling. -/
def put (entries : List (Value × α)) (k : Value) (v : α) : List (Value × α) :=
  match entries with
  | [] => [(k, v)]
  | e :: rest => if k.same e.1 then (e.1, v) :: rest else e :: put rest k v

def erase (entries : List (Value × α)) (k : Value) : List (Value × α) :=
  entries.filter fun e => !k.same e.1

/-- Entries in order of first insertion, the last value of each key winning. -/
def ofList (entries : List (Value × α)) : List (Value × α) :=
  entries.foldl (fun es e => put es e.1 e.2) []

end Entries

end ClientRegistry
