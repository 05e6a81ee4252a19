import ClientRegistry.Value.Edit.Members
import ClientRegistry.Value.Edit.Parts

/-! Shared values. Every value that is read in is a cell of the store, known by its address;
if it is a container that can be edited, every holder of the address sees its edits. No cell is
ever given up. -/

namespace ClientRegistry

abbrev Address := Nat

/-- A value in the hands of a holder: a cell, a bag, which is known by the cell of its options,
or a leaf, which has no cell of its own, such as a member of a set. -/
inductive Shared where
  | leaf (v : Value)
  | cell (a : Address)
  | bag (kind : BagKind) (a : Address)
  deriving Inhabited

/-- Members of sets and keys of dictionaries cannot change; other parts can. A leaf cell holds
a value that cannot change as a whole. -/
inductive Cell where
  | leaf (v : Value)
  | list (xs : List Shared)
  | tuple (xs : List Shared)
  | set (xs : List Value)
  | dict (es : List (Value × Shared))
  deriving Inhabited

/-- The cells by address. -/
abbrev Store := List Cell

namespace Store

/-- The value seen through at most `fuel` cells, one inside the other. -/
def readWithin (s : Store) : Nat → Shared → Value
  | _, .leaf v => v
  | 0, _ => .null
  | fuel + 1, .cell a => match s[a]? with
    | some (.leaf v) => v
    | some (.list xs) => .list (xs.map fun x => readWithin s fuel x)
    | some (.tuple xs) => .tuple (xs.map fun x => readWithin s fuel x)
    | some (.set xs) => .set xs
    | some (.dict es) => .dict (es.map fun e => (e.1, readWithin s fuel e.2))
    | none => .null
  | fuel + 1, .bag kind a => match s[a]? with
    | some (.dict es) => .bag kind (es.map fun e => (e.1, readWithin s fuel e.2))
    | _ => .bag kind []

/-- The value that a holder sees. No cell holds itself, so there are as many cells on a way as
in the store at most. -/
def read (s : Store) (x : Shared) : Value :=
  readWithin s s.length x

mutual

/-- Lays a value out in new cells. -/
def alloc (s : Store) : Value → Store × Shared
  | .list xs => let (s', ys) := allocList s xs; (s' ++ [.list ys], .cell s'.length)
  | .tuple xs => let (s', ys) := allocList s xs; (s' ++ [.tuple ys], .cell s'.length)
  | .set xs => (s ++ [.set xs], .cell s.length)
  | .dict es => let (s', fs) := allocEntries s es; (s' ++ [.dict fs], .cell s'.length)
  | .bag kind es => let (s', fs) := allocEntries s es; (s' ++ [.dict fs], .bag kind s'.length)
  | v => (s ++ [.leaf v], .cell s.length)

def allocList (s : Store) : List Value → Store × List Shared
  | [] => (s, [])
  | x :: xs =>
    let (s, y) := alloc s x
    let (s, ys) := allocList s xs
    (s, y :: ys)

def allocEntries (s : Store) : List (Value × Value) → Store × List (Value × Shared)
  | [] => (s, [])
  | (k, v) :: es =>
    let (s, y) := alloc s v
    let (s, ys) := allocEntries s es
    (s, (k, y) :: ys)

end

def entriesAt (s : Store) (a : Address) : List (Value × Shared) :=
  match s[a]? with
  | some (.dict es) => es
  | _ => []

def optionsAt (s : Store) (a : Address) : Options :=
  (s.entriesAt a).map fun e => (e.1, s.read e.2)

def allocOptions (s : Store) (options : Options) : Store × Address :=
  let (s', es) := allocEntries s options
  (s' ++ [.dict es], s'.length)

/-- What iterating over a held value yields. -/
def items? (s : Store) : Shared → Option (List Shared)
  | .leaf v => v.items?.map fun xs => xs.map .leaf
  | .cell a => match s[a]? with
    | some (.leaf v) => v.items?.map fun xs => xs.map .leaf
    | some (.list xs) => some xs
    | some (.tuple xs) => some xs
    | some (.set xs) => some (xs.map .leaf)
    | some (.dict es) => some (es.map fun e => .leaf e.1)
    | none => none
  | .bag _ _ => none

/-- The entries of a dictionary, or of an iterable of pairs. -/
def entries (s : Store) (x : Shared) : Except Fault (List (Except Fault (Value × Shared))) :=
  match x with
  | .cell a => match s[a]? with
    | some (.dict es) => .ok (es.map .ok)
    | _ => Child.pairs s.items? s.read x
  | _ => Child.pairs s.items? s.read x

/-- Held values as parts of containers. -/
def child (s : Store) : Child Shared :=
  ⟨s.read, s.items?, s.entries, .leaf .null⟩

def editCell (s : Store) (a : Address) (edits : List (Edit Shared)) : Store × Option Fault :=
  match s[a]? with
  | some (.list xs) =>
    let (xs, fault) := Edit.run (Edit.onList s.child) edits xs
    (s.set a (.list xs), fault)
  | some (.dict es) =>
    let (es, fault) := Edit.run (Edit.onDict s.child) edits es
    (s.set a (.dict es), fault)
  | some (.set xs) =>
    let (xs, fault) := Edit.run Edit.onSet (edits.map fun e => e.map s.read) xs
    (s.set a (.set xs), fault)
  | _ => (s, Edit.refuse edits)

/-- Edits a held value in place; only cells can be edited. -/
def edit (s : Store) (x : Shared) (edits : List (Edit Shared)) : Store × Option Fault :=
  match x with
  | .cell a => s.editCell a edits
  | _ => (s, Edit.refuse edits)

def part? (xs : List Shared) (key : Value) : Except Fault Shared :=
  match key.integer? with
  | none => .error .badType
  | some i => match (Edit.position? xs.length i).bind fun n => xs[n]? with
    | some x => .ok x
    | none => .error .outOfRange

/-- The part of a value without parts of its own: a character, an octet or an item. -/
def partOf (v : Value) (key : Value) : Except Fault Shared :=
  match v with
  | .text t => part? (t.toList.map fun c => .leaf (.text (String.singleton c))) key
  | .bytes bs => part? (bs.map fun b => .leaf (.int b.toNat)) key
  | .tuple xs => part? (xs.map .leaf) key
  | _ => .error .badType

def part (s : Store) (x : Shared) (key : Value) : Except Fault Shared :=
  match x with
  | .cell a => match s[a]? with
    | some (.leaf v) => partOf v key
    | some (.list xs) => part? xs key
    | some (.tuple xs) => part? xs key
    | some (.dict es) =>
      if key.hashable then
        match Entries.find? es key with
        | some y => .ok y
        | none => .error .missingKey
      else .error .badType
    | _ => .error .badType
  | .leaf v => partOf v key
  | .bag _ _ => .error .badType

def walk (s : Store) (x : Shared) : List Value → Except Fault Shared
  | [] => .ok x
  | key :: rest => match s.part x key with
    | .ok y => s.walk y rest
    | .error e => .error e

end Store

end ClientRegistry
