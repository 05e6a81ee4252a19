import ClientRegistry.Value.Fresh
import ClientRegistry.Workspace.Store

/-! Copies. The cells that can be reached are laid out once more at the end of the store, each
once, so that two parts that were one cell are one cell in the copy as well. A deep copy keeps
the cells that nothing can change; a copy by way of bytes keeps none, and its not-a-numbers get
new marks. -/

namespace ClientRegistry

mutual

/-- Values of which there need not be a second one: numbers, texts and byte strings, and tuples
of these. -/
def Value.isFixed : Value → Bool
  | .null => true
  | .bool _ => true
  | .int _ => true
  | .real _ => true
  | .text _ => true
  | .bytes _ => true
  | .tuple xs => Value.allFixed xs
  | _ => false

def Value.allFixed : List Value → Bool
  | [] => true
  | x :: xs => x.isFixed && Value.allFixed xs

end

def Shared.relocate (f : Address → Address) : Shared → Shared
  | .leaf v => .leaf v
  | .cell a => .cell (f a)
  | .bag kind a => .bag kind (f a)

/-- The same value, with a mark of its own if it is not a number. -/
def Shared.freshen (next : Nat) : Shared → Shared × Nat
  | .leaf v => let (v, next) := v.freshen next; (.leaf v, next)
  | x => (x, next)

def Shared.freshenAll (next : Nat) : List Shared → List Shared × Nat
  | [] => ([], next)
  | x :: xs =>
    let (y, next) := x.freshen next
    let (ys, next) := freshenAll next xs
    (y :: ys, next)

def Shared.freshenEntries (next : Nat) : List (Value × Shared) → List (Value × Shared) × Nat
  | [] => ([], next)
  | (k, x) :: es =>
    let (k, next) := k.freshen next
    let (y, next) := x.freshen next
    let (fs, next) := freshenEntries next es
    ((k, y) :: fs, next)

namespace Cell

/-- The same cell, with new marks for what it holds itself. -/
def freshen (next : Nat) : Cell → Cell × Nat
  | .leaf v => let (v, next) := v.freshen next; (.leaf v, next)
  | .list xs => let (ys, next) := Shared.freshenAll next xs; (.list ys, next)
  | .tuple xs => let (ys, next) := Shared.freshenAll next xs; (.tuple ys, next)
  | .set xs => let (ys, next) := Value.freshenList next xs; (.set ys, next)
  | .dict es => let (fs, next) := Shared.freshenEntries next es; (.dict fs, next)

def freshenAll (next : Nat) : List Cell → List Cell × Nat
  | [] => ([], next)
  | c :: cs =>
    let (d, next) := c.freshen next
    let (ds, next) := freshenAll next cs
    (d :: ds, next)

def parts : Cell → List Shared
  | .leaf _ => []
  | .list xs => xs
  | .tuple xs => xs
  | .set _ => []
  | .dict es => es.map fun e => e.2

def relocate (f : Address → Address) : Cell → Cell
  | .leaf v => .leaf v
  | .list xs => .list (xs.map fun x => x.relocate f)
  | .tuple xs => .tuple (xs.map fun x => x.relocate f)
  | .set xs => .set xs
  | .dict es => .dict (es.map fun e => (e.1, e.2.relocate f))

end Cell

namespace Store

def cellAt (s : Store) (a : Address) : Cell := (s[a]?).getD (.list [])

/-- Whether all that is held, through at most `fuel` cells, is fixed. -/
def fixedWithin (s : Store) : Nat → Shared → Bool
  | _, .leaf v => v.isFixed
  | _, .bag _ _ => false
  | 0, _ => false
  | fuel + 1, .cell a => match s.cellAt a with
    | .leaf v => v.isFixed
    | .tuple xs => xs.all fun x => fixedWithin s fuel x
    | _ => false

/-- The cells that a deep copy keeps. -/
def isFixed (s : Store) (a : Address) : Bool :=
  s.fixedWithin s.length (.cell a)

/-- The cells on all ways of at most `fuel` cells that start from a held value, up to cells that
are kept. -/
def reachWithin (s : Store) (kept : Address → Bool) : Nat → Shared → List Address
  | _, .leaf _ => []
  | 0, _ => []
  | fuel + 1, .cell a =>
    if kept a then []
    else a :: (s.cellAt a).parts.flatMap fun x => reachWithin s kept fuel x
  | fuel + 1, .bag _ a => a :: (s.cellAt a).parts.flatMap fun x => reachWithin s kept fuel x

/-- The cells to copy for some held values, each once. -/
def reach (s : Store) (kept : Address → Bool) (xs : List Shared) : List Address :=
  (xs.flatMap fun x => s.reachWithin kept s.length x).eraseDups

/-- Where a cell is in the copy, with the cells to copy in their order. -/
def place (s : Store) (kept : Address → Bool) (order : List Address) (a : Address) : Address :=
  if kept a then a else s.length + order.idxOf a

/-- The copies of the cells. -/
def block (s : Store) (kept : Address → Bool) (order : List Address) : List Cell :=
  order.map fun a => (s.cellAt a).relocate (s.place kept order)

/-- The store with a deep copy of some held values, and where each cell is in the copy. -/
def copied (s : Store) (xs : List Shared) : Store × (Address → Address) :=
  let order := s.reach s.isFixed xs
  (s ++ s.block s.isFixed order, s.place s.isFixed order)

def copy (s : Store) (x : Shared) : Store × Shared :=
  let (store, f) := s.copied [x]
  (store, x.relocate f)

def copyCell (s : Store) (a : Address) : Store × Address :=
  let (store, f) := s.copied [.cell a]
  (store, f a)

/-- The store with a copy by way of bytes, where each cell is in it, and the next mark. -/
def transferred (s : Store) (next : Nat) (xs : List Shared) :
    Store × (Address → Address) × Nat :=
  let kept := fun _ => false
  let order := s.reach kept xs
  let (cells, next) := Cell.freshenAll next (s.block kept order)
  (s ++ cells, s.place kept order, next)

/-- A new dictionary with deep copies of held entries. -/
def copyEntries (s : Store) (es : List (Value × Shared)) : Store × Address :=
  copyCell (s ++ [.dict es]) s.length

/-- The options of a copied bag; there are none where there is no bag. -/
def copyBag (s : Store) : Shared → Store × Address
  | .bag _ a => s.copyCell a
  | _ => (s ++ [.dict []], s.length)

end Store

end ClientRegistry
