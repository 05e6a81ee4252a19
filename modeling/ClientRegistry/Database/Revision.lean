import ClientRegistry.Fault
import ClientRegistry.Text.Split
import ClientRegistry.Text.Word

/-! The history of the schema has one revision. A text names a place in it: outright, or as a
number of steps from another place. A label before an at sign narrows the choice to a branch;
the one branch is known by its revision. -/

namespace ClientRegistry.Database

/-- The two ends of the history. -/
inductive Stage where
  | base
  | created
  deriving DecidableEq

def revision : List Char := "3b1f0c7e9a42".toList

namespace Stage

/-- A revision is known by any beginning of its name, but by something. -/
def checkName (name : List Char) : Except Fault Unit :=
  if name.isEmpty then .error .failedAssertion
  else if name.isPrefixOf revision then .ok ()
  else .error .unknownRevision

/-- A label is empty or the name of a branch. -/
def checkLabel : Option (List Char) → Except Fault Unit
  | none => .ok ()
  | some [] => .ok ()
  | some label => checkName label

/-- The label before the first at sign, and the rest. -/
def splitLabel (cs : List Char) : Option (List Char) × List Char :=
  match Text.cut '@' cs with
  | (label, some rest) => (some label, rest)
  | (_, none) => (none, cs)

def isHead (name : List Char) : Bool :=
  name == "head".toList || name == "heads".toList

def isBase (name : List Char) : Bool :=
  name == "base".toList

/-- What a branch goes by: the head, the base, or the name of its revision. -/
def checkBranch (name : List Char) : Except Fault Unit :=
  if isHead name || isBase name then .ok () else checkName name

/-- The revision that a text stands for, by its name; the base is none. The head of a branch is
that of the history. -/
def resolve (label : Option (List Char)) (name : List Char) : Except Fault (Option (List Char)) :=
  if isHead name then
    match label with
    | some (c :: cs) => (checkBranch (c :: cs)).map fun _ => some revision
    | _ => .ok (some revision)
  else .ok (if isBase name then none else some name)

/-- The place that a text names outright. -/
def named (cs : List Char) : Except Fault Stage := do
  let (label, name) := splitLabel cs
  let found ← resolve label name
  checkLabel label
  match found with
  | none => .ok base
  | some name => (checkName name).map fun _ => created

/-- The start of a script. The base goes by its plain name only. -/
def start (cs : List Char) : Except Fault Stage :=
  if isBase cs then .ok base
  else match named cs with
    | .ok base => .error .noAttribute
    | found => found

end Stage

/-- Steps from a place: a label, a place, and a signed number of steps. A label or place that is
left out is empty. -/
structure Steps where
  label : List Char
  place : List Char
  count : List Char

namespace Steps

def isDigit (c : Char) : Bool :=
  (Text.digit? c).isSome

/-- A place and a number of steps in front of a text. What follows them is left aside. -/
def unlabelled? (label cs : List Char) : Option Steps :=
  let place := cs.takeWhile Text.isWord
  match cs.drop place.length with
  | sign :: rest =>
    let digits := rest.takeWhile isDigit
    if (sign = '+' ∨ sign = '-') ∧ digits ≠ [] then some ⟨label, place, sign :: digits⟩ else none
  | [] => none

/-- The shortest label that steps follow; it stays on one line. The first argument is what was
read of it. -/
def labelled? (label : List Char) : List Char → Option Steps
  | [] => none
  | c :: cs =>
    if c = '\n' then none
    else match label, c, unlabelled? label cs with
      | _ :: _, '@', some steps => some steps
      | _, _, _ => labelled? (label ++ [c]) cs

/-- Steps with a label or without one. -/
def ofText? (cs : List Char) : Option Steps :=
  match labelled? [] cs with
  | some steps => some steps
  | none => unlabelled? [] cs

/-- The number of steps; a negative one leads down. -/
def number (s : Steps) : Except Fault Int :=
  match Integer.ofText s.count with
  | .ok n => .ok n
  | .error flaw => .error (.badInteger (String.ofList s.count) flaw)

/-- The names that a label puts to the test. -/
def labelNames (label : List Char) : Except Fault (List (List Char)) := do
  let (branch, name) := Stage.splitLabel label
  let found ← Stage.resolve branch name
  .ok ((branch.toList.filter fun b => !b.isEmpty) ++ found.toList)

/-- Whether the revision is on the branch of a label; without a label it is. -/
def checkMember (label : List Char) : Except Fault Unit :=
  if label.isEmpty then .ok () else do
    let names ← labelNames label
    names.forM Stage.checkName

/-- One step up. The head has none, but its label has to make sense. -/
def stepUp (label : List Char) : Stage → Except Fault (Option Stage)
  | .base => (checkMember label).map fun _ => some .created
  | .created =>
    if label.isEmpty then .ok none else (labelNames label).map fun _ => none

/-- Where steps up lead; none is beyond the head. -/
def walkUp (label : List Char) : Nat → Stage → Except Fault (Option Stage)
  | 0, stage => .ok (some stage)
  | n + 1, stage => do
    match ← stepUp label stage with
    | none => .ok none
    | some next => walkUp label n next

/-- Where steps down lead; none is beyond the base. The base that a text names is outside the
history, and the first step from it leads to the head. -/
def walkDown : Nat → Stage → Option Stage
  | 0, .created => some .created
  | 1, .created => some .base
  | n + 1, .base => walkDown n .created
  | _, _ => none

/-- The place that steps down start from; a label goes with its name. -/
def labelledPlace (s : Steps) : Except Fault Stage :=
  Stage.named (if s.label.isEmpty then s.place else s.label ++ '@' :: s.place)

end Steps

namespace Stage

/-- The end of an upgrade by steps. Steps from the current place lead up and have to reach the
revision; steps from another place reach it, or the upgrade cannot go on. -/
def upgradeSteps (current : Stage) (s : Steps) : Except Fault Stage := do
  let n ← s.number
  if s.place.isEmpty then
    if n ≤ 0 then .error .unknownRevision
    else do
      Steps.checkMember s.label
      match ← Steps.walkUp s.label n.natAbs current with
      | some created => .ok created
      | _ => .error .unknownRevision
  else do
    let reached ← (if 0 < n then do
        let place ← named s.place
        Steps.walkUp s.label n.natAbs place
      else do
        let place ← s.labelledPlace
        .ok (Steps.walkDown n.natAbs place))
    match reached with
    | some created => .ok created
    | _ => .error .failedAssertion

def isNegative (cs : List Char) : Bool :=
  match Integer.ofText cs with
  | .ok n => n < 0
  | .error _ => false

/-- The end of an upgrade that is named outright. A negative number counts down from the heads of
a branch; no branch has a label of its own, so that a label leaves none. -/
def upgradeNamed (cs : List Char) : Except Fault Stage := do
  let (label, name) := splitLabel cs
  match ← resolve label name with
  | none => .ok base
  | some name =>
    if isNegative name then
      if label.isSome then .ok base else .error .failedAssertion
    else do
      checkLabel label
      checkName name
      .ok created

def upgradeTarget (current : Stage) (cs : List Char) : Except Fault Stage :=
  match Steps.ofText? cs with
  | some steps => upgradeSteps current steps
  | none => upgradeNamed cs

/-- The place that steps down from the current one start at. -/
def currentPlace (current : Stage) (label : List Char) : Except Fault Stage :=
  match current with
  | base =>
    if label.isEmpty then .error .unknownRevision
    else (Steps.labelNames label).bind fun _ => .error .failedAssertion
  | created =>
    if label.isEmpty then .ok created
    else (Steps.checkMember label).bind fun _ => named (label ++ '@' :: revision)

def downgradeSteps (current : Stage) (s : Steps) : Except Fault Stage := do
  let n ← s.number
  let reached ← (if 0 ≤ n then
      if s.place.isEmpty then .ok none
      else do
        let place ← named s.place
        let reached ← Steps.walkUp s.label n.natAbs place
        .ok (reached.filter (· == created))
    else do
      let place ← (if s.place.isEmpty then currentPlace current s.label else s.labelledPlace)
      .ok (Steps.walkDown n.natAbs place))
  match reached with
  | some stage => .ok stage
  | none => .error .unknownRevision

/-- The end of a downgrade. Outright it is named behind the last at sign. -/
def downgradeTarget (current : Stage) (cs : List Char) : Except Fault Stage :=
  match Steps.ofText? cs with
  | some steps => downgradeSteps current steps
  | none => named ((cs.reverse.takeWhile (· != '@')).reverse)

end Stage

end ClientRegistry.Database
