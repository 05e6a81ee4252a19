import ClientRegistry.Fault

/-! Set-up of logging: a threshold and one handler for all records, and a higher threshold for
the chatty parts. The changes are made one after another, and a refused one ends the set-up. -/

namespace ClientRegistry.Logging

/-- The two layouts of a record: one line of text, or one JSON object on a line. -/
inductive Layout where
  | container
  | json
  deriving DecidableEq

/-- What a level name can stand for, besides the default. -/
inductive Named where
  | level (n : Nat)
  | pattern (text : String)
  | table
  deriving DecidableEq

/-- As the threshold of a logger: a text that names no level and what is neither a text nor a
number are refused. -/
def Named.threshold : Named → Except Fault Nat
  | .level n => .ok n
  | .pattern text => .error (.unknownLevel text)
  | .table => .error .badType

/-- As the threshold of a chatty logger, which is at least 30; only numbers compare with 30. -/
def Named.quieted : Named → Except Fault Nat
  | .level n => .ok (max n 30)
  | .pattern _ => .error .badType
  | .table => .error .badType

/-- The names, all in upper case. Two of them name no level. -/
def names : List (String × Named) :=
  [("DEBUG", .level 10), ("INFO", .level 20), ("WARN", .level 30), ("WARNING", .level 30),
    ("ERROR", .level 40), ("CRITICAL", .level 50), ("FATAL", .level 50), ("NOTSET", .level 0),
    ("BASIC_FORMAT", .pattern "%(levelname)s:%(name)s:%(message)s"), ("_STYLES", .table)]

/-- The upper-case form of a character, as far as it consists of ASCII characters. -/
def upperChar (c : Char) : List Char :=
  match c.toNat with
  | 0xDF => ['S', 'S']
  | 0x131 => ['I']
  | 0x17F => ['S']
  | 0xFB00 => ['F', 'F']
  | 0xFB01 => ['F', 'I']
  | 0xFB02 => ['F', 'L']
  | 0xFB03 => ['F', 'F', 'I']
  | 0xFB04 => ['F', 'F', 'L']
  | 0xFB05 => ['S', 'T']
  | 0xFB06 => ['S', 'T']
  | _ => [c.toUpper]

def named? (name : List Char) : Option Named :=
  (names.find? fun n => n.1.toList == name.flatMap upperChar).map (·.2)

/-- The level of a name; names that are not known stand for 20. -/
def levelOf (name : List Char) : Except Fault Nat :=
  match named? name with
  | none => .ok 20
  | some (.level n) => .ok n
  | some (.pattern text) => .error (.unknownLevel text)
  | some .table => .error .badType

/-- The chatty loggers. -/
inductive Part where
  | engine
  | pool
  | migration

/-- The thresholds of the root and of the three chatty loggers, and the handlers of the root;
zero is no threshold. -/
structure State where
  root : Nat
  handlers : List Layout
  engine : Nat
  pool : Nat
  migration : Nat
  deriving DecidableEq

namespace State

def initial : State := ⟨30, [], 0, 0, 0⟩

/-- The state that a set-up leaves behind, whatever was before. -/
def configured (level : Nat) (layout : Layout) : State :=
  let quiet := max level 30
  ⟨level, [layout], quiet, quiet, quiet⟩

/-- One change of a set-up. -/
inductive Change where
  | root (level : Named)
  | clear
  | handler (layout : Layout)
  | quiet (part : Part) (level : Named)

def change (s : State) : Change → Except Fault State
  | .root level => do return { s with root := ← level.threshold }
  | .clear => .ok { s with handlers := [] }
  | .handler layout => .ok { s with handlers := s.handlers ++ [layout] }
  | .quiet .engine level => do return { s with engine := ← level.quieted }
  | .quiet .pool level => do return { s with pool := ← level.quieted }
  | .quiet .migration level => do return { s with migration := ← level.quieted }

/-- Makes changes up to the first that is refused. Those made before it stay. -/
def changeAll (s : State) : List Change → State × Except Fault Unit
  | [] => (s, .ok ())
  | c :: cs =>
    match s.change c with
    | .ok t => t.changeAll cs
    | .error e => (s, .error e)

/-- The changes of a set-up, in their order. -/
def changes (level : Named) (layout : Layout) : List Change :=
  [.root level, .clear, .handler layout, .quiet .engine level, .quiet .pool level,
    .quiet .migration level]

def setUp (s : State) (name : List Char) (layout : Layout) : State × Except Fault Unit :=
  s.changeAll (changes ((named? name).getD (.level 20)) layout)

/-- The loggers below the root that have a threshold. -/
def thresholds (s : State) : List (List Char × Nat) :=
  [("sqlalchemy".toList, 30), ("sqlalchemy.engine".toList, s.engine),
    ("sqlalchemy.pool".toList, s.pool), ("alembic".toList, s.migration)]

/-- The names that a dotted name is below, itself included, the nearest first. -/
def lineage (name : List Char) : List (List Char) :=
  (name :: (List.range name.length).filterMap fun i =>
    let n := name.length - 1 - i
    if 0 < n && name[n]? == some '.' then some (name.take n) else none)

/-- The threshold of the nearest logger that has one, or that of the root. -/
def threshold (s : State) (name : List Char) : Nat :=
  let own := (lineage name).filterMap fun n =>
    (s.thresholds.find? fun t => t.1 == n && t.2 != 0).map (·.2)
  own.headD s.root

/-- Levels from zero down are never handled. -/
def handles (s : State) (name : List Char) (level : Int) : Bool :=
  0 < level && (s.threshold name : Int) ≤ level

end State

end ClientRegistry.Logging
