/-! The table of registered clients, and its definition in SQL. -/

namespace ClientRegistry.Database

/-- The column types of the table. An array holds bounded or unbounded texts. -/
inductive ColumnType where
  | varchar (length : Option Nat)
  | text
  | timestamp
  | array (items : ColumnType)
  | jsonb
  deriving DecidableEq

structure Column where
  name : String
  type : ColumnType
  nullable : Bool
  primaryKey : Bool
  unique : Bool
  deriving DecidableEq

namespace ColumnType

/-- The generic name of a type, without what only the definition of the table says. -/
def genericName : ColumnType → String
  | varchar (some n) => "VARCHAR(" ++ toString n ++ ")"
  | varchar none => "VARCHAR"
  | text => "TEXT"
  | timestamp => "DATETIME"
  | array _ => "ARRAY"
  | jsonb => "JSONB"

/-- The name of a type in a table definition. -/
def definition : ColumnType → String
  | varchar (some n) => "VARCHAR(" ++ toString n ++ ")"
  | varchar none => "VARCHAR"
  | text => "TEXT"
  | timestamp => "TIMESTAMP WITH TIME ZONE"
  | array items => items.definition ++ "[]"
  | jsonb => "JSONB"

def length? : ColumnType → Option Nat
  | varchar n => n
  | array items => items.length?
  | _ => none

/-- Arrays and documents are empty by default. -/
def hasDefault : ColumnType → Bool
  | array _ => true
  | jsonb => true
  | _ => false

end ColumnType

def tableName : String := "registered_clients"

def columns : List Column :=
  [⟨"id", .varchar (some 100), false, true, false⟩,
    ⟨"client_id", .varchar (some 100), false, false, true⟩,
    ⟨"client_id_issued_at", .timestamp, true, false, false⟩,
    ⟨"client_secret", .varchar (some 200), true, false, false⟩,
    ⟨"client_secret_expires_at", .timestamp, true, false, false⟩,
    ⟨"client_name", .varchar (some 200), false, false, false⟩,
    ⟨"client_authentication_methods", .array (.varchar none), false, false, false⟩,
    ⟨"authorization_grant_types", .array (.varchar none), false, false, false⟩,
    ⟨"redirect_uris", .array .text, false, false, false⟩,
    ⟨"scopes", .array (.varchar none), false, false, false⟩,
    ⟨"client_settings", .jsonb, false, false, false⟩,
    ⟨"token_settings", .jsonb, false, false, false⟩]

def Column.line (c : Column) : String :=
  c.name ++ " " ++ c.type.definition
    ++ (if c.type.hasDefault then " DEFAULT '\x7b\x7d'" else "")
    ++ (if c.nullable then "," else " NOT NULL,")

def keyLines : List String :=
  (columns.filter Column.primaryKey).map (fun c => "PRIMARY KEY (" ++ c.name ++ "),")
    ++ (columns.filter Column.unique).map (fun c => "UNIQUE (" ++ c.name ++ ")")

/-- The statement that creates the table, line by line. -/
def createTable : List String :=
  ("CREATE TABLE " ++ tableName ++ " (") :: columns.map Column.line ++ keyLines ++ [")"]

def dropTable : List String :=
  ["DROP TABLE " ++ tableName]

end ClientRegistry.Database
