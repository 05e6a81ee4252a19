import ClientRegistry.Fault
import ClientRegistry.Text.Split

/-! The dialects of SQL, and the drivers that speak them. A driver's name is that of its dialect,
with a plus sign and a name of its own unless it is the usual one. -/

namespace ClientRegistry.Database

inductive Dialect where
  | postgresql
  | sqlite
  | mysql
  | mariadb
  | mssql
  | oracle
  deriving DecidableEq

namespace Dialect

def all : List Dialect := [postgresql, sqlite, mysql, mariadb, mssql, oracle]

def name : Dialect → String
  | postgresql => "postgresql"
  | sqlite => "sqlite"
  | mysql => "mysql"
  | mariadb => "mariadb"
  | mssql => "mssql"
  | oracle => "oracle"

/-- The drivers that the two related dialects share. -/
def sharedDrivers : List String :=
  ["base", "mysqldb", "pymysql", "aiomysql", "asyncmy", "cymysql", "mysqlconnector",
    "mariadbconnector", "pyodbc"]

/-- The drivers of a dialect; `base` is its usual one. -/
def drivers : Dialect → List String
  | postgresql =>
    ["base", "psycopg", "psycopg_async", "psycopg2", "psycopg2cffi", "pg8000", "asyncpg"]
  | sqlite => ["base", "pysqlite", "aiosqlite", "pysqlcipher"]
  | mysql => sharedDrivers
  | mariadb => sharedDrivers
  | mssql => ["base", "pyodbc", "pymssql", "aioodbc", "mssqlpython"]
  | oracle => ["base", "oracledb", "oracledb_async", "cx_oracle"]

/-- Names of a dialect that are not those of drivers, and that none can bear. -/
def takenNames : Dialect → List String
  | postgresql =>
    ["array", "bitstring", "dialect", "dml", "ext", "hstore", "json", "named_types", "operators",
      "pg_catalog", "ranges", "types"]
  | sqlite => ["dialect", "dml", "json"]
  | mysql =>
    ["dialect", "dml", "enumerated", "expression", "json", "mariadb", "reflection",
      "reserved_words", "types"]
  | mariadb =>
    ["dml", "enumerated", "expression", "json", "mariadb", "reflection", "reserved_words", "types"]
  | mssql => ["dialect", "information_schema", "json"]
  | oracle => ["dialect", "dictionary", "types"]

end Dialect

/-- How a driver reaches its database: it is not installed, it blocks its caller, it opens a
file, or it yields while it waits. -/
inductive Access where
  | missing
  | blocking
  | file
  | yielding
  deriving DecidableEq

structure Driver where
  dialect : Dialect
  name : String
  deriving DecidableEq

namespace Driver

def access : Driver → Access
  | ⟨.postgresql, name⟩ =>
    if name = "asyncpg" then .yielding else if name = "psycopg2" then .blocking else .missing
  | ⟨.sqlite, name⟩ => if name = "base" ∨ name = "pysqlite" then .file else .missing
  | _ => .missing

/-- The driver with a name of its own among those of a dialect. -/
def find (dialect driver : List Char) : Except Fault Driver :=
  match Dialect.all.find? fun d => d.name.toList == dialect with
  | none => .error (.badUrl .unknownDriver)
  | some d =>
    let name := String.ofList driver
    if d.drivers.contains name then .ok ⟨d, name⟩
    else if d.takenNames.contains name then .error .noAttribute
    else .error (.badUrl .unknownDriver)

/-- The driver of a name; there is one plus sign at most. -/
def ofName (cs : List Char) : Except Fault Driver :=
  match Text.splitAll '+' cs with
  | [dialect] => find dialect "base".toList
  | [dialect, driver] => find dialect driver
  | _ => .error .manyParts

end Driver

end ClientRegistry.Database
