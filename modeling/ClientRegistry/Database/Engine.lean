import ClientRegistry.Configuration
import ClientRegistry.Database.Driver
import ClientRegistry.Database.Hosts
import ClientRegistry.Database.Url
import ClientRegistry.Number.Real

/-! The engine of a process: it is opened for the configured URL, with a driver that yields. -/

namespace ClientRegistry.Database

structure EngineOptions where
  echo : Bool
  poolSize : Nat
  overflow : Nat
  expireOnCommit : Bool
  deriving DecidableEq

def checkInteger (q : Query) (name : String) : Except Fault Unit :=
  match q.values name with
  | [] => .ok ()
  | [value] => match Integer.ofText value with
    | .ok _ => .ok ()
    | .error flaw => .error (.badInteger (String.ofList value) flaw)
  | _ => .error .badType

def checkReal (q : Query) (name : String) : Except Fault Unit :=
  match q.values name with
  | [] => .ok ()
  | [value] =>
    if Numeral.isReal value then .ok () else .error (.badReal (String.ofList value))
  | _ => .error .badType

def truthNames : List String :=
  ["true", "yes", "on", "y", "t", "1", "false", "no", "n", "off", "f", "0"]

/-- The truth value of an option, if it is given; several values are true. -/
def checkTruth (q : Query) (name : String) : Except Fault Unit :=
  match q.values name with
  | [value] =>
    let folded := String.ofList (Text.lower (Text.trimBlanks value))
    if truthNames.contains folded then .ok () else .error (.badTruth folded)
  | _ => .ok ()

/-- A driver that yields takes several hosts only with all their ports. -/
def checkYielding (q : Query) : Except Fault Unit := do
  let hosts ← Hosts.ofQuery q
  if hosts.complete then checkInteger q "prepared_statement_cache_size"
  else .error (.badUrl .unfit)

/-- A file needs no host and no user. -/
def isLocal (url : Url) : Bool :=
  url.user.isEmpty && url.password.isEmpty && url.host.isEmpty && url.port.getD 0 == 0

def isInMemory (url : Url) : Bool :=
  url.database.isEmpty || url.database == ":memory:".toList
    || url.query.values "mode" == ["memory".toList]

/-- A file is never opened: its driver blocks, and what lives in memory has no pool of
connections. -/
def checkFile (url : Url) : Except Fault Unit :=
  if isLocal url then do
    checkTruth url.query "uri"
    checkReal url.query "timeout"
    checkInteger url.query "detect_types"
    checkTruth url.query "check_same_thread"
    checkInteger url.query "cached_statements"
    .error (if isInMemory url then .badType else .badUrl .blockingDriver)
  else .error (.badUrl .unfit)

/-- Whether an engine can be opened for a URL. There are no plugins to load. -/
def checkUrl (url : Url) : Except Fault Unit :=
  if url.query.values "plugin" ≠ [] then .error (.badUrl .unknownDriver)
  else do
    let driver ← Driver.ofName url.driver
    match driver.access with
    | .missing => .error (.badUrl .missingDriver)
    | .file => checkFile url
    | .yielding => checkYielding url.query
    | .blocking =>
      let _ ← Hosts.ofQuery url.query
      .error (.badUrl .blockingDriver)

/-- The options of the configured engine; without a URL there is no engine. Statements are
echoed during development. -/
def engineOptions (c : Configuration) : Except Fault (Option EngineOptions) :=
  match c.databaseUrl with
  | none => .ok none
  | some text => do
    let url ← Url.ofText text.toList
    checkUrl url
    .ok (some ⟨c.isDev, 5, 10, false⟩)

end ClientRegistry.Database
