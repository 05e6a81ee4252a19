import ClientRegistry.Fault
import ClientRegistry.Text.Blank
import ClientRegistry.Text.Lowercase

/-! The configuration of a process, read from four environment variables. Padding never counts,
and letter case counts in the database URL only. -/

namespace ClientRegistry

inductive Deployment where
  | dev
  | test
  | prod
  deriving DecidableEq

inductive Verbosity where
  | debug
  | info
  | warning
  | error
  deriving DecidableEq

def Deployment.name : Deployment → String
  | .dev => "dev"
  | .test => "test"
  | .prod => "prod"

def Verbosity.name : Verbosity → String
  | .debug => "debug"
  | .info => "info"
  | .warning => "warning"
  | .error => "error"

/-- The texts of the variables; an unset variable has none. -/
structure Environment where
  appEnv : Option String
  logLevel : Option String
  logJson : Option String
  databaseUrl : Option String

/-- A database URL is never empty. -/
structure Configuration where
  deployment : Deployment
  verbosity : Verbosity
  jsonLogs : Bool
  databaseUrl : Option String
  deriving DecidableEq

namespace Configuration

def deployment? (name : String) : Option Deployment :=
  [Deployment.dev, .test, .prod].find? fun d => d.name == name

def verbosity? (name : String) : Option Verbosity :=
  [Verbosity.debug, .info, .warning, .error].find? fun v => v.name == name

/-- The spellings of a boolean; nothing stands for false. -/
def boolean? (name : String) : Option Bool :=
  if ["1", "true", "yes", "on"].contains name then some true
  else if ["0", "false", "no", "off", ""].contains name then some false
  else none

/-- The text of a variable, or its default, without padding. -/
def trimmed (given : Option String) (default : String) : List Char :=
  Text.trimBlanks (given.getD default).toList

def folded (given : Option String) (default : String) : String :=
  String.ofList (Text.lower (trimmed given default))

def accept {α : Type} (setting : ClosedSetting) (choice : String → Option α) (given : String) :
    Except Fault α :=
  match choice given with
  | some a => .ok a
  | none => .error (.badSetting setting given)

/-- A blank URL counts as unset. -/
def url? (given : Option String) : Option String :=
  match trimmed given "" with
  | [] => none
  | cs => some (String.ofList cs)

/-- The configuration of an environment; the first variable with a bad value is named. -/
def load (env : Environment) : Except Fault Configuration := do
  let deployment ← accept .appEnv deployment? (folded env.appEnv "dev")
  let verbosity ← accept .logLevel verbosity? (folded env.logLevel "info")
  let jsonLogs ← accept .logJson boolean? (folded env.logJson "false")
  .ok ⟨deployment, verbosity, jsonLogs, url? env.databaseUrl⟩

def isDev (c : Configuration) : Bool := c.deployment == .dev
def isTest (c : Configuration) : Bool := c.deployment == .test
def isProd (c : Configuration) : Bool := c.deployment == .prod

end Configuration

end ClientRegistry
