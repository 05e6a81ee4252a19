import ClientRegistry.Number.Integer
import ClientRegistry.Value.Printed

/-! Why an operation was refused. Each cause is a constructor; `Fault.message` gives the wording
of those whose wording callers may rely on. -/

namespace ClientRegistry

/-- One finding of a snapshot's validation: where it is, as names and positions. -/
inductive PathStep where
  | name (text : String)
  | index (n : Int)
  deriving DecidableEq

/-- What can be wrong with the data of a snapshot. -/
inductive SnapshotFlaw where
  | missing
  | notText
  | notUtf8
  | notList
  | notDict
  | notObject
  | notMoment
  | momentOutside
  | momentUnreadable
  | malformed
  | frozen
  deriving DecidableEq

structure SnapshotFinding where
  flaw : SnapshotFlaw
  path : List PathStep
  deriving DecidableEq

/-- The environment variables with a closed set of values. -/
inductive ClosedSetting where
  | appEnv
  | logLevel
  | logJson
  deriving DecidableEq

def ClosedSetting.variable : ClosedSetting → String
  | .appEnv => "APP_ENV"
  | .logLevel => "LOG_LEVEL"
  | .logJson => "LOG_JSON"

def ClosedSetting.admitted : ClosedSetting → String
  | .appEnv => "dev|test|prod"
  | .logLevel => "debug|info|warning|error"
  | .logJson => "a boolean"

/-- What can be wrong with a database URL: it cannot be read, its parts do not fit its driver or
one another, or the driver is not known, is not installed or blocks. -/
inductive UrlFlaw where
  | unreadable
  | unfit
  | unknownDriver
  | missingDriver
  | blockingDriver
  deriving DecidableEq

inductive Fault where
  | emptyArgument (name : String)
  | nullArgument (name : String)
  | emptyToken (kind : TokenKind)
  | notPair (position size : Nat)
  | missingField (field : String)
  | invalidScope (scope : Value)
  | invalidRedirectUri (uri : Value)
  | alreadyExists (clientId : Value)
  | notFrozenSet (field : String)
  | notSettings (field : String) (kind : BagKind)
  | badType
  | noAttribute
  | missingKey
  | outOfRange
  | tooLarge
  | frozenRecord
  | badSnapshot (findings : List SnapshotFinding)
  | notWritable
  | badSetting (setting : ClosedSetting) (given : String)
  | notConfigured
  | manyRows
  | unknownLevel (given : String)
  | badInterpolation (url : String) (position : Nat)
  | badReference
  | missingReference
  | endlessReference
  | badInteger (given : String) (flaw : Integer.Flaw)
  | badReal (given : String)
  | badTruth (given : String)
  | badUrl (flaw : UrlFlaw)
  | manyParts
  | unknownRevision
  | failedAssertion
  | unwritableType
  | stopped (reason : String)
  | unbound (name : String)
  deriving Inhabited

def TokenKind.noun : TokenKind → String
  | .grantType => "grant type"
  | .authMethod => "authentication method"

/-- The wording of a text that is no integer; only the first 200 characters of it are quoted. -/
def Integer.Flaw.message (given : String) : Integer.Flaw → String
  | .malformed =>
    "invalid literal for int() with base 10: "
      ++ String.ofList ((Text.quoted given.toList).take 200)
  | .tooLong digits =>
    "Exceeds the limit (" ++ toString Integer.longest
      ++ " digits) for integer string conversion: value has " ++ toString digits
      ++ " digits; use sys.set_int_max_str_digits() to increase the limit"

namespace Fault

/-- The wording of a fault; `none` where only the cause counts. -/
def message : Fault → Option String
  | emptyArgument name => some (name ++ " cannot be empty")
  | nullArgument name => some (name ++ " cannot be None")
  | emptyToken kind => some (kind.noun ++ " value cannot be empty")
  | notPair position size =>
    some ("dictionary update sequence element #" ++ toString position ++ " has length "
      ++ toString size ++ "; 2 is required")
  | missingField field => some (field ++ " cannot be empty")
  | invalidScope scope =>
    some ("scope \"" ++ String.ofList scope.displayed ++ "\" contains invalid characters")
  | invalidRedirectUri uri =>
    some ("redirect_uri \"" ++ String.ofList uri.displayed
      ++ "\" is not a valid redirect URI or contains fragment")
  | alreadyExists clientId => some (String.ofList clientId.displayed)
  | notFrozenSet field => some (field ++ " must be a frozenset")
  | notSettings field kind => some (field ++ " must be a " ++ kind.typeName)
  | badSetting setting given =>
    some (setting.variable ++ " must be " ++ setting.admitted ++ " (got "
      ++ String.ofList (Text.quoted given.toList) ++ ")")
  | notConfigured =>
    some "DATABASE_URL is not configured, cannot create a database session"
  | unknownLevel given =>
    some ("Unknown level: " ++ String.ofList (Text.quoted given.toList))
  | badInterpolation url position =>
    some ("invalid interpolation syntax in " ++ String.ofList (Text.quoted url.toList)
      ++ " at position " ++ toString position)
  | badInteger given flaw => some (flaw.message given)
  | badReal given =>
    some ("could not convert string to float: " ++ String.ofList (Text.quoted given.toList))
  | badTruth given =>
    some ("String is not true/false: " ++ String.ofList (Text.quoted given.toList))
  | manyParts => some "too many values to unpack (expected 2)"
  | stopped reason => some reason
  | unbound name => some name
  | _ => none

end Fault

end ClientRegistry
