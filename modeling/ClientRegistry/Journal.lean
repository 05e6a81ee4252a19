import ClientRegistry.Fault

/-! Log records and results that carry them. An operation returns what it logged beside its
value or its fault, in the order of logging. -/

namespace ClientRegistry

inductive Severity where
  | debug
  | info
  | warning
  deriving DecidableEq

def Severity.level : Severity → Nat
  | .debug => 10
  | .info => 20
  | .warning => 30

inductive Channel where
  | validation
  | builder
  | registry
  | session
  deriving DecidableEq

inductive ContextField where
  | registrationId
  | clientId
  | field
  deriving DecidableEq

def ContextField.key : ContextField → String
  | .registrationId => "registration_id"
  | .clientId => "client_id"
  | .field => "field"

structure LogRecord where
  severity : Severity
  channel : Channel
  message : List Char
  context : List (ContextField × Value)
  cause : Option Fault

structure Outcome (α : Type) where
  result : Except Fault α
  log : List LogRecord

namespace Outcome

variable {α β : Type}

def ok (a : α) : Outcome α := ⟨.ok a, []⟩

def fail (f : Fault) : Outcome α := ⟨.error f, []⟩

def ofExcept (r : Except Fault α) : Outcome α := ⟨r, []⟩

/-- Goes on with a value and appends the logs; a fault ends the operation. -/
def andThen (x : Outcome α) (f : α → Outcome β) : Outcome β :=
  match x.result with
  | .ok a => ⟨(f a).result, x.log ++ (f a).log⟩
  | .error e => ⟨.error e, x.log⟩

instance : Monad Outcome where
  pure := ok
  bind := andThen

def record (r : LogRecord) : Outcome Unit := ⟨.ok (), [r]⟩

def reject (r : LogRecord) (f : Fault) : Outcome α := ⟨.error f, [r]⟩

def succeeds (x : Outcome α) : Bool :=
  match x.result with
  | .ok _ => true
  | .error _ => false

@[simp] theorem andThen_ok (a : α) (f : α → Outcome β) : (ok a).andThen f = f a := by
  simp [ok, andThen]

end Outcome

end ClientRegistry
