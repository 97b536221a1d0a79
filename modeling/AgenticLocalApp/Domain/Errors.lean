import AgenticLocalApp.Domain.Canonical
import AgenticLocalApp.Domain.States

/-!
# Error taxonomy

Every failure that crosses a component boundary is a normalized error.  The exceptions of the
program are the constructors of `Exc`: those that carry a normalized error, those that the standard
library raises, and those by which the protocol loop leaves off.
-/

namespace AgenticLocalApp

inductive ErrorType where
  | authnError | authzError | networkError | timeoutError | rateLimitError | modelProtocolError
  | modelContextWindowError | taskExecutionError | persistenceError | budgetExceeded
  | rotationFailed | interrupted | systemError
  deriving DecidableEq, Repr

inductive Severity where
  | low | medium | high | critical
  deriving DecidableEq, Repr

/-- The error types that may be retried. -/
def retryableErrorTypes : List ErrorType := [.networkError, .timeoutError, .rateLimitError]

structure NormalizedError where
  errorType : ErrorType
  errorCode : String
  severity : Severity
  origin : String
  retryable : Bool
  recoverable : Bool
  attempt : Nat
  maxAttempts : Nat
  details : List (String × Json)

/-- `_err`, with the defaults of its keywords. -/
def mkError (errorType : ErrorType) (code origin : String) (details : List (String × Json))
    (severity : Severity := .high) (retryable : Bool := false) (recoverable : Bool := true) :
    NormalizedError where
  errorType := errorType
  errorCode := code
  severity := severity
  origin := origin
  retryable := retryable
  recoverable := recoverable
  attempt := 1
  maxAttempts := 1
  details := details

/-- Why the protocol loop must end in `FAILED`. -/
structure LoopFailure where
  error : NormalizedError
  /-- A failure record was already written. -/
  recorded : Bool
  planId : Option String := none

/-- The exceptions of the program. -/
inductive Exc where
  /-- A state change absent from the transition tables. -/
  | invalidTransition (entity current target : String)
  | transport (error : NormalizedError)
  | protocol (error : NormalizedError)
  | rotationFailed (error : NormalizedError)
  | budgetExceeded (error : NormalizedError)
  | sessionInterrupted (error : NormalizedError)
  /-- An application error of any other class, which carries its normalized error. -/
  | app (error : NormalizedError)
  | valueError (message : String)
  | keyError (message : String)
  | runtimeError (message : String)
  /-- The loop must stop silently. -/
  | loopInterrupted
  /-- The failure policy decided to rotate. -/
  | loopRotate (error : NormalizedError)
  /-- The failure policy decided to pause. -/
  | loopPaused (error : NormalizedError)
  | loopFailed (failure : LoopFailure)

def persistenceError (code : String) (transient : Bool) (details : List (String × Json)) :
    NormalizedError :=
  mkError .persistenceError code "ConversationStore" (("transient", .bool transient) :: details)
    .critical transient transient

/-- `isinstance(exc, PersistenceError)`. -/
def Exc.isPersistenceError : Exc → Bool
  | .app error => error.errorType = .persistenceError
  | _ => false

def taskExecutionError (code : String) (details : List (String × Json)) : NormalizedError :=
  mkError .taskExecutionError code "CommandExecutor" details

/-- `GenericSystemError`, not a transient one. -/
def genericSystemError (code origin : String) (details : List (String × Json)) : NormalizedError :=
  mkError .systemError code origin (("transient", .bool false) :: details) .high false false

def planEntity : String := "plan"
def taskEntity : String := "task"

/-- `assert_transition`. -/
def assertTransition {S : Type} [DecidableEq S] [StrEnum S] (table : S → List S)
    (current target : S) (entity : String) : Except Exc Unit :=
  if canTransition table current target then .ok ()
  else .error (.invalidTransition entity (StrEnum.value current) (StrEnum.value target))

theorem assertTransition_eq_ok_iff {S : Type} [DecidableEq S] [StrEnum S] {table : S → List S}
    {current target : S} {entity : String} :
    assertTransition table current target entity = .ok () ↔ canTransition table current target := by
  unfold assertTransition
  split <;> simp [*]

end AgenticLocalApp
