import AgenticLocalApp.Domain.States

/-!
# The circuit breaker

The memory of the breaker that all sessions share, and what each event does to it.
-/

namespace AgenticLocalApp

inductive CircuitState where
  | closed | opened | halfOpen
  deriving DecidableEq, Repr

instance : StrEnum CircuitState where
  value
    | .closed => "CLOSED"
    | .opened => "OPEN"
    | .halfOpen => "HALF_OPEN"

/-- The circuit breaker section of the configuration. -/
structure BreakerConfig where
  failureThreshold : Nat
  openDurationMs : Nat
  halfOpenMaxCalls : Nat

structure CircuitBreaker where
  state : CircuitState := .closed
  consecutiveFailures : Nat := 0
  openedAtMs : Option Int := none
  halfOpenCalls : Nat := 0
  deriving DecidableEq, Repr

namespace CircuitBreaker

variable (config : BreakerConfig) (b : CircuitBreaker)

/-- A trial call of a half-open breaker, if one is left. -/
def trial : Bool × CircuitBreaker :=
  if b.halfOpenCalls < config.halfOpenMaxCalls then
    (true, { b with halfOpenCalls := b.halfOpenCalls + 1 })
  else (false, b)

/-- `allow`, at `nowMs` on the monotonic clock. -/
def allow (nowMs : Int) : Bool × CircuitBreaker :=
  match b.state with
  | .closed => (true, b)
  | .opened =>
    if nowMs - b.openedAtMs.getD 0 < config.openDurationMs then (false, b)
    else trial config { b with halfOpenCalls := 0, state := .halfOpen }
  | .halfOpen => trial config b

/-- `record_success`: a late success does not close an open breaker. -/
def recordSuccess : CircuitBreaker :=
  match b.state with
  | .halfOpen => { b with consecutiveFailures := 0, halfOpenCalls := 0, state := .closed }
  | .closed => { b with consecutiveFailures := 0 }
  | .opened => b

/-- `_open`. -/
def opens (nowMs : Int) : CircuitBreaker :=
  { b with openedAtMs := some nowMs, halfOpenCalls := 0, state := .opened }

/-- `record_failure`. -/
def recordFailure (nowMs : Int) : CircuitBreaker :=
  let counted := { b with consecutiveFailures := b.consecutiveFailures + 1 }
  match b.state with
  | .closed =>
    if config.failureThreshold ≤ counted.consecutiveFailures then counted.opens nowMs else counted
  | .halfOpen => counted.opens nowMs
  | .opened => counted

end CircuitBreaker

end AgenticLocalApp
