import AgenticLocalApp.Resilience.FailureRecords

/-!
# The failure policy

What is decided about a failure of a remote call: the decision depends on the type of the error and
on the attempt, never on the flag that the producer of the error set.
-/

namespace AgenticLocalApp

/-- The retry section of the configuration. -/
structure RetryConfig where
  maxAttempts : Nat
  baseDelayMs : Nat
  maxDelayMs : Nat
  maxAttempts_pos : 0 < maxAttempts

/-- `delay_ms`, without jitter. -/
def RetryConfig.delayMs (c : RetryConfig) (attempt : Nat) : Nat :=
  min (c.baseDelayMs * 2 ^ (attempt - 1)) c.maxDelayMs

def RetryConfig.canRetry (c : RetryConfig) (attempt : Nat) : Bool := attempt < c.maxAttempts

inductive DecisionKind where
  | retry | abort | rotate | pause | fail
  deriving DecidableEq, Repr

instance : StrEnum DecisionKind where
  value
    | .retry => "retry"
    | .abort => "abort"
    | .rotate => "rotate"
    | .pause => "pause"
    | .fail => "fail"

instance : StrEnum ErrorType where
  value
    | .authnError => "AUTHN_ERROR"
    | .authzError => "AUTHZ_ERROR"
    | .networkError => "NETWORK_ERROR"
    | .timeoutError => "TIMEOUT_ERROR"
    | .rateLimitError => "RATE_LIMIT_ERROR"
    | .modelProtocolError => "MODEL_PROTOCOL_ERROR"
    | .modelContextWindowError => "MODEL_CONTEXT_WINDOW_ERROR"
    | .taskExecutionError => "TASK_EXECUTION_ERROR"
    | .persistenceError => "PERSISTENCE_ERROR"
    | .budgetExceeded => "BUDGET_EXCEEDED"
    | .rotationFailed => "ROTATION_FAILED"
    | .interrupted => "INTERRUPTED"
    | .systemError => "SYSTEM_ERROR"

/-- What to do about a failure; only a retry has a delay. -/
structure Decision where
  kind : DecisionKind
  delayMs : Option Nat
  reason : String
  delay_iff : delayMs.isSome ↔ kind = .retry

structure FailureManager where
  retry : RetryConfig
  breaker : BreakerConfig

def isTransient (error : NormalizedError) : Bool :=
  match error.details.lookup "transient" with
  | some (.bool true) => true
  | _ => false

/-- `_is_policy_retryable`. -/
def isPolicyRetryable (error : NormalizedError) : Bool :=
  error.errorType ∈ retryableErrorTypes || (error.errorType = .systemError && isTransient error)

/-- The error that an exception carries, or the one of an exception that nobody expected. -/
def classify : Exc → NormalizedError
  | .invalidTransition entity current target =>
    mkError .systemError "INVALID_TRANSITION" "StateMachine" [("entity", .str entity),
      ("current", .str current), ("target", .str target)] .critical false false
  | .transport e | .protocol e | .rotationFailed e | .budgetExceeded e | .sessionInterrupted e
  | .app e => e
  | .valueError m => unhandled "ValueError" m
  | .keyError m => unhandled "KeyError" m
  | .runtimeError m => unhandled "RuntimeError" m
  | .loopInterrupted => unhandled "_InterruptedError" ""
  | .loopRotate e => unhandled "_RotateRequestedError" e.errorCode
  | .loopPaused e => unhandled "_PausedError" e.errorCode
  | .loopFailed f => unhandled "_FailedError" f.error.errorCode
where
  unhandled (name message : String) : NormalizedError :=
    mkError .systemError "UNHANDLED_EXCEPTION" "FailureManager" [("type", .str name),
      ("message", .str message), ("exception", .str name)] .critical false false

namespace FailureManager

variable (fm : FailureManager)

/-- `breaker.allow()`. -/
def breakerAllows : Prog App Bool := do
  let nowMs ← monotonicMs
  let b := (← .read).breaker
  let (allowed, after) := b.allow fm.breaker nowMs
  .update fun w => { w with breaker := after }
  return allowed

/-- `note_success`. -/
def noteSuccess : Prog App Unit := .update fun w => { w with breaker := w.breaker.recordSuccess }

/-- The hint of the server, when it gave one. -/
def retryAfterMs (error : NormalizedError) : Int :=
  match error.details.lookup "retry_after_ms" with
  | some (.int n) => n
  | _ => 0

/-- `decide`. -/
def decide (error : NormalizedError) (attempt : Nat) : Prog App Decision := do
  if error.errorType = .modelContextWindowError then
    return ⟨.rotate, none, "context_window_exceeded", by simp⟩
  else if error.errorType = .authnError then
    return ⟨.pause, none, "credentials_required", by simp⟩
  else if isPolicyRetryable error then
    if ¬ fm.retry.canRetry attempt then
      return ⟨.fail, none, "max_attempts_exhausted", by simp⟩
    else if ← fm.breakerAllows then
      let delay := max (fm.retry.delayMs attempt) (retryAfterMs error).toNat
      return ⟨.retry, some delay, "retryable_error", by simp⟩
    else return ⟨.fail, none, "circuit_open", by simp⟩
  else if error.errorType = .interrupted then
    return ⟨.abort, none, "interrupted", by simp⟩
  else return ⟨.fail, none, s!"non_retryable:{StrEnum.value error.errorType}", by simp⟩

/-- `_feeds_breaker`: the failures of the transport itself. -/
def feedsBreaker (error : NormalizedError) : Bool := isPolicyRetryable error

/-- Where the remote call was made. -/
structure CallContext where
  operation : String
  sessionId : String
  conversationId : Option String
  cycleId : Option String

/-- `record_decision`. -/
def recordDecision (decision : Decision) (error : NormalizedError) (at' : CallContext)
    (attempt : Nat) : Prog App RetryDecisionRecord := do
  let createdAt ← now
  let decisionId ← newId .decision
  let record : RetryDecisionRecord :=
    { decisionId := decisionId
      sessionId := at'.sessionId
      conversationId := at'.conversationId
      cycleId := at'.cycleId
      operation := at'.operation
      errorType := error.errorType
      errorCode := error.errorCode
      attempt := attempt
      maxAttempts := fm.retry.maxAttempts
      decision := StrEnum.value decision.kind
      delayMs := decision.delayMs
      createdAt := createdAt }
  writeStore fun σ => σ.saveRetryDecision record
  return record

/-- `handle`, of an error that was already classified: it is recorded, counted by the breaker where
it speaks of the transport, and decided upon. -/
def handle (error : NormalizedError) (attempt : Nat) (at' : CallContext) :
    Prog App (NormalizedError × Decision) := do
  let error := { error with attempt := attempt, maxAttempts := fm.retry.maxAttempts }
  let _ ← recordFailure error { sessionId := at'.sessionId, conversationId := at'.conversationId }
  if feedsBreaker error then
    let nowMs ← monotonicMs
    .update fun w => { w with breaker := w.breaker.recordFailure fm.breaker nowMs }
  let decision ← fm.decide error attempt
  let _ ← fm.recordDecision decision error at' attempt
  return (error, decision)

/-! ## Rules -/

section Rules

open Prog

variable {fm : FailureManager} {C : Contract App} {w : World}

theorem wp_recordDecision (hC : Quiet C) {decision : Decision} {error : NormalizedError}
    {at' : CallContext} {attempt : Nat} {Q}
    (h : ∀ record, record.decision = StrEnum.value decision.kind →
      record.conversationId = at'.conversationId →
      C.guar w { w with store := w.store.saveRetryDecision record } ∧
        Q (.ok record) { w with store := w.store.saveRetryDecision record }) :
    wp C (fm.recordDecision decision error at' attempt) Q w := by
  unfold recordDecision
  rw [wp_bind]
  refine wp_now hC fun now => ?_
  rw [after_ok, wp_bind]
  refine wp_newId hC fun id _ => ?_
  exact h _ rfl rfl

end Rules

end FailureManager

end AgenticLocalApp
