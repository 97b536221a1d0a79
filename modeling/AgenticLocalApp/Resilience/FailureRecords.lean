import AgenticLocalApp.Runtime.World

/-!
# Failure records

A failure is persisted with everything its normalized error says and with where it happened.
-/

namespace AgenticLocalApp

/-- Where a failure happened. -/
structure FailureContext where
  sessionId : String
  conversationId : Option String := none
  planId : Option String := none
  taskId : Option String := none

def FailureRecord.of (failureId : String) (timestamp : Instant) (error : NormalizedError)
    (at' : FailureContext) : FailureRecord where
  failureId := failureId
  sessionId := at'.sessionId
  conversationId := at'.conversationId
  planId := at'.planId
  taskId := at'.taskId
  errorType := error.errorType
  errorCode := error.errorCode
  severity := error.severity
  origin := error.origin
  retryable := error.retryable
  recoverable := error.recoverable
  attempt := error.attempt
  maxAttempts := error.maxAttempts
  details := error.details
  timestamp := timestamp

/-- `FailureManager.record`. -/
def recordFailure (error : NormalizedError) (at' : FailureContext) : Prog App FailureRecord := do
  let now ← now
  let failureId ← newId .failure
  let record := FailureRecord.of failureId now error at'
  writeStore fun σ => σ.saveFailure record
  return record

theorem wp_recordFailure {C : Prog.Contract App} {w : World} (hC : Quiet C) {error : NormalizedError}
    {at' : FailureContext} {Q}
    (h : ∀ now id, let record := FailureRecord.of id now error at'
      C.guar w { w with store := w.store.saveFailure record } ∧
        Q (.ok record) { w with store := w.store.saveFailure record }) :
    Prog.wp C (recordFailure error at') Q w := by
  unfold recordFailure
  rw [Prog.wp_bind]
  refine wp_now hC fun now => ?_
  rw [Prog.after_ok, Prog.wp_bind]
  refine wp_newId hC fun id _ => ?_
  exact h now id

end AgenticLocalApp
