import AgenticLocalApp.Domain.Errors
import AgenticLocalApp.Library.Table

/-!
# Persisted records

The records of the store, field by field, and the key each is stored under.  Plan and task
identifiers come from the model and are unique within a session only.
-/

namespace AgenticLocalApp

/-- A point in time, in microseconds. -/
abbrev Instant := Int

/-- The budget of a session, every limit positive. -/
structure SessionBudget where
  maxCycles : Nat
  maxPlans : Nat
  maxTotalDurationMs : Nat
  maxCycles_pos : 0 < maxCycles
  maxPlans_pos : 0 < maxPlans
  maxTotalDurationMs_pos : 0 < maxTotalDurationMs
  deriving DecidableEq

structure SessionRecord where
  sessionId : String
  status : SessionState
  goal : String
  userMessage : String
  userId : String
  autoCloseOnFinalAnswer : Bool
  budget : SessionBudget
  consumedCycles : Nat := 0
  consumedPlans : Nat := 0
  rotationsCount : Nat := 0
  currentConversationId : Option String := none
  finalAnswer : Option Json := none
  lastFailureId : Option String := none
  startedAt : Option Instant := none
  endedAt : Option Instant := none
  interruptedAt : Option Instant := none
  createdAt : Instant
  updatedAt : Instant

structure ConversationRecord where
  conversationId : String
  sessionId : String
  parentConversationId : Option String := none
  remoteConversationId : Option String := none
  status : ConversationState
  autoCloseOnFinalAnswer : Bool
  contextWindowState : ContextWindowState := .healthy
  contextBytes : Nat := 0
  protocolErrorCount : Nat := 0
  lastModelResponseState : String := "none"
  currentCycleId : Option String := none
  currentPlanId : Option String := none
  lastCompletedPlanId : Option String := none
  finalAnswerReceived : Bool := false
  lastOutboundMessageId : Option String := none
  lastInboundMessageId : Option String := none
  getCursor : Option String := none
  sessionBudget : SessionBudget
  closureReason : Option String := none
  interruptedAt : Option Instant := none
  createdAt : Instant
  updatedAt : Instant

structure CycleRecord where
  cycleId : String
  conversationId : String
  sessionId : String
  cycleType : CycleType
  status : CycleState
  retryCount : Nat := 0
  outboundMessageId : Option String := none
  inboundMessageId : Option String := none
  planId : Option String := none
  startedAt : Instant
  endedAt : Option Instant := none

structure PlanRecord where
  planId : String
  sessionId : String
  conversationId : String
  cycleId : String
  planType : PlanType
  objective : String
  executionPolicy : ExecutionPolicy
  maxParallelWorkers : Int := 1
  status : PlanState
  stopReason : Option String := none
  taskCount : Nat := 0
  completedTaskCount : Nat := 0
  failedTaskCount : Nat := 0
  skippedTaskCount : Nat := 0
  cancelledTaskCount : Nat := 0
  interruptedTaskCount : Nat := 0
  defaultMaxOutputBytes : Option Int := none
  stateSummary : Option Json := none
  startedAt : Option Instant := none
  endedAt : Option Instant := none
  createdAt : Instant
  updatedAt : Instant

structure TaskRecord where
  taskId : String
  planId : String
  sessionId : String
  conversationId : String
  orderIndex : Int
  type : TaskType
  cmd : Option String := none
  status : TaskState
  critical : Bool := false
  continueOnError : Bool := false
  stopPlanOnFailure : Bool := false
  stopPlanOnSuccess : Bool := false
  stopsPlanOnFailure : Bool := true
  dependsOn : List String := []
  resourceLock : Option String := none
  maxOutputBytes : Option Int := none
  maxOutputBytesApplied : Option Int := none
  timeoutMs : Option Int := none
  timeoutMsApplied : Option Int := none
  refTaskId : Option String := none
  stream : Option OutputStream := none
  byteOffset : Option Int := none
  maxBytes : Option Int := none
  attemptCount : Nat := 0
  exitCode : Option Int := none
  timedOut : Bool := false
  stdoutRef : Option String := none
  stderrRef : Option String := none
  truncated : Bool := false
  originalSizeBytes : Option Nat := none
  stdoutTotal : Option Nat := none
  stderrTotal : Option Nat := none
  stdoutRange : Option (Int × Int) := none
  stderrRange : Option (Int × Int) := none
  reason : Option String := none
  pid : Option Int := none
  processGroupId : Option Int := none
  startedAt : Option Instant := none
  endedAt : Option Instant := none
  durationMs : Option Int := none
  createdAt : Instant
  updatedAt : Instant
  deriving DecidableEq

structure MessageRecord where
  messageId : String
  sessionId : String
  conversationId : String
  direction : MessageDirection
  messageType : MessageType
  payload : Json
  sizeBytes : Nat
  cycleId : Option String := none
  postConfirmed : Bool := false
  postedAt : Option Instant := none
  receivedAt : Option Instant := none
  validationStatus : Option String := none
  retransmissionOf : Option String := none
  createdAt : Instant

structure FailureRecord where
  failureId : String
  sessionId : String
  conversationId : Option String := none
  planId : Option String := none
  taskId : Option String := none
  errorType : ErrorType
  errorCode : String
  severity : Severity
  origin : String
  retryable : Bool
  recoverable : Bool
  attempt : Nat := 1
  maxAttempts : Nat := 1
  details : List (String × Json)
  timestamp : Instant

structure ContextSummaryRecord where
  summaryId : String
  sessionId : String
  sourceConversationId : String
  targetConversationId : String
  summaryPayload : Json
  summarySizeBytes : Nat
  reductionStep : Nat := 0
  createdAt : Instant

structure BlobRecord where
  blobId : String
  sessionId : String
  taskId : String
  blobType : OutputStream
  content : List UInt8
  sizeBytes : Nat
  createdAt : Instant

structure RetryDecisionRecord where
  decisionId : String
  sessionId : String
  conversationId : Option String
  cycleId : Option String
  operation : String
  errorType : ErrorType
  errorCode : String
  attempt : Nat
  maxAttempts : Nat
  decision : String
  delayMs : Option Nat
  createdAt : Instant

/-- The counters of a plan over the statuses of its tasks. -/
def PlanRecord.withCounters (plan : PlanRecord) (statuses : List TaskState) : PlanRecord :=
  { plan with
    taskCount := statuses.length
    completedTaskCount := statuses.count .completed
    failedTaskCount := statuses.countP fun s => s ∈ failedTaskStates
    skippedTaskCount := statuses.count .skipped
    cancelledTaskCount := statuses.count .cancelled
    interruptedTaskCount := statuses.count .interrupted }

/-! ## Keys -/

instance : Keyed SessionRecord String := ⟨SessionRecord.sessionId⟩
instance : Keyed ConversationRecord String := ⟨ConversationRecord.conversationId⟩
instance : Keyed CycleRecord String := ⟨CycleRecord.cycleId⟩
instance : Keyed PlanRecord (String × String) := ⟨fun p => (p.sessionId, p.planId)⟩
instance : Keyed TaskRecord (String × String) := ⟨fun t => (t.sessionId, t.taskId)⟩
instance : Keyed MessageRecord String := ⟨MessageRecord.messageId⟩
instance : Keyed FailureRecord String := ⟨FailureRecord.failureId⟩
instance : Keyed ContextSummaryRecord String := ⟨ContextSummaryRecord.summaryId⟩
instance : Keyed BlobRecord String := ⟨BlobRecord.blobId⟩
instance : Keyed RetryDecisionRecord String := ⟨RetryDecisionRecord.decisionId⟩

@[simp] theorem key_session (s : SessionRecord) : Keyed.key s = s.sessionId := rfl
@[simp] theorem key_conversation (c : ConversationRecord) : Keyed.key c = c.conversationId := rfl
@[simp] theorem key_cycle (c : CycleRecord) : Keyed.key c = c.cycleId := rfl
@[simp] theorem key_plan (p : PlanRecord) : Keyed.key p = (p.sessionId, p.planId) := rfl
@[simp] theorem key_task (t : TaskRecord) : Keyed.key t = (t.sessionId, t.taskId) := rfl
@[simp] theorem key_message (m : MessageRecord) : Keyed.key m = m.messageId := rfl

/-! ## Sample records

Records in which only the named fields matter. -/

def SessionBudget.sample : SessionBudget := ⟨100, 50, 3600000, by decide, by decide, by decide⟩

def SessionRecord.sample (sessionId : String) (status : SessionState)
    (currentConversationId : Option String) : SessionRecord where
  sessionId := sessionId
  status := status
  goal := "goal"
  userMessage := "message"
  userId := "user"
  autoCloseOnFinalAnswer := false
  budget := .sample
  currentConversationId := currentConversationId
  createdAt := 0
  updatedAt := 0

def ConversationRecord.sample (conversationId sessionId : String) (status : ConversationState) :
    ConversationRecord where
  conversationId := conversationId
  sessionId := sessionId
  status := status
  autoCloseOnFinalAnswer := false
  sessionBudget := .sample
  createdAt := 0
  updatedAt := 0

def CycleRecord.sample (cycleId sessionId conversationId : String) (status : CycleState) :
    CycleRecord where
  cycleId := cycleId
  conversationId := conversationId
  sessionId := sessionId
  cycleType := .discovery
  status := status
  startedAt := 0

def MessageRecord.sample (messageId sessionId conversationId : String)
    (direction : MessageDirection) (messageType : MessageType) (cycleId : Option String) :
    MessageRecord where
  messageId := messageId
  sessionId := sessionId
  conversationId := conversationId
  direction := direction
  messageType := messageType
  payload := .obj []
  sizeBytes := 0
  cycleId := cycleId
  postConfirmed := true
  createdAt := 0

end AgenticLocalApp
