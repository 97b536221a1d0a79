import AgenticLocalApp.Observability.AuditLog
import AgenticLocalApp.Persistence.Store
import Mathlib.Logic.Function.Basic

/-!
# The execution tracker

The runtime snapshot of a session, put together from a cache.  A tracked event makes the tracker
read again what the event concerns; everything else stays in the cache as it was read before.  The
interaction with the model and the position of the last event come from the events alone.
-/

namespace AgenticLocalApp

/-- What the tracker reads: the records, and the last link of the audit trail of each session. -/
structure Recorded where
  store : Store
  lastAuditEvent : String → Option AuditEvent

/-! ## Events -/

/-- `_TRACKED_EVENT_TYPES`: everything but the live output of the tasks. -/
def EventType.tracked (type : EventType) : Bool := type ≠ .taskOutput

/-- `_EXECUTION_EVENT_TYPES`. -/
def executionEventTypes : List EventType :=
  [.cycleStarted, .cycleEnded, .planReceived, .planStateChanged, .taskStateChanged,
    .rotationStarted, .rotationCompleted, .rotationFailed, .budgetExceeded, .interruptionRequested,
    .interruptionCompleted, .recoveryStarted, .recoveryAction, .recoveryCompleted]

def outboundMessageEvents : List EventType := [.messageOutbound, .messageRetransmitted]

def inboundMessageEvents : List EventType := [.messageInbound, .messageRejected]

/-- The value of a key of a payload. -/
def RawJson.get? (key : String) : RawJson → Option RawJson
  | .obj fields => fields.lookup (RawText.ofString key)
  | _ => none

/-- `_str_or_none`. -/
def strOrNone : Option RawJson → Option RawText
  | some (.str s) => some s
  | _ => none

/-- `_int_or_none`. -/
def intOrNone : Option RawJson → Option Int
  | some (.int n) => some n
  | _ => none

/-! ## Views -/

structure BudgetView where
  maxCycles : Nat
  maxPlans : Nat
  maxTotalDurationMs : Nat
  consumedCycles : Nat
  consumedPlans : Nat
  consumedDurationMs : Int

structure SessionView where
  sessionId : String
  status : SessionState
  goal : String
  autoCloseOnFinalAnswer : Bool
  sessionBudget : BudgetView
  rotationsCount : Nat
  currentConversationId : Option String
  startedAt : Option Instant
  endedAt : Option Instant
  interruptedAt : Option Instant
  createdAt : Instant
  updatedAt : Instant

structure ConversationView where
  conversationId : String
  parentConversationId : Option String
  status : ConversationState
  autoCloseOnFinalAnswer : Bool
  contextWindowState : ContextWindowState
  contextBytes : Nat
  lastModelResponseState : String
  currentCycleId : Option String
  currentPlanId : Option String
  lastCompletedPlanId : Option String
  finalAnswerReceived : Bool
  interruptedAt : Option Instant
  sessionBudget : BudgetView
  createdAt : Instant
  updatedAt : Instant

/-- One link of the conversation chain. -/
structure ConversationSummary where
  conversationId : String
  parentConversationId : Option String
  status : ConversationState

structure CycleView where
  cycleId : String
  cycleType : CycleType
  status : CycleState
  startedAt : Instant
  endedAt : Option Instant
  retryCount : Nat
  conversationId : String

structure PlanView where
  planId : String
  planType : PlanType
  objective : String
  executionPolicy : ExecutionPolicy
  maxParallelWorkers : Int
  status : PlanState
  stopReason : Option String
  taskCount : Nat
  completedTaskCount : Nat
  failedTaskCount : Nat
  skippedTaskCount : Nat
  cancelledTaskCount : Nat
  interruptedTaskCount : Nat
  startedAt : Option Instant
  endedAt : Option Instant

structure TaskView where
  taskId : String
  planId : String
  type : TaskType
  cmd : Option String
  status : TaskState
  critical : Bool
  continueOnError : Bool
  stopPlanOnFailure : Bool
  stopPlanOnSuccess : Bool
  dependsOn : List String
  resourceLock : Option String
  maxOutputBytes : Option Int
  attemptCount : Nat
  exitCode : Option Int
  truncated : Bool
  originalSizeBytes : Option Nat
  startedAt : Option Instant
  endedAt : Option Instant
  durationMs : Option Int
  timedOut : Bool
  reason : Option String

/-- The interaction with the model, as the `message.*` events tell it. -/
structure ModelInteractionView where
  lastOutboundMessageType : Option RawText := none
  lastInboundMessageType : Option RawText := none
  lastPostStatus : Option Int := none
  lastGetStatus : Option Int := none
  lastProtocolValidationStatus : Option RawText := none
  correctionAttempt : Int := 0
  correctionMaxAttempts : Int := 0

/-- What a snapshot shows of cycle, plan and tasks. -/
structure ExecutionView where
  cycle : Option CycleView
  plan : Option PlanView
  tasks : List TaskView
  runningTaskIds : List String

/-- What a snapshot shows of the records. -/
structure RecordsView extends ExecutionView where
  session : SessionView
  conversation : Option ConversationView
  conversations : List ConversationSummary

structure RuntimeSnapshot extends RecordsView where
  modelInteraction : ModelInteractionView
  lastEventType : Option String
  lastEventSequence : Option Int
  snapshotAt : Instant

/-- `_budget_view`: the duration runs to the end of the session, or to now. -/
def budgetView (session : SessionRecord) (now : Instant) : BudgetView where
  maxCycles := session.budget.maxCycles
  maxPlans := session.budget.maxPlans
  maxTotalDurationMs := session.budget.maxTotalDurationMs
  consumedCycles := session.consumedCycles
  consumedPlans := session.consumedPlans
  consumedDurationMs :=
    match session.startedAt with
    | none => 0
    | some startedAt => max 0 ((session.endedAt.getD now - startedAt) / 1000)

def sessionView (session : SessionRecord) (budget : BudgetView) : SessionView where
  sessionId := session.sessionId
  status := session.status
  goal := session.goal
  autoCloseOnFinalAnswer := session.autoCloseOnFinalAnswer
  sessionBudget := budget
  rotationsCount := session.rotationsCount
  currentConversationId := session.currentConversationId
  startedAt := session.startedAt
  endedAt := session.endedAt
  interruptedAt := session.interruptedAt
  createdAt := session.createdAt
  updatedAt := session.updatedAt

/-- `_conversation_view`. -/
def conversationView (budget : BudgetView) (conversation : ConversationRecord) :
    ConversationView where
  conversationId := conversation.conversationId
  parentConversationId := conversation.parentConversationId
  status := conversation.status
  autoCloseOnFinalAnswer := conversation.autoCloseOnFinalAnswer
  contextWindowState := conversation.contextWindowState
  contextBytes := conversation.contextBytes
  lastModelResponseState := conversation.lastModelResponseState
  currentCycleId := conversation.currentCycleId
  currentPlanId := conversation.currentPlanId
  lastCompletedPlanId := conversation.lastCompletedPlanId
  finalAnswerReceived := conversation.finalAnswerReceived
  interruptedAt := conversation.interruptedAt
  sessionBudget := budget
  createdAt := conversation.createdAt
  updatedAt := conversation.updatedAt

def conversationSummary (conversation : ConversationRecord) : ConversationSummary where
  conversationId := conversation.conversationId
  parentConversationId := conversation.parentConversationId
  status := conversation.status

/-- `_cycle_view`. -/
def cycleView (cycle : CycleRecord) : CycleView where
  cycleId := cycle.cycleId
  cycleType := cycle.cycleType
  status := cycle.status
  startedAt := cycle.startedAt
  endedAt := cycle.endedAt
  retryCount := cycle.retryCount
  conversationId := cycle.conversationId

/-- `_plan_view`: where there are tasks, the counters are those of the tasks. -/
def planView (tasks : List TaskRecord) (plan : PlanRecord) : PlanView :=
  let counted := if tasks = [] then plan else plan.withCounters (tasks.map TaskRecord.status)
  { planId := plan.planId
    planType := plan.planType
    objective := plan.objective
    executionPolicy := plan.executionPolicy
    maxParallelWorkers := plan.maxParallelWorkers
    status := plan.status
    stopReason := plan.stopReason
    taskCount := counted.taskCount
    completedTaskCount := counted.completedTaskCount
    failedTaskCount := counted.failedTaskCount
    skippedTaskCount := counted.skippedTaskCount
    cancelledTaskCount := counted.cancelledTaskCount
    interruptedTaskCount := counted.interruptedTaskCount
    startedAt := plan.startedAt
    endedAt := plan.endedAt }

/-- `_task_view`. -/
def taskView (task : TaskRecord) : TaskView where
  taskId := task.taskId
  planId := task.planId
  type := task.type
  cmd := task.cmd
  status := task.status
  critical := task.critical
  continueOnError := task.continueOnError
  stopPlanOnFailure := task.stopPlanOnFailure
  stopPlanOnSuccess := task.stopPlanOnSuccess
  dependsOn := task.dependsOn
  resourceLock := task.resourceLock
  maxOutputBytes := task.maxOutputBytes
  attemptCount := task.attemptCount
  exitCode := task.exitCode
  truncated := task.truncated
  originalSizeBytes := task.originalSizeBytes
  startedAt := task.startedAt
  endedAt := task.endedAt
  durationMs := task.durationMs
  timedOut := task.timedOut
  reason := task.reason

/-! ## The cache -/

/-- The result of `_execution_records`. -/
structure ExecutionRecords where
  cycle : Option CycleRecord
  plan : Option PlanRecord
  tasks : List TaskRecord
  running : List TaskRecord

/-- The records of a session that a snapshot shows. -/
structure TrackedRecords extends ExecutionRecords where
  session : SessionRecord
  conversations : List ConversationRecord
  conversation : Option ConversationRecord

/-- `_Tracked`: the records as they were read, and what the events said. -/
structure Tracked extends TrackedRecords where
  interaction : ModelInteractionView
  lastEventType : Option String
  lastEventSequence : Option Int
  eventsSeen : Nat

def ExecutionRecords.view (r : ExecutionRecords) : ExecutionView where
  cycle := r.cycle.map cycleView
  plan := r.plan.map (planView r.tasks)
  tasks := r.tasks.map taskView
  runningTaskIds := r.running.map TaskRecord.taskId

def TrackedRecords.view (r : TrackedRecords) (now : Instant) : RecordsView where
  toExecutionView := r.toExecutionRecords.view
  session := sessionView r.session (budgetView r.session now)
  conversation := r.conversation.map (conversationView (budgetView r.session now))
  conversations := r.conversations.map conversationSummary

/-- `_assemble`. -/
def Tracked.assemble (t : Tracked) (now : Instant) : RuntimeSnapshot where
  toRecordsView := t.toTrackedRecords.view now
  modelInteraction := t.interaction
  lastEventType := t.lastEventType
  lastEventSequence := t.lastEventSequence
  snapshotAt := now

/-- `_current`. -/
def currentOf (conversations : List ConversationRecord) (currentId : Option String) :
    Option ConversationRecord :=
  currentId.bind fun id => conversations.find? fun c => c.conversationId = id

namespace Store

variable (σ : Store) (sid : String)

/-- `_execution_records`. -/
def executionRecords (conversation : Option ConversationRecord) : ExecutionRecords :=
  let plan := (conversation.bind ConversationRecord.currentPlanId).bind (σ.getPlan sid)
  { cycle := (conversation.bind ConversationRecord.currentCycleId).bind σ.getCycle
    plan := plan
    tasks := plan.elim [] fun p => σ.listTasks sid p.planId
    running := (σ.listSessionTasks sid).filter fun t => t.status = .running }

/-- Everything that a snapshot of the session shows, read from the store. -/
def trackedRecords : Option TrackedRecords :=
  (σ.getSession sid).map fun session =>
    let conversations := σ.listConversations sid
    let conversation := currentOf conversations session.currentConversationId
    { toExecutionRecords := σ.executionRecords sid conversation
      session := session
      conversations := conversations
      conversation := conversation }

/-- `_correction_in_flight`, of the messages newest first. -/
def correctionInFlight : List MessageRecord → Int × Int
  | [] => (0, 0)
  | record :: earlier =>
    if record.direction = .inbound then
      if record.validationStatus ≠ some "invalid" then (0, 0) else correctionInFlight earlier
    else if record.messageType ≠ .protocolCorrectionRequest then (0, 0)
    else
      match record.payload with
      | .obj fields =>
        match fields.lookup "content" with
        | some (.obj content) =>
          (number (content.lookup "attempt"), number (content.lookup "max_attempts"))
        | _ => (0, 0)
      | _ => (0, 0)
where
  number : Option Json → Int
    | some (.int n) => n
    | _ => 0

/-- `_interaction_from_store`: the statuses of the remote calls are not persisted. -/
def interactionFromStore : Option ConversationRecord → ModelInteractionView
  | none => {}
  | some conversation =>
    let messages := σ.listMessages conversation.conversationId
    let outbound := messages.filter fun m => m.direction = .outbound
    let inbound := messages.filter fun m => m.direction = .inbound
    let correction := correctionInFlight messages.reverse
    { lastOutboundMessageType :=
        outbound.getLast?.map fun m => RawText.ofString (StrEnum.value m.messageType)
      lastInboundMessageType :=
        inbound.getLast?.map fun m => RawText.ofString (StrEnum.value m.messageType)
      lastProtocolValidationStatus :=
        inbound.getLast?.bind fun m => m.validationStatus.map RawText.ofString
      correctionAttempt := correction.1
      correctionMaxAttempts := correction.2 }

end Store

/-- `_load`: what `previous` saw of the events is kept; without it, the audit trail and the messages
tell what they can. -/
def Recorded.load (db : Recorded) (sid : String) (previous : Option Tracked) : Option Tracked :=
  (db.store.trackedRecords sid).map fun records =>
    match previous with
    | some p => { p with toTrackedRecords := records }
    | none =>
      { toTrackedRecords := records
        interaction := db.store.interactionFromStore records.conversation
        lastEventType := (db.lastAuditEvent sid).map AuditEvent.eventType
        lastEventSequence := (db.lastAuditEvent sid).map fun e => e.sequence
        eventsSeen := 0 }

/-- `_pointers`. -/
def pointers (conversation : Option ConversationRecord) :
    Option String × Option String × Option String :=
  (conversation.map ConversationRecord.conversationId,
    conversation.bind ConversationRecord.currentCycleId,
    conversation.bind ConversationRecord.currentPlanId)

/-- `_execution_may_have_changed`. -/
def executionMayHaveChanged (before after : Option ConversationRecord) (e : Event) : Bool :=
  e.cycleId.isSome || e.planId.isSome || e.taskId.isSome || e.eventType ∈ executionEventTypes ||
    pointers before ≠ pointers after

/-- `_refresh`: the session and its conversations are read again, the rest where it may have
changed. -/
def Recorded.refresh (db : Recorded) (t : Tracked) (e : Event) : Option Tracked :=
  (db.store.trackedRecords e.sessionId).map fun records =>
    { t with
      toTrackedRecords := { records with
        toExecutionRecords :=
          if executionMayHaveChanged t.conversation records.conversation e then
            records.toExecutionRecords
          else t.toExecutionRecords } }

/-- `a or b`, of texts. -/
def RawText.orElse : Option RawText → Option RawText → Option RawText
  | some [], b => b
  | none, b => b
  | a, _ => a

/-- `_apply_message`. -/
def ModelInteractionView.applyMessage (view : ModelInteractionView) (e : Event) :
    ModelInteractionView :=
  let messageType := strOrNone (e.payload.get? "message_type")
  if e.eventType = .correctionRequested then
    { view with
      correctionAttempt := (intOrNone (e.payload.get? "attempt")).getD 0
      correctionMaxAttempts := (intOrNone (e.payload.get? "max_attempts")).getD 0 }
  else
    let view :=
      if e.eventType = .messageInbound then
        { view with correctionAttempt := 0, correctionMaxAttempts := 0 }
      else view
    if e.eventType ∈ outboundMessageEvents then
      { view with
        lastOutboundMessageType := RawText.orElse messageType view.lastOutboundMessageType
        lastPostStatus := intOrNone (e.payload.get? "post_status") }
    else
      let defaultStatus := if e.eventType = .messageInbound then "valid" else "invalid"
      { view with
        lastInboundMessageType := RawText.orElse messageType view.lastInboundMessageType
        lastGetStatus := intOrNone (e.payload.get? "get_status")
        lastProtocolValidationStatus :=
          RawText.orElse (strOrNone (e.payload.get? "validation_status"))
            (some (RawText.ofString defaultStatus)) }

/-- `_sequence_of`, of a session of which so many events were seen. -/
def Recorded.sequenceOf (db : Recorded) (e : Event) (eventsSeen : Nat) : Int :=
  match intOrNone (e.payload.get? "sequence") with
  | some carried => carried
  | none => (db.lastAuditEvent e.sessionId).elim (eventsSeen : Int) fun last => last.sequence

/-- What the event itself adds to an entry of the cache. -/
def Tracked.noted (t : Tracked) (db : Recorded) (e : Event) : Tracked :=
  { t with
    eventsSeen := t.eventsSeen + 1
    lastEventType := some (StrEnum.value e.eventType)
    lastEventSequence := some (db.sequenceOf e (t.eventsSeen + 1))
    interaction :=
      if e.eventType ∈ outboundMessageEvents ++ inboundMessageEvents ++ [.correctionRequested] then
        t.interaction.applyMessage e
      else t.interaction }

/-- The cache, session by session. -/
abbrev ExecutionTracker := String → Option Tracked

namespace ExecutionTracker

def empty : ExecutionTracker := fun _ => none

variable (tracker : ExecutionTracker) (db : Recorded)

def handle (e : Event) : ExecutionTracker :=
  if e.eventType.tracked then
    let entry :=
      match tracker e.sessionId with
      | none => db.load e.sessionId none
      | some t => db.refresh t e
    Function.update tracker e.sessionId (entry.map fun t => t.noted db e)
  else tracker

/-- The entry of a session, loaded where there is none. -/
def entry (sid : String) : Option Tracked := (tracker sid).or (db.load sid none)

/-- `snapshot`, the session of which must be known. -/
def snapshot (sid : String) (now : Instant) : Except Exc RuntimeSnapshot × ExecutionTracker :=
  match tracker.entry db sid with
  | some t => (.ok (t.assemble now), Function.update tracker sid (some t))
  | none => (.error (.keyError s!"unknown session: {sid}"), tracker)

def rebuild (sid : String) (now : Instant) : Except Exc RuntimeSnapshot × ExecutionTracker :=
  let tracked := db.load sid (tracker sid)
  (match tracked with
    | some t => .ok (t.assemble now)
    | none => .error (.keyError s!"unknown session: {sid}"),
    Function.update tracker sid tracked)

end ExecutionTracker

end AgenticLocalApp
