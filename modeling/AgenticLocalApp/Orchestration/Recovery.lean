import AgenticLocalApp.Lifecycle.ConversationLifecycle

/-!
# The recovery

What a restart does to the persisted state: running tasks, then pending tasks and plans, then
cycles and conversations, then sessions.  A session is left to run again only when the
conversation it is in waits for the reply to its last message.
-/

namespace AgenticLocalApp

def cycleEntity : String := "cycle"

def restartReason : String := "restart"

/-- The types of the messages that a resumable conversation may be waiting on. -/
def resumableMessageTypes : List MessageType := [.userRequest, .executionResult]

namespace Recovery

def openPlanStates : List PlanState := [.pending, .running]
def openTaskStates : List TaskState := [.pending, .waitingDependency]
def openSessionStates : List SessionState := [.running, .interrupting]
def finishedConversationStates : List ConversationState := [.completed, .waitingUser, .closed]

/-! ## Tasks and plans -/

/-- The record of a task that a restart interrupted. -/
def interruptedTask (task : TaskRecord) (now : Instant) : TaskRecord :=
  { task with
    status := .interrupted
    reason := some restartReason
    endedAt := some now
    updatedAt := now
    durationMs :=
      match task.status, task.startedAt with
      | .running, some startedAt => some (max 0 ((now - startedAt) / 1000))
      | _, _ => task.durationMs }

def interruptTask (task : TaskRecord) : Prog App Unit := do
  checkTransition taskTransitions task.status .interrupted taskEntity
  let now ← now
  writeStore fun σ => σ.saveTask (interruptedTask task now)

/-- The process that a task left behind is signalled, where there is a platform to do it. -/
def terminateOrphan (hasPlatform : Bool) (task : TaskRecord) : Prog App Unit :=
  match hasPlatform, task.pid, task.startedAt with
  | true, some pid, some startedAt => do
    let _ ← Prog.query (L := App) (.terminateOrphan pid task.processGroupId startedAt)
  | _, _, _ => pure ()

/-- 1. Running tasks. -/
def interruptRunningTasks (hasPlatform : Bool) : Prog App Unit := do
  let σ ← readStore
  forM (σ.findTasksInStates [.running]) fun task => do
    terminateOrphan hasPlatform task
    interruptTask task

/-- The record of a plan that a restart interrupted, counted over its tasks. -/
def interruptedPlan (plan : PlanRecord) (tasks : List TaskRecord) (now : Instant) : PlanRecord :=
  { plan.withCounters (tasks.map TaskRecord.status) with
    status := .interrupted
    stopReason := some restartReason
    endedAt := some now
    updatedAt := now }

def interruptPlan (plan : PlanRecord) : Prog App Unit := do
  let σ ← readStore
  let current := (σ.getPlan plan.sessionId plan.planId).getD plan
  checkTransition planTransitions current.status .interrupted planEntity
  let now ← now
  let tasks := σ.listTasks current.sessionId current.planId
  writeStore fun σ => σ.savePlan (interruptedPlan current tasks now)

/-- The pending tasks of one open plan. -/
def interruptPendingTasks (plan : PlanRecord) : Prog App Unit := do
  let σ ← readStore
  forM (σ.listTasks plan.sessionId plan.planId) fun task =>
    if task.status ∈ openTaskStates then interruptTask task else pure ()

/-- 2. and 3. Pending tasks, then the plans themselves. -/
def interruptPendingTasksAndPlans : Prog App Unit := do
  let σ ← readStore
  let plans := σ.findPlansInStates openPlanStates
  forM plans interruptPendingTasks
  forM plans interruptPlan

/-! ## Conversations -/

/-- `pending_outbound`: the last message of the conversation, when it is one to be replied to. -/
def pendingOutbound (σ : Store) (conversation : ConversationRecord) : Option MessageRecord :=
  match (σ.listMessages conversation.conversationId).getLast? with
  | none => none
  | some last =>
    if last.direction ≠ .outbound then none
    else if last.messageType ∉ resumableMessageTypes then none
    else some last

/-- The parent of the conversation is still rotating into it. -/
def rotationInFlight (σ : Store) (conversation : ConversationRecord) : Bool :=
  match conversation.parentConversationId.bind σ.getConversation with
  | some parent => parent.status = .rotating
  | none => false

/-- `_is_resumable`. -/
def isResumable (σ : Store) (conversation : ConversationRecord) : Bool :=
  if conversation.status ≠ .waitingModelResponse then false
  else
    match σ.getSession conversation.sessionId with
    | none => false
    | some session =>
      if session.status ≠ .running then false
      else if session.currentConversationId ≠ some conversation.conversationId then false
      else if rotationInFlight σ conversation then false
      else (pendingOutbound σ conversation).isSome

/-- The conversations that the recovery leaves waiting for their reply. -/
def resumableConversations (σ : Store) : List String :=
  ((σ.findConversationsInStates activeConversationStates).filter (isResumable σ)).map
    ConversationRecord.conversationId

/-- The conversations whose cycles are settled: the active ones and those of open sessions. -/
def scannedConversations (σ : Store) : List String :=
  (σ.findConversationsInStates activeConversationStates).map ConversationRecord.conversationId ++
    (σ.listSessions openSessionStates).flatMap fun session =>
      (σ.listConversations session.sessionId).map ConversationRecord.conversationId

def interruptedCycle (cycle : CycleRecord) (now : Instant) : CycleRecord :=
  { cycle with status := .interrupted, endedAt := some now }

def interruptCycle (cycle : CycleRecord) : Prog App Unit := do
  checkTransition cycleTransitions cycle.status .interrupted cycleEntity
  let now ← now
  writeStore fun σ => σ.saveCycle (interruptedCycle cycle now)

/-- The running cycles of one conversation. -/
def interruptCycles (cid : String) : Prog App Unit := do
  let σ ← readStore
  forM (σ.listCycles cid) fun cycle =>
    if cycle.status = .running then interruptCycle cycle else pure ()

/-- 4. The running cycles of the conversations listed, each conversation once, but for those of
resumable conversations. -/
def settleCycles (resumable : List String) : (seen : List String) → List String → Prog App Unit
  | _, [] => pure ()
  | seen, cid :: rest =>
    if cid ∈ seen then settleCycles resumable seen rest
    else do
      if cid ∈ resumable then pure () else interruptCycles cid
      settleCycles resumable (cid :: seen) rest

/-- 4. and 5. Cycles first, then the conversations themselves; returns the resumable ones. -/
def settleConversations : Prog App (List String) := do
  let σ ← readStore
  let resumable := resumableConversations σ
  settleCycles resumable [] (scannedConversations σ)
  forM (σ.findConversationsInStates activeConversationStates) fun conversation =>
    if conversation.conversationId ∈ resumable then pure ()
    else do
      let _ ← interruptConversation conversation.conversationId
  return resumable

/-! ## Sessions -/

/-- Where a completed conversation goes, from its record alone. -/
def finishTarget (conversation : ConversationRecord) : ConversationState :=
  if conversation.autoCloseOnFinalAnswer then .closed else .waitingUser

/-- `_finish_conversation`. -/
def finishConversation (conversation : ConversationRecord) : Prog App Unit := do
  if conversation.status ≠ .completed then return
  let target := finishTarget conversation
  let updates (c : ConversationRecord) : ConversationRecord :=
    if target = .closed then { c with closureReason := some "auto_close" } else c
  let _ ← transitionConversation conversation.conversationId target updates

/-- The last case of `_settle_sessions`: the session is ready for another request. -/
def readySession (session : SessionRecord) : Prog App Unit := do
  if session.status = .running then
    let _ ← transitionSession session.sessionId .interrupting
  let _ ← transitionSession session.sessionId .ready

/-- One open session. -/
def settleSession (resumable : List String) (session : SessionRecord) : Prog App Unit := do
  let σ ← readStore
  match session.currentConversationId.bind σ.getConversation with
  | none => readySession session
  | some conversation =>
    if conversation.conversationId ∈ resumable ∧ session.status = .running then
      return
    else if session.status = .running ∧ conversation.status = .failed then
      let _ ← transitionSession session.sessionId .failed
    else if session.status = .running ∧ conversation.status ∈ finishedConversationStates then
      finishConversation conversation
      let _ ← transitionSession session.sessionId .completed
    else
      readySession session

/-- 6. Sessions. -/
def settleSessions (resumable : List String) : Prog App Unit := do
  let σ ← readStore
  forM (σ.listSessions openSessionStates) (settleSession resumable)

/-- `recover`. -/
def recover (hasPlatform : Bool) : Prog App Unit := do
  interruptRunningTasks hasPlatform
  interruptPendingTasksAndPlans
  let resumable ← settleConversations
  settleSessions resumable

end Recovery

end AgenticLocalApp
