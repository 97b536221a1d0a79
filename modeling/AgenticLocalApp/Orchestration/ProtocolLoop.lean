import AgenticLocalApp.Context.Rotation
import AgenticLocalApp.Orchestration.PendingOutbound
import AgenticLocalApp.Orchestration.SessionRun
import AgenticLocalApp.Resilience.FailureManager

/-!
# The protocol loop

The loop of a session: send, receive, execute, and over again, with the failure policy around every
remote call, corrections of unusable replies, and rotations of the conversation.  What a reply or an
error leads to is decided here; the parts it is made of are elsewhere.
-/

namespace AgenticLocalApp

def opInit : String := "init"
def opPost : String := "post"
def opGet : String := "get"

structure ProtocolOrchestrator where
  adapter : ProtocolAdapter
  planRunner : PlanRunner
  failureManager : FailureManager
  monitor : ContextConfig
  rotation : RotationCoordinator
  maxCorrectionAttempts : Nat
  instructions : String

/-- How a run enters the loop. -/
inductive Entry where
  | start (userMessage : Option String)
  | followUp (userMessage : String)
  | resume

/-- The content of a record that is to be sent again. -/
structure ResumedContent where
  userMessage : String
  result : ExecutionResultContent

namespace SessionRun

variable (o : ProtocolOrchestrator)

/-! ## Small steps -/

/-- `_check_interrupted`. -/
def checkInterrupted : Prog Loop Unit := do
  let token := (← Prog.read).1.token
  let run ← get
  if token.isCancelled then
    throw (.sessionInterrupted (mkError .interrupted "USER_INTERRUPT" "InterruptionHandler"
      [("session_id", .str run.sid), ("reason", (token.reason.map Json.str).getD .null)] .medium))

def conversationId (run : SessionRun) : Option String :=
  run.conv.map ConversationRecord.conversationId

def cycleId (run : SessionRun) : Option String := run.cycle.map CycleRecord.cycleId

def planId (run : SessionRun) : Option String := run.conv.bind ConversationRecord.currentPlanId

/-- `_require_pending`. -/
def requirePending : Prog Loop PendingMessage := do
  match (← get).pending with
  | some pending => return pending
  | none => throw (.runtimeError "no pending outbound message")

/-- `_require_cycle`. -/
def requireCycle : Prog Loop CycleRecord := do
  match (← get).cycle with
  | some cycle => return cycle
  | none => throw (.runtimeError "no open cycle")

/-- The assertion that something was sent. -/
def requireOutbound : Prog Loop MessageRecord := do
  match (← get).lastOutbound with
  | some record => return record
  | none => throw (.runtimeError "AssertionError")

/-- `_remote`. -/
def remoteOf : Prog Loop String := do return (← conversation).remoteId

/-- `_update_conversation` of the lifecycle, the memory following. -/
def updateConv (cid : String) (updates : ConversationRecord → ConversationRecord) :
    Prog Loop ConversationRecord := do
  let conv ← updateConversation cid updates
  modify fun run => { run with conv := some conv }
  return conv

/-- One transaction with a message, the memory following. -/
def saveMessageAnd (record : MessageRecord) (cid : String)
    (updates : ConversationRecord → ConversationRecord) : Prog Loop Unit := do
  let conv ← saveMessageWith record cid updates
  modify fun run => { run with conv := some conv }

/-- `_apply_window`. -/
def applyWindow (state : ContextWindowState) : Prog Loop Unit := do
  let conv ← conversation
  if state ≠ conv.contextWindowState then
    let moved ← transitionContextWindow conv.conversationId state
    modify fun run => { run with conv := some moved }

/-- `_consumed_duration_ms`; the record keeps microseconds. -/
def consumedDurationMs (session : SessionRecord) : Prog App Int := do
  match session.startedAt with
  | none => return 0
  | some started =>
    match session.endedAt with
    | some ended => return max 0 ((ended - started) / 1000)
    | none => return max 0 (((← now) - started) / 1000)

/-- `_build`: the pending message for a conversation. -/
def build (sid : String) (pending : PendingMessage) (conv : ConversationRecord)
    (messageId : String) : Prog App OutboundMessage := do
  if pending.messageType = .userRequest then
    let session ← requireSession sid
    return ProtocolAdapter.buildUserRequest conv messageId session.goal
      (pending.userMessage.getD session.userMessage) session.budget
  else
    match pending.content with
    | some content => return ProtocolAdapter.buildExecutionResult conv messageId content
    | none => throw (.runtimeError "AssertionError")

/-- `_envelope_overhead`. -/
def envelopeOverhead (conv : ConversationRecord) (messageId : String) (messageType : MessageType) :
    Nat :=
  (ProtocolAdapter.outbound messageType conv messageId (.obj [])).sizeBytes - 2

/-! ## Remote calls -/

/-- `_interruptible_sleep`. -/
def interruptibleSleep (delayMs : Nat) : Prog Loop Unit := do
  checkInterrupted
  if 0 < delayMs then
    let _ ← Prog.query (L := Loop) (.sleep delayMs)
    checkInterrupted

/-- `_ensure_breaker_allows`: an open breaker is waited on once. -/
def ensureBreakerAllows (operation : String) : Prog Loop (Except NormalizedError Unit) := do
  if ← o.failureManager.breakerAllows then return .ok ()
  let session ← session
  let consumed ← consumedDurationMs session
  let remaining := (session.budget.maxTotalDurationMs - consumed).toNat
  let waitMs := min o.failureManager.breaker.openDurationMs remaining
  if 0 < waitMs then interruptibleSleep waitMs
  if ← o.failureManager.breakerAllows then return .ok ()
  let state := (← Prog.read).1.breaker.state
  return .error (mkError .networkError "CIRCUIT_OPEN" "TransportGateway"
    [("operation", .str operation), ("http_status", .null),
     ("breaker_state", .str (StrEnum.value state)), ("waited_ms", .int waitMs)])

/-- `_correction_details`: the details of a fault, and where the correction budget stands. -/
def correctionDetails (run : SessionRun) (details : List (String × Json)) : List (String × Json) :=
  let limit := o.maxCorrectionAttempts
  if limit = 0 then details
  else
    details ++ [("unusable_replies", .int run.unusableReplies),
      ("corrections_attempted", .int (min ((run.unusableReplies : Int) - 1) limit)),
      ("max_correction_attempts", .int limit)]

/-- `_persist_unparseable`: what the codec could not read leaves the trail of a refused reply. -/
def persistUnparseable (error : NormalizedError) : Prog Loop Unit := do
  let conv ← conversation
  let run ← get
  let raw : Json := match error.details.lookup "excerpt" with
    | some (.str excerpt) => .str excerpt
    | _ => .null
  let reason : Json := match error.details.lookup "reason" with
    | some (.str reason) => .str reason
    | _ => .str error.errorCode
  let payload : Json := .obj [("raw", raw), ("reason", reason)]
  let receivedAt ← now
  let messageId ← newId .message
  let record := refusedRecord messageId run.sid conv.conversationId .systemError payload
    payload.sizeBytes run.cycleId receivedAt
  saveMessageAnd record conv.conversationId fun c =>
    c.refused (conv.contextBytes + payload.sizeBytes) (conv.protocolErrorCount + 1) c.getCursor
      record.messageId

/-- `_note_unusable_reply`: an unreadable reply is persisted and counted before it is decided on. -/
def noteUnusableReply (error : NormalizedError) (operation : String) : Prog Loop NormalizedError := do
  if operation ≠ opGet ∨ error.errorType ≠ .modelProtocolError then return error
  persistUnparseable error
  modify fun run => { run with unusableReplies := run.unusableReplies + 1 }
  let run ← get
  return mkError error.errorType error.errorCode "TransportGateway"
    (correctionDetails o run error.details) .high error.retryable

/-- `_bump_retry_count`. -/
def bumpRetryCount : Prog Loop Unit := do
  match (← get).cycle with
  | none => return
  | some cycle =>
    let bumped := { cycle with retryCount := cycle.retryCount + 1 }
    modify fun run => { run with cycle := some bumped }
    writeStore fun σ => σ.saveCycle bumped

/-- The decision on a failed remote call. -/
def decideFailure (error : NormalizedError) (attempt : Nat) (operation : String) :
    Prog Loop (NormalizedError × Decision) := do
  let run ← get
  o.failureManager.handle error attempt
    { operation := operation
      sessionId := run.sid
      conversationId := run.conversationId
      cycleId := run.cycleId }

/-- `_call`: one remote operation under the failure policy, from its `attempt`-th attempt on, no more
than `left` of them. -/
def call {α : Type} (operation : String) (ask : Prog Loop (Except NormalizedError α)) :
    (left attempt : Nat) → Prog Loop α
  | 0, _ => .diverge
  | left + 1, attempt => do
    checkInterrupted
    let result ← match ← ensureBreakerAllows o operation with
      | .ok _ => ask
      | .error e => pure (.error e)
    match result with
    | .ok a =>
      FailureManager.noteSuccess
      return a
    | .error e =>
      if e.errorType = .interrupted then throw .loopInterrupted
      let noted ← noteUnusableReply o e operation
      let (error, decision) ← decideFailure o noted attempt operation
      match decision.kind with
      | .retry =>
        bumpRetryCount
        interruptibleSleep (decision.delayMs.getD 0)
        call operation ask left (attempt + 1)
      | .rotate => throw (.loopRotate error)
      | .pause => throw (.loopPaused error)
      | .abort => throw .loopInterrupted
      | .fail => throw (.loopFailed { error := error, recorded := true })

/-- A remote call at its first attempt. -/
def callRemote {α : Type} (operation : String) (ask : Prog Loop (Except NormalizedError α)) :
    Prog Loop α := call o operation ask o.failureManager.retry.maxAttempts 1

/-! ## Rotation -/

/-- `_record_failure`. -/
def recordLoopFailure (error : NormalizedError) (planId : Option String := none) :
    Prog Loop FailureRecord := do
  let run ← get
  recordFailure error
    { sessionId := run.sid, conversationId := run.conversationId, planId := planId }

/-- What the loop makes of the exceptions of a rotation. -/
def rotationFailure (e : Exc) : Prog Loop RotationResult :=
  match e with
  | .rotationFailed error => throw (.loopFailed { error := error, recorded := false })
  | .budgetExceeded error => throw (.loopFailed { error := error, recorded := false })
  | .transport error => do
    if error.errorType = .interrupted then throw .loopInterrupted
    let _ ← recordLoopFailure error
    throw (.loopFailed { error := error, recorded := true })
  | .protocol error => do
    let _ ← recordLoopFailure error
    throw (.loopFailed { error := error, recorded := true })
  | e => throw e

/-- The end of `_rotate`: the run goes on in the child. -/
def enterChild (pending : PendingMessage) (result : RotationResult) : Prog Loop Unit := do
  let child ← freshConversation result.child.conversationId
  let child ←
    if pending.messageType = .userRequest ∧ pending.followUp then
      liftM (updateConversation child.conversationId fun c => { c with finalAnswerReceived := true })
    else pure child
  let σ ← readStore
  modify fun run =>
    { run with conv := some child, lastOutbound := σ.getMessage result.retransmittedMessageId }
  applyWindow (o.monitor.evaluate child)

/-- `_rotate`: on return the current conversation is the child, and the pending message was sent
again there. -/
def rotate : Prog Loop Unit := do
  let pending ← requirePending
  let cycle ← requireCycle
  let outbound ← requireOutbound
  let run ← get
  let request : RotationRequest :=
    { messageType := pending.messageType
      originalMessageId := outbound.messageId
      build := build run.sid pending
      cycleId := some cycle.cycleId }
  let session ← session
  let conv ← conversation
  let result ← Prog.tryCatch (liftM (o.rotation.rotate session conv request)) rotationFailure
  enterChild o pending result

/-! ## Send -/

/-- `_post`: an outbound message that was persisted is posted, confirmed and counted. -/
def post (message : OutboundMessage) (record : MessageRecord) (trackPending : Bool := true) :
    Prog Loop Unit := do
  let remote ← remoteOf
  callRemote o opPost (Prog.query (L := Loop) (.postMessage remote message.payload))
  let conv ← conversation
  let postedAt ← now
  let confirmed := { record with postConfirmed := true, postedAt := some postedAt }
  saveMessageAnd confirmed conv.conversationId fun c =>
    c.posted (conv.contextBytes + message.sizeBytes)
  if trackPending then modify fun run => { run with lastOutbound := some confirmed }
  let conv ← conversation
  applyWindow (o.monitor.evaluate conv)

/-- `_open_cycle`: the cycle, its outbound message and the counter in one write. -/
def openCycle (message : OutboundMessage) (session : SessionRecord) (cycleType : CycleType) :
    Prog Loop Unit := do
  if session.budget.maxCycles ≤ session.consumedCycles then
    throw (.loopFailed { error := maxCyclesError session, recorded := false })
  let conv ← conversation
  let run ← get
  let startedAt ← now
  let cycleId ← newId .cycle
  let cycle : CycleRecord :=
    { cycleId := cycleId
      conversationId := conv.conversationId
      sessionId := run.sid
      cycleType := cycleType
      status := .running
      outboundMessageId := some message.messageId
      startedAt := startedAt }
  let record := { outboundRecord message conv (some cycleId) startedAt with sessionId := run.sid }
  let current ← requireSession run.sid
  let currentConv ← requireConversation conv.conversationId
  let updatedAt ← now
  let counted := { current with consumedCycles := session.consumedCycles + 1, updatedAt := updatedAt }
  let updated :=
    { currentConv with
      currentCycleId := some cycleId
      lastOutboundMessageId := some record.messageId
      updatedAt := updatedAt }
  writeStore fun σ =>
    (((σ.saveSession counted).saveCycle cycle).saveMessage record).saveConversation updated
  modify fun run =>
    { run with conv := some updated, cycle := some cycle, lastOutbound := some record }

/-- The pending message once it fits its envelope. -/
def fitPending (pending : PendingMessage) (conv : ConversationRecord) (messageId : String) :
    Prog Loop PendingMessage :=
  if pending.messageType = .executionResult ∧ ¬ pending.fitted then
    match pending.content with
    | none => throw (.runtimeError "AssertionError")
    | some content =>
      let limit := o.planRunner.payload.maxMessageBytes -
        envelopeOverhead conv messageId pending.messageType
      match PayloadGuard.fitMessage limit o.planRunner.fitRounds content with
      | none => .diverge
      | some fitted => do
        let pending := { pending with content := some fitted, fitted := true }
        modify fun run => { run with pending := some pending }
        return pending
  else pure pending

/-- `_send_pending`: the pending message is persisted with its cycle, then posted, or the
conversation rotates first when the message would not fit its window. -/
def sendPending : Prog Loop Unit := do
  let pending ← requirePending
  checkInterrupted
  let session ← session
  let conv ← conversation
  let messageId ← newId .message
  let pending ← fitPending o pending conv messageId
  let run ← get
  let message ← build run.sid pending conv messageId
  openCycle message session pending.cycleType
  let conv ← conversation
  let state := o.monitor.evaluate conv message.sizeBytes
  applyWindow state
  if state = .saturated then
    if ¬ canTransition conversationTransitions conv.status .rotating then
      throw (.loopFailed {
        error := rotationFailedError "ROTATION_NOT_ALLOWED" [
          ("conversation_state", .str (StrEnum.value conv.status)),
          ("context_bytes", .int conv.contextBytes),
          ("projected_outbound_bytes", .int message.sizeBytes),
          ("budget_bytes", .int o.monitor.budgetBytes)]
        recorded := false })
    rotate o
  else
    let _ ← transition .waitingModelResponse
    let record ← requireOutbound
    post o message record

/-! ## Receive -/

/-- `_request_correction`: no cycle is opened, and the expectation stays. -/
def requestCorrection (error : NormalizedError) (rejectedMessageId : Option String)
    (attempt maxAttempts : Nat) : Prog Loop Unit := do
  checkInterrupted
  let conv ← conversation
  let outbound ← requireOutbound
  let expected ← .ofExcept (o.adapter.expectedInbound (some outbound) conv)
  let messageId ← newId .message
  let message ← .ofExcept (o.adapter.buildProtocolCorrectionRequest conv messageId error expected
    rejectedMessageId attempt maxAttempts)
  let run ← get
  let createdAt ← now
  let record := { outboundRecord message conv run.cycleId createdAt with sessionId := run.sid }
  saveMessageAnd record conv.conversationId fun c =>
    { c with lastOutboundMessageId := some record.messageId }
  post o message record false

/-- `_after_unusable_reply`: a correction while there is room and budget for one, then a rotation
where the window calls for it, and otherwise the end. -/
def afterUnusableReply (error : NormalizedError) (rejectedMessageId : Option String) :
    Prog Loop Unit := do
  let limit := o.maxCorrectionAttempts
  let conv ← conversation
  let run ← get
  if 0 < limit ∧ run.unusableReplies ≤ limit ∧ ¬ o.monitor.isSaturated conv then
    requestCorrection o error rejectedMessageId run.unusableReplies limit
  else if o.monitor.shouldRotateOnUnusableReply conv error then
    applyWindow .saturated
    rotate o
    modify fun run => { run with unusableReplies := 0 }
  else throw (.loopFailed { error := error, recorded := true })

/-- `_persist_rejected`: a refused reply is kept and counted; the identifier that the model gave it
is returned. -/
def persistRejected (messages : List Json) (cursor : Option String) : Prog Loop (Option String) := do
  let conv ← conversation
  let first := messages.headD .null
  let id := rejectedId (o.adapter.peekField first "message_id")
  let messageId ← freeMessageId id
  let run ← get
  let receivedAt ← now
  let receivedBytes := (messages.map Json.sizeBytes).sum
  let record := refusedRecord messageId run.sid conv.conversationId
    (rejectedType (o.adapter.peekField first "type")) (ProtocolAdapter.rejectedPayload messages)
    receivedBytes run.cycleId receivedAt
  saveMessageAnd record conv.conversationId fun c =>
    c.refused (conv.contextBytes + receivedBytes) (conv.protocolErrorCount + 1)
      (cursor.or conv.getCursor) record.messageId
  return id

/-- The first half of `_accept`: the reply is either accepted or kept as a refused one, with the
error that is recorded of it. -/
def judge (reply : GetResult) :
    Prog Loop (InboundMessage ⊕ (NormalizedError × Option String)) := do
  let conv ← conversation
  let outbound ← requireOutbound
  let expected ← .ofExcept (o.adapter.expectedInbound (some outbound) conv)
  let run ← get
  let σ ← readStore
  let messages ← .ofExcept (RawJson.measured reply.messages)
  match o.adapter.parseInbound messages expected conv (σ.knownIds run.sid) with
  | .ok inbound =>
    modify fun run => { run with unusableReplies := 0 }
    let receivedAt ← now
    let record := acceptedRecord inbound run.sid conv.conversationId run.cycleId receivedAt
    saveMessageAnd record conv.conversationId fun c =>
      c.received (conv.contextBytes + inbound.sizeBytes) reply.cursor record.messageId
    let conv ← conversation
    applyWindow (o.monitor.evaluate conv)
    return .inl inbound
  | .error (.protocol error) =>
    let rejectedMessageId ← persistRejected o messages reply.cursor
    modify fun run => { run with unusableReplies := run.unusableReplies + 1 }
    let run ← get
    let (error, _) ← decideFailure o
      (mkError .modelProtocolError error.errorCode "ProtocolAdapter"
        (correctionDetails o run error.details) .high false false) 1 opGet
    return .inr (error, rejectedMessageId)
  | .error e => throw e

/-- `_accept`. -/
def accept (reply : GetResult) : Prog Loop (Option InboundMessage) := do
  match ← judge o reply with
  | .inl inbound => return some inbound
  | .inr (error, rejectedMessageId) =>
    afterUnusableReply o error rejectedMessageId
    return none

/-- What `_receive` makes of the exceptions of a read. -/
def afterFailedRead (e : Exc) : Prog Loop (Option GetResult) :=
  match e with
  | .loopRotate error => do
    let conv ← conversation
    applyWindow (o.monitor.evaluateError conv error)
    rotate o
    return none
  | .loopFailed failure => do
    if failure.error.errorType = .modelProtocolError then
      afterUnusableReply o failure.error none
      return none
    let conv ← conversation
    if o.monitor.shouldRotateOnUnusableReply conv failure.error then
      applyWindow .saturated
      rotate o
      return none
    throw e
  | e => throw e

/-- One read of the current conversation. -/
def readReply : Prog Loop (Option GetResult) := do
  let remote ← remoteOf
  let conv ← conversation
  Prog.tryCatch
    (do return some (← callRemote o opGet
      (Prog.query (L := Loop) (.waitForReply remote conv.getCursor))))
    (afterFailedRead o)

/-- `_receive`, no more than so many reads. -/
def receive : (fuel : Nat) → Prog Loop InboundMessage
  | 0 => .diverge
  | fuel + 1 => do
    checkInterrupted
    match ← readReply o with
    | none => receive fuel
    | some reply =>
      match ← accept o reply with
      | some inbound => return inbound
      | none => receive fuel

/-! ## Execute -/

/-- `_fail_plan_before_start`. -/
def failPlanBeforeStart (plan : PlanRecord) (tasks : List TaskRecord) (limit : String)
    (error : NormalizedError) : Prog Loop Unit := do
  let endedAt ← now
  checkTransition planTransitions plan.status .failed planEntity
  forM tasks fun task =>
    liftM (checkTransition taskTransitions task.status .skipped taskEntity : Prog App Unit)
  let skipped := tasks.map fun t =>
    { t with
      status := .skipped, reason := some budgetExceededReason, endedAt := some endedAt,
      updatedAt := endedAt }
  let failed :=
    { plan with
      status := .failed, stopReason := some s!"{budgetExceededReason}:{limit}"
      endedAt := some endedAt, updatedAt := endedAt, skippedTaskCount := skipped.length }
  writeStore fun σ => (σ.saveTasks skipped).savePlan failed
  throw (.loopFailed { error := error, recorded := false, planId := some plan.planId })

/-- The records of the plan that a message carries. -/
def planRecords (inbound : InboundMessage) (sid : String) (conv : ConversationRecord)
    (cycle : CycleRecord) : Prog App (PlanRecord × List TaskRecord) := do
  match inbound.plan with
  | none => throw (.valueError s!"{StrEnum.value inbound.messageType} carries no plan")
  | some (planType, plan) =>
    let createdAt ← now
    return planToRecords o.adapter.config plan planType sid conv.conversationId cycle.cycleId createdAt

/-- The writes of `_execute_plan` before the plan runs. -/
def receivePlan (inbound : InboundMessage) :
    Prog Loop (PlanRecord × List TaskRecord × SessionRecord) := do
  let session ← session
  let conv ← conversation
  let cycle ← requireCycle
  let (plan, tasks) ← planRecords o inbound session.sessionId conv cycle
  let refined := { cycle with cycleType := cycleTypeForPlan plan.planType, planId := some plan.planId }
  let run ← get
  let current ← requireSession run.sid
  let currentConv ← requireConversation conv.conversationId
  let updatedAt ← now
  let counted := { current with consumedPlans := session.consumedPlans + 1, updatedAt := updatedAt }
  let updated := { currentConv with currentPlanId := some plan.planId, updatedAt := updatedAt }
  writeStore fun σ => ((((σ.savePlan plan).saveTasks tasks).saveSession counted).saveCycle
    refined).saveConversation updated
  modify fun run => { run with conv := some updated, cycle := some refined }
  return (plan, tasks, counted)

/-- `_execute_plan`. -/
def executePlan (inbound : InboundMessage) : Prog Loop ExecutionResultContent := do
  checkInterrupted
  let (plan, tasks, session) ← receivePlan o inbound
  if session.budget.maxPlans < session.consumedPlans then
    failPlanBeforeStart plan tasks "max_plans" (budgetExceededError "max_plans" "MAX_PLANS"
      session.budget.maxPlans session.consumedPlans)
  let elapsed ← consumedDurationMs session
  let durationError (consumed : Int) := budgetExceededError "max_total_duration_ms"
    "MAX_TOTAL_DURATION_MS" session.budget.maxTotalDurationMs consumed
  if session.budget.maxTotalDurationMs ≤ elapsed then
    failPlanBeforeStart plan tasks "max_total_duration_ms" (durationError elapsed)
  let _ ← transition .runningPlan
  let outcome ← o.planRunner.run plan tasks session
  if outcome.interrupted then throw .loopInterrupted
  if outcome.budgetExceeded then
    let consumed ← consumedDurationMs (← SessionRun.session)
    throw (.loopFailed {
      error := durationError consumed, recorded := false, planId := some plan.planId })
  match outcome.executionResult with
  | none => throw (.runtimeError "AssertionError")
  | some content =>
    completeCycle inbound.messageId
    let conv ← conversation
    let _ ← updateConv conv.conversationId fun c => { c with lastCompletedPlanId := some plan.planId }
    return content

/-! ## Entry -/

/-- `_start`. -/
def start (userMessage : Option String) : Prog Loop Unit := do
  let conv ← conversation
  let conv ← if conv.status = .new then transition .active else pure conv
  let run ← get
  if conv.remoteConversationId = none then
    let metadata : Json := .obj [("session_id", .str run.sid),
      ("parent_conversation_id", (conv.parentConversationId.map Json.str).getD .null)]
    let remote ← callRemote o opInit (Prog.query (L := Loop) (.initConversation metadata))
    let _ ← updateConv conv.conversationId fun c =>
      { c with
        remoteConversationId := some remote, contextBytes := (encodeText o.instructions).length }
  let session ← session
  modify fun run =>
    { run with
      pending := some {
        messageType := .userRequest
        cycleType := .discovery
        userMessage := some (userMessage.getD session.userMessage) } }
  sendPending o

/-- `_follow_up`. -/
def followUp (userMessage : String) : Prog Loop Unit := do
  let conv ← conversation
  if conv.status = .completed then
    let _ ← transition .waitingUser
  modify fun run =>
    { run with
      pending := some {
        messageType := .userRequest
        cycleType := .execution
        followUp := true
        userMessage := some userMessage } }
  sendPending o

/-- `_pending_from_record`, `content` being what the schema library reads of the record. -/
def pendingFromRecord (record : MessageRecord) (conv : ConversationRecord)
    (content : ResumedContent) : PendingMessage :=
  if record.messageType = .userRequest then
    { messageType := .userRequest
      cycleType := if conv.finalAnswerReceived then .execution else .discovery
      followUp := conv.finalAnswerReceived
      userMessage := some content.userMessage }
  else
    { messageType := .executionResult
      cycleType := .execution
      content := some content.result
      fitted := true }

/-- `_resume`: the pending message is posted again if its POST was not confirmed. -/
def resume (content : MessageRecord → ResumedContent) : Prog Loop Unit := do
  let conv ← conversation
  let σ ← readStore
  match pendingOutboundOf σ conv with
  | none => throw (.valueError s!"conversation {conv.conversationId} has nothing to resume")
  | some record =>
    let cycle := (record.cycleId.bind σ.getCycle).or (conv.currentCycleId.bind σ.getCycle)
    let pending := pendingFromRecord record conv (content record)
    modify fun run =>
      { run with
        cycle := cycle
        lastOutbound := some record
        pending := some pending
        unusableReplies := consecutiveUnusableReplies σ conv }
    if ¬ record.postConfirmed then
      let run ← get
      let message ← build run.sid pending conv record.messageId
      post o message record

/-! ## The run -/

/-- The turns of the loop, no more than `fuel` reads each and in all. -/
def turns : (fuel : Nat) → Prog Loop Unit
  | 0 => .diverge
  | fuel + 1 => do
    let inbound ← receive o (fuel + 1)
    if inbound.messageType ∈ concludingMessageTypes then finish inbound
    else
      let content ← executePlan o inbound
      modify fun run =>
        { run with
          pending := some {
            messageType := .executionResult
            cycleType := .execution
            content := some content } }
      sendPending o
      turns fuel

/-- The entry of a run. -/
def enter (content : MessageRecord → ResumedContent) : Entry → Prog Loop Unit
  | .start userMessage => start o userMessage
  | .followUp userMessage => followUp o userMessage
  | .resume => resume o content

/-- `_body`. -/
def body (content : MessageRecord → ResumedContent) (entry : Entry) (fuel : Nat) :
    Prog Loop Unit := do
  let session ← session
  if session.status = .running then
    enter o content entry
    turns o fuel

/-- `_pause`. -/
def pause : Prog Loop Unit := do
  let session ← session
  if canTransition sessionTransitions session.status .paused then
    let _ ← transitionSession session.sessionId .paused

/-- `_fail_cycle`. -/
def failCycle : Prog Loop Unit := do
  let run ← get
  match run.cycle with
  | none => return
  | some cycle =>
    let σ ← readStore
    let current := (σ.getCycle cycle.cycleId).getD cycle
    if current.status ≠ .running then
      modify fun run => { run with cycle := some current }
    else
      checkTransition cycleTransitions current.status .failed "cycle"
      let endedAt ← now
      let failed := { current with status := .failed, endedAt := some endedAt }
      writeStore fun σ => σ.saveCycle failed
      modify fun run => { run with cycle := some failed }

/-- `_fail_conversations`: the current conversation, and its parent while it rotates. -/
def failConversations : Prog Loop (List ConversationRecord) := do
  let session ← session
  let σ ← readStore
  match session.currentConversationId.bind σ.getConversation with
  | none => return []
  | some conv =>
    let parent := conv.parentConversationId.bind σ.getConversation
    let failed ←
      if canTransition conversationTransitions conv.status .failed then
        (do return [← transitionConversation conv.conversationId .failed] : Prog App _)
      else pure []
    let failedParent ← match parent with
      | some p =>
        if p.status = .rotating then
          (do return [← transitionConversation p.conversationId .failed] : Prog App _)
        else pure []
      | none => pure []
    let σ ← readStore
    modify fun run => { run with conv := σ.getConversation conv.conversationId }
    return failed ++ failedParent

/-- `_terminate_failed`: the cycle, the conversations and the session fail, the failure recorded. -/
def terminateFailed (failure : LoopFailure) : Prog Loop Unit := do
  let run ← get
  let failureId ←
    if failure.recorded then
      pure (((← readStore).listFailures run.sid).getLast?.map FailureRecord.failureId)
    else do
      let record ← recordLoopFailure failure.error failure.planId
      pure (some record.failureId)
  failCycle
  let failed ← failConversations
  let session ← session
  if canTransition sessionTransitions session.status .failed then
    let _ ← transitionSession session.sessionId .failed fun s => { s with lastFailureId := failureId }
  closeRemote failed

/-- How a run ends, from what its body came to: what the run names is dealt with, and anything else
is recorded as unhandled and raised again. -/
def conclude (e : Exc) : Prog Loop Unit := do
  match e with
  | .loopInterrupted | .sessionInterrupted _ => return
  | .loopPaused _ => pause
  | .loopFailed failure => terminateFailed failure
  | .transport error | .protocol error | .rotationFailed error | .budgetExceeded error
  | .app error => terminateFailed { error := error, recorded := false, planId := (← get).planId }
  | .invalidTransition _ _ _ =>
    terminateFailed { error := classify e, recorded := false, planId := (← get).planId }
  | .loopRotate _ | .valueError _ | .keyError _ | .runtimeError _ =>
    let _ ← Prog.attempt
      (terminateFailed { error := classify e, recorded := false, planId := (← get).planId })
    throw e

/-- `run`. -/
def run (content : MessageRecord → ResumedContent) (entry : Entry) (fuel : Nat) :
    Prog Loop SessionRecord := do
  Prog.tryCatch (body o content entry fuel) conclude
  session

end SessionRun

namespace ProtocolOrchestrator

variable (o : ProtocolOrchestrator)

/-- The run of a session, by one of its entries. -/
def runSession (content : MessageRecord → ResumedContent) (sid : String) (entry : Entry)
    (fuel : Nat) : Prog App SessionRecord :=
  (SessionRun.run o content entry fuel).hide { sid := sid }

/-- An orchestrator with the default bounds, whose summaries are empty. -/
def sample : ProtocolOrchestrator where
  adapter := .sample
  planRunner :=
    { execution := AdapterConfig.sample.execution
      payload := AdapterConfig.sample.payload
      verdictPrograms := ⟨fun _ => false⟩
      translator := ⟨.posix, fun _ => .ok none⟩
      environment := fun _ => .ok ()
      resultCollector := ⟨⟨fun _ => false⟩, ⟨.posix, fun _ => .ok none⟩⟩
      recordsFailures := true
      fitRounds := 1000 }
  failureManager := ⟨⟨4, 500, 30000, by decide⟩, ⟨5, 30000, 1⟩⟩
  monitor := ⟨400000, 7 / 10, 9 / 10, true, 5⟩
  rotation :=
    { adapter := .sample
      monitor := ⟨400000, 7 / 10, 9 / 10, true, 5⟩
      instructions := ""
      compose := fun _ _ _ _ => .ok ⟨.obj [], 2, 0⟩ }
  maxCorrectionAttempts := 5
  instructions := ""

end ProtocolOrchestrator

end AgenticLocalApp
