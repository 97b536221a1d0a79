import AgenticLocalApp.Context.Window
import AgenticLocalApp.Lifecycle.ConversationLifecycle
import AgenticLocalApp.Protocol.Adapter

/-!
# Rotations

A saturated conversation is closed and its pending message sent again in a child conversation, which
is told a summary of what came before.  Every remote call is made from a state that has been written.
-/

namespace AgenticLocalApp

/-- A summary composed within its budget. -/
structure SummaryDraft where
  payload : Json
  sizeBytes : Nat
  reductionStep : Nat

/-- The message that waits while the conversation rotates; `build` gives its content again for the
child. -/
structure RotationRequest where
  messageType : MessageType
  originalMessageId : String
  build : ConversationRecord → String → Prog App OutboundMessage
  cycleId : Option String := none

structure RotationResult where
  child : ConversationRecord
  source : ConversationRecord
  summary : ContextSummaryRecord
  resumeCycle : CycleRecord
  retransmittedMessageId : String
  ackMessageId : String

structure RotationCoordinator where
  adapter : ProtocolAdapter
  monitor : ContextConfig
  instructions : String
  /-- The context reducer: the summary, or why none fits. -/
  compose : Store → SessionRecord → ConversationRecord → MessageType →
    Except NormalizedError SummaryDraft

def rotationFailedError (code : String) (details : List (String × Json)) : NormalizedError :=
  mkError .rotationFailed code "ContextReducer" details .high false false

/-- A `BudgetExceededError`; `code` is the limit in capitals. -/
def budgetExceededError (limit code : String) (limitValue consumed : Int) : NormalizedError :=
  mkError .budgetExceeded s!"BUDGET_{code}" "ProtocolOrchestrator" [("limit", .str limit),
    ("limit_value", .int limitValue), ("consumed", .int consumed)] .high false false

def maxCyclesError (session : SessionRecord) : NormalizedError :=
  budgetExceededError "max_cycles" "MAX_CYCLES" session.budget.maxCycles session.consumedCycles

/-- `_known_ids`. -/
def Store.knownIds (σ : Store) (sid : String) : KnownIds where
  messageIds := (σ.listConversations sid).flatMap fun c =>
    (σ.listMessages c.conversationId).map MessageRecord.messageId
  planIds := (σ.listPlans sid).map PlanRecord.planId
  taskIds := (σ.listSessionTasks sid).map TaskRecord.taskId

/-- The type of a reply that was refused, as far as it can be read. -/
def rejectedType (rawType : Json) : MessageType :=
  match rawType with
  | .str value => (messageTypes.find? fun t => StrEnum.value t = value).getD .systemError
  | _ => .systemError

/-- The identifier of a reply that was refused, as far as it can be read. -/
def rejectedId (rawId : Json) : Option String :=
  match rawId with
  | .str id => if id = "" then none else some id
  | _ => none

/-- What a refused reply is recorded under: its own identifier where that is free. -/
def freeMessageId (id : Option String) : Prog App String := do
  let σ ← readStore
  match id with
  | some id => if (σ.getMessage id).isNone then return id else newId .message
  | none => newId .message

/-- The record of an outbound message that was not posted yet. -/
def outboundRecord (message : OutboundMessage) (conversation : ConversationRecord)
    (cycleId : Option String) (now : Instant) (retransmissionOf : Option String := none) :
    MessageRecord where
  messageId := message.messageId
  sessionId := conversation.sessionId
  conversationId := conversation.conversationId
  direction := .outbound
  messageType := message.messageType
  payload := message.payload
  sizeBytes := message.sizeBytes
  cycleId := cycleId
  retransmissionOf := retransmissionOf
  createdAt := now

/-- The record of a message of the model that was accepted. -/
def acceptedRecord (inbound : InboundMessage) (sessionId conversationId : String)
    (cycleId : Option String) (now : Instant) : MessageRecord where
  messageId := inbound.messageId
  sessionId := sessionId
  conversationId := conversationId
  direction := .inbound
  messageType := inbound.messageType
  payload := inbound.payload
  sizeBytes := inbound.sizeBytes
  cycleId := cycleId
  receivedAt := some now
  validationStatus := some "valid"
  createdAt := now

/-- The record of a reply that was refused. -/
def refusedRecord (messageId sessionId conversationId : String) (messageType : MessageType)
    (payload : Json) (sizeBytes : Nat) (cycleId : Option String) (now : Instant) : MessageRecord where
  messageId := messageId
  sessionId := sessionId
  conversationId := conversationId
  direction := .inbound
  messageType := messageType
  payload := payload
  sizeBytes := sizeBytes
  cycleId := cycleId
  receivedAt := some now
  validationStatus := some "invalid"
  createdAt := now

/-- The conversation once one more message was posted in it. -/
def ConversationRecord.posted (c : ConversationRecord) (bytes : Nat) : ConversationRecord :=
  { c with contextBytes := bytes, lastModelResponseState := "awaiting" }

/-- The conversation once a reply was accepted. -/
def ConversationRecord.received (c : ConversationRecord) (bytes : Nat) (cursor : Option String)
    (messageId : String) : ConversationRecord :=
  { c with
    contextBytes := bytes, getCursor := cursor, lastInboundMessageId := some messageId,
    lastModelResponseState := "received_valid" }

/-- The conversation once a reply was refused. -/
def ConversationRecord.refused (c : ConversationRecord) (bytes errors : Nat) (cursor : Option String)
    (messageId : String) : ConversationRecord :=
  { c with
    contextBytes := bytes, protocolErrorCount := errors, getCursor := cursor,
    lastInboundMessageId := some messageId, lastModelResponseState := "received_invalid" }

/-- One transaction over the store: `body` writes the rest of it. -/
def saveMessageWith (record : MessageRecord) (cid : String)
    (updates : ConversationRecord → ConversationRecord) : Prog App ConversationRecord := do
  let current ← requireConversation cid
  let now ← now
  let conversation := { updates current with updatedAt := now }
  writeStore fun σ => (σ.saveMessage record).saveConversation conversation
  return conversation

namespace RotationCoordinator

variable (rc : RotationCoordinator)

/-- `_check_guards`: refused before anything is changed. -/
def checkGuards (session : SessionRecord) (source : ConversationRecord) : Except Exc Unit := do
  if rc.monitor.maxRotationsPerSession ≤ session.rotationsCount then
    throw (.rotationFailed (rotationFailedError "ROTATION_LIMIT_REACHED"
      [("rotations_count", .int session.rotationsCount),
       ("max_rotations_per_session", .int rc.monitor.maxRotationsPerSession)]))
  if session.budget.maxCycles ≤ session.consumedCycles then
    throw (.budgetExceeded (maxCyclesError session))
  if ¬ canTransition conversationTransitions source.status .rotating then
    throw (.invalidTransition conversationEntity (StrEnum.value source.status)
      (StrEnum.value ConversationState.rotating))

/-- `_mark_rotating`: a conversation that rotates is saturated. -/
def markRotating (source : ConversationRecord) : Prog App ConversationRecord := do
  if source.contextWindowState ≠ .saturated then
    let _ ← transitionContextWindow source.conversationId .saturated
  transitionConversation source.conversationId .rotating

/-- `_compose_summary`: without a summary that fits, the conversation fails. -/
def composeSummary (session : SessionRecord) (source : ConversationRecord)
    (pendingType : MessageType) : Prog App SummaryDraft := do
  let σ ← readStore
  match rc.compose σ session source pendingType with
  | .ok draft => return draft
  | .error error =>
    let _ ← transitionConversation source.conversationId .failed
    throw (.rotationFailed error)

/-- `ContextReducer.persist`. -/
def persistSummary (draft : SummaryDraft) (sessionId sourceId targetId : String) :
    Prog App ContextSummaryRecord := do
  let summaryId ← newId .summary
  let createdAt ← now
  let record : ContextSummaryRecord :=
    { summaryId := summaryId
      sessionId := sessionId
      sourceConversationId := sourceId
      targetConversationId := targetId
      summaryPayload := draft.payload
      summarySizeBytes := draft.sizeBytes
      reductionStep := draft.reductionStep
      createdAt := createdAt }
  writeStore fun σ => σ.saveContextSummary record
  return record

/-- A remote call of the rotation: no policy stands behind it. -/
def remote {α : Type} (answer : Except NormalizedError α) : Prog App α :=
  .ofExcept (answer.mapError Exc.transport)

/-- `_open_resume_cycle`: the counters, the cycle and the request in one write. -/
def openResumeCycle (child : ConversationRecord) (request : OutboundMessage) :
    Prog App (CycleRecord × MessageRecord × ConversationRecord) := do
  let startedAt ← now
  let cycleId ← newId .cycle
  let cycle : CycleRecord :=
    { cycleId := cycleId
      conversationId := child.conversationId
      sessionId := child.sessionId
      cycleType := .resume
      status := .running
      outboundMessageId := some request.messageId
      startedAt := startedAt }
  let record := outboundRecord request child (some cycleId) startedAt
  let session ← requireSession child.sessionId
  let conversation ← requireConversation child.conversationId
  let updatedAt ← now
  let counted :=
    { session with
      rotationsCount := session.rotationsCount + 1
      consumedCycles := session.consumedCycles + 1
      updatedAt := updatedAt }
  let child' :=
    { conversation with
      currentCycleId := some cycleId
      lastOutboundMessageId := some record.messageId
      updatedAt := updatedAt }
  writeStore fun σ =>
    (((σ.saveSession counted).saveCycle cycle).saveMessage record).saveConversation child'
  return (cycle, record, child')

/-- `_post`: the message is persisted before it is posted, and confirmed after. -/
def post (child : ConversationRecord) (message : OutboundMessage) (record : MessageRecord) :
    Prog App ConversationRecord := do
  let answer ← Prog.query (L := App) (.postMessage child.remoteId message.payload)
  remote answer
  let postedAt ← now
  saveMessageWith { record with postConfirmed := true, postedAt := some postedAt }
    child.conversationId fun c => c.posted (child.contextBytes + message.sizeBytes)

/-- `_reject_ack`: a reply that is not the acknowledgement is recorded, and the cycle fails. -/
def rejectAck (messages : List Json) (cursor : Option String) (child : ConversationRecord)
    (cycle : CycleRecord) : Prog App Unit := do
  let first := messages.headD .null
  let messageId ← freeMessageId (rejectedId (rc.adapter.peekField first "message_id"))
  let endedAt ← now
  let receivedBytes := (messages.map Json.sizeBytes).sum
  let record := refusedRecord messageId child.sessionId child.conversationId
    (rejectedType (rc.adapter.peekField first "type"))
    (ProtocolAdapter.rejectedPayload messages) receivedBytes (some cycle.cycleId) endedAt
  let failed :=
    { cycle with
      status := .failed, endedAt := some endedAt, inboundMessageId := some messageId }
  let conversation ← requireConversation child.conversationId
  let updatedAt ← now
  let refused :=
    { conversation.refused (child.contextBytes + receivedBytes) (child.protocolErrorCount + 1)
        cursor messageId with updatedAt := updatedAt }
  writeStore fun σ => ((σ.saveMessage record).saveCycle failed).saveConversation refused

/-- `_accept_ack`. -/
def acceptAck (reply : GetResult) (child : ConversationRecord) (cycle : CycleRecord)
    (parentRemote : String) : Prog App (InboundMessage × ConversationRecord) := do
  let σ ← readStore
  let messages ← .ofExcept (RawJson.measured reply.messages)
  match rc.adapter.parseInbound messages [.contextResumeAck] child (σ.knownIds child.sessionId)
      (some parentRemote) with
  | .error e =>
    if let .protocol _ := e then rc.rejectAck messages reply.cursor child cycle
    throw e
  | .ok ack =>
    let receivedAt ← now
    let record := acceptedRecord ack child.sessionId child.conversationId (some cycle.cycleId)
      receivedAt
    let child ← saveMessageWith record child.conversationId fun c =>
      c.received (child.contextBytes + ack.sizeBytes) reply.cursor record.messageId
    return (ack, child)

/-- `_complete_resume_cycle`. -/
def completeResumeCycle (cycle : CycleRecord) (ack : InboundMessage) : Prog App CycleRecord := do
  let endedAt ← now
  let completed :=
    { cycle with
      status := .completed, endedAt := some endedAt, inboundMessageId := some ack.messageId }
  writeStore fun σ => σ.saveCycle completed
  return completed

/-- `_close_remote_parent`: only an interruption of the call is not ignored. -/
def closeRemoteParent (source : ConversationRecord) : Prog App Unit := do
  match source.remoteConversationId with
  | none => return
  | some remote =>
    match ← Prog.query (L := App) (.closeConversation remote) with
    | .ok _ => return
    | .error e => if e.errorType = .interrupted then throw (.transport e)

/-- Steps 4 and 5: the child conversation, and the request to resume in it. -/
def openChild (session : SessionRecord) (source : ConversationRecord) (pending : RotationRequest)
    (draft : SummaryDraft) :
    Prog App (String × ConversationRecord × CycleRecord × ContextSummaryRecord) := do
  let parentRemote := source.remoteId
  let answer ← Prog.query (L := App) (.initConversation (.obj [
    ("session_id", .str session.sessionId),
    ("parent_conversation_id", .str source.conversationId),
    ("rotation_index", .int (session.rotationsCount + 1))]))
  let remoteId ← remote answer
  let child ← createConversation session.sessionId (some source.conversationId) .saturated
  let summary ← persistSummary draft session.sessionId source.conversationId child.conversationId
  let _ ← updateConversation child.conversationId fun c =>
    { c with
      remoteConversationId := some remoteId
      contextBytes := (encodeText rc.instructions).length }
  let child ← transitionConversation child.conversationId .active
  let requestId ← newId .message
  let request := ProtocolAdapter.buildContextResumeRequest child requestId parentRemote
    session.goal summary.summaryPayload pending.messageType
  let (cycle, record, child) ← openResumeCycle child request
  let child ← transitionConversation child.conversationId .waitingModelResponse
  let child ← post child request record
  return (remoteId, child, cycle, summary)

/-- Step 8: the pending message is sent again in the child. -/
def retransmit (child : ConversationRecord) (pending : RotationRequest) :
    Prog App (ConversationRecord × String) := do
  let messageId ← newId .message
  let message ← pending.build child messageId
  if message.messageType ≠ pending.messageType then
    throw (.valueError (s!"pending.build returned a {StrEnum.value message.messageType}, " ++
      s!"expected a {StrEnum.value pending.messageType}"))
  let createdAt ← now
  let record := outboundRecord message child pending.cycleId createdAt
    (some pending.originalMessageId)
  let child ← saveMessageWith record child.conversationId fun c =>
    { c with
      currentCycleId := pending.cycleId, lastOutboundMessageId := some record.messageId }
  let child ← post child message record
  return (child, message.messageId)

/-- `rotate`. -/
def rotate (session : SessionRecord) (source : ConversationRecord) (pending : RotationRequest) :
    Prog App RotationResult := do
  let session ← requireSession session.sessionId
  let source ← requireConversation source.conversationId
  .ofExcept (rc.checkGuards session source)
  let source ← markRotating source
  let draft ← rc.composeSummary session source pending.messageType
  let parentRemote := source.remoteId
  let (remoteId, child, cycle, summary) ← rc.openChild session source pending draft
  let answer ← Prog.query (L := App) (.waitForReply remoteId none)
  let reply ← remote answer
  let (ack, child) ← rc.acceptAck reply child cycle parentRemote
  let child ← transitionContextWindow child.conversationId .healthy
  let source ← transitionConversation source.conversationId .closed fun c =>
    { c with closureReason := some "rotated" }
  let cycle ← completeResumeCycle cycle ack
  let (child, messageId) ← retransmit child pending
  closeRemoteParent source
  return {
    child := child
    source := source
    summary := summary
    resumeCycle := cycle
    retransmittedMessageId := messageId
    ackMessageId := ack.messageId }

end RotationCoordinator

end AgenticLocalApp
