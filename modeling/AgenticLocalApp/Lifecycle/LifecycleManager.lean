import AgenticLocalApp.Domain.ModelFields
import AgenticLocalApp.Library.Program
import AgenticLocalApp.Observability.AuditLog

/-!
# The lifecycle manager and its events

The owner of the sessions and conversations with everything it is wired to: a store whose accesses
may fail, a bus whose subscribers may raise, a clock and a source of identifiers.  Every operation
validates, writes and then publishes, in this order.
-/

namespace AgenticLocalApp

/-! ## Rows -/

inductive SessionField where
  | sessionId | status | goal | userMessage | userId | autoCloseOnFinalAnswer | budget
  | consumedCycles | consumedPlans | rotationsCount | currentConversationId | finalAnswer
  | lastFailureId | startedAt | endedAt | interruptedAt | createdAt | updatedAt
  deriving DecidableEq, Repr

inductive ConversationField where
  | conversationId | sessionId | parentConversationId | remoteConversationId | status
  | autoCloseOnFinalAnswer | contextWindowState | contextBytes | protocolErrorCount
  | lastModelResponseState | currentCycleId | currentPlanId | lastCompletedPlanId
  | finalAnswerReceived | lastOutboundMessageId | lastInboundMessageId | getCursor
  | sessionBudgetJson | closureReason | interruptedAt | createdAt | updatedAt
  deriving DecidableEq, Repr

instance : RecordModel SessionField where
  name
    | .sessionId => "session_id"
    | .status => "status"
    | .goal => "goal"
    | .userMessage => "user_message"
    | .userId => "user_id"
    | .autoCloseOnFinalAnswer => "auto_close_on_final_answer"
    | .budget => "budget"
    | .consumedCycles => "consumed_cycles"
    | .consumedPlans => "consumed_plans"
    | .rotationsCount => "rotations_count"
    | .currentConversationId => "current_conversation_id"
    | .finalAnswer => "final_answer"
    | .lastFailureId => "last_failure_id"
    | .startedAt => "started_at"
    | .endedAt => "ended_at"
    | .interruptedAt => "interrupted_at"
    | .createdAt => "created_at"
    | .updatedAt => "updated_at"
  type
    | .sessionId | .goal | .userMessage | .userId => .str
    | .status => .sessionState
    | .autoCloseOnFinalAnswer => .bool
    | .budget => .sessionBudget
    | .consumedCycles | .consumedPlans | .rotationsCount => .int
    | .currentConversationId | .lastFailureId => .optionalStr
    | .finalAnswer => .optionalDict
    | .startedAt | .endedAt | .interruptedAt => .optionalDatetime
    | .createdAt | .updatedAt => .datetime
  fields := [.sessionId, .status, .goal, .userMessage, .userId, .autoCloseOnFinalAnswer, .budget,
    .consumedCycles, .consumedPlans, .rotationsCount, .currentConversationId, .finalAnswer,
    .lastFailureId, .startedAt, .endedAt, .interruptedAt, .createdAt, .updatedAt]
  mem_fields f := by cases f <;> decide

instance : RecordModel ConversationField where
  name
    | .conversationId => "conversation_id"
    | .sessionId => "session_id"
    | .parentConversationId => "parent_conversation_id"
    | .remoteConversationId => "remote_conversation_id"
    | .status => "status"
    | .autoCloseOnFinalAnswer => "auto_close_on_final_answer"
    | .contextWindowState => "context_window_state"
    | .contextBytes => "context_bytes"
    | .protocolErrorCount => "protocol_error_count"
    | .lastModelResponseState => "last_model_response_state"
    | .currentCycleId => "current_cycle_id"
    | .currentPlanId => "current_plan_id"
    | .lastCompletedPlanId => "last_completed_plan_id"
    | .finalAnswerReceived => "final_answer_received"
    | .lastOutboundMessageId => "last_outbound_message_id"
    | .lastInboundMessageId => "last_inbound_message_id"
    | .getCursor => "get_cursor"
    | .sessionBudgetJson => "session_budget_json"
    | .closureReason => "closure_reason"
    | .interruptedAt => "interrupted_at"
    | .createdAt => "created_at"
    | .updatedAt => "updated_at"
  type
    | .conversationId | .sessionId | .lastModelResponseState => .str
    | .parentConversationId | .remoteConversationId | .currentCycleId | .currentPlanId
    | .lastCompletedPlanId | .lastOutboundMessageId | .lastInboundMessageId | .getCursor
    | .closureReason => .optionalStr
    | .status => .conversationState
    | .contextWindowState => .contextWindowState
    | .contextBytes | .protocolErrorCount => .int
    | .autoCloseOnFinalAnswer | .finalAnswerReceived => .bool
    | .sessionBudgetJson => .dict
    | .interruptedAt => .optionalDatetime
    | .createdAt | .updatedAt => .datetime
  fields := [.conversationId, .sessionId, .parentConversationId, .remoteConversationId, .status,
    .autoCloseOnFinalAnswer, .contextWindowState, .contextBytes, .protocolErrorCount,
    .lastModelResponseState, .currentCycleId, .currentPlanId, .lastCompletedPlanId,
    .finalAnswerReceived, .lastOutboundMessageId, .lastInboundMessageId, .getCursor,
    .sessionBudgetJson, .closureReason, .interruptedAt, .createdAt, .updatedAt]
  mem_fields f := by cases f <;> decide

abbrev SessionRow := ModelRow SessionField
abbrev ConversationRow := ModelRow ConversationField

namespace SessionRow

variable (r : SessionRow)

def sessionId : String := r.value .sessionId
def status : SessionState := r.value .status
def autoCloseOnFinalAnswer : Bool := r.value .autoCloseOnFinalAnswer
def budget : SessionBudget := r.value .budget
def currentConversationId : Option String := r.value .currentConversationId
def startedAt : Option Instant := r.value .startedAt
def updatedAt : Instant := r.value .updatedAt

end SessionRow

namespace ConversationRow

variable (r : ConversationRow)

def conversationId : String := r.value .conversationId
def sessionId : String := r.value .sessionId
def status : ConversationState := r.value .status
def contextWindowState : ContextWindowState := r.value .contextWindowState
def contextBytes : Int := r.value .contextBytes
def updatedAt : Instant := r.value .updatedAt

end ConversationRow

instance : Keyed SessionRow String := ⟨SessionRow.sessionId⟩
instance : Keyed ConversationRow String := ⟨ConversationRow.conversationId⟩

/-- `budget.model_dump()`. -/
def SessionBudget.modelDump (b : SessionBudget) : List (String × Json) :=
  [("max_cycles", .int b.maxCycles), ("max_plans", .int b.maxPlans),
    ("max_total_duration_ms", .int b.maxTotalDurationMs)]

/-! ## Store and bus -/

/-- The records that the manager owns. -/
structure LifecycleRecords where
  sessions : Table SessionRow := .empty
  conversations : Table ConversationRow := .empty

namespace LifecycleRecords

variable (rs : LifecycleRecords)

def saveSession (r : SessionRow) : LifecycleRecords := { rs with sessions := rs.sessions.save r }
def saveConversation (r : ConversationRow) : LifecycleRecords :=
  { rs with conversations := rs.conversations.save r }

end LifecycleRecords

/-- An event of the lifecycle: it names no cycle, plan or task. -/
structure LifecycleEvent where
  eventType : EventType
  timestamp : Instant
  sessionId : String
  conversationId : Option String := none
  payload : List (String × Json)

/-- A subscriber of the bus.  The exceptions of a critical one propagate. -/
structure BusSubscription where
  name : String
  critical : Bool := false
  eventTypes : Option (List EventType) := none

/-- The subscriber wants the events of this type. -/
def BusSubscription.wants (sub : BusSubscription) (eventType : EventType) : Bool :=
  sub.eventTypes.all fun types => eventType ∈ types

structure EventBus where
  subscriptions : List BusSubscription := []
  publishedCount : Nat := 0
  subscriberErrors : Nat := 0

structure ManagerState where
  records : LifecycleRecords := {}
  bus : EventBus := {}
  /-- What was handed to the bus, in order. -/
  published : List LifecycleEvent := []

/-- What the manager asks of its surroundings. -/
inductive ManagerOp where
  /-- Access the store.  The answer is the exception it raises, if it fails. -/
  | storeRead
  | storeWrite
  | now
  | newSessionId
  | newConversationId
  /-- Hand an event to a subscriber.  The answer is the exception it raises, if it does. -/
  | handle (subscriber : String) (event : LifecycleEvent)

abbrev ManagerOp.Ans : ManagerOp → Type
  | .storeRead => Option Exc
  | .storeWrite => Option Exc
  | .now => Instant
  | .newSessionId => String
  | .newConversationId => String
  | .handle _ _ => Option Exc

abbrev Manager : Lang where
  State := ManagerState
  Err := Exc
  Op := ManagerOp
  Ans := ManagerOp.Ans

/-- `state_change_payload`. -/
def stateChangePayload (previous current : String) (reason : Option String) :
    List (String × Json) :=
  [("from", .str previous), ("to", .str current)] ++ (reason.map fun r => ("reason", .str r)).toList

namespace LifecycleManager

open Prog

/-- Read the records. -/
def readRecords {α : Type} (f : LifecycleRecords → α) : Prog Manager α := do
  match ← query (L := Manager) .storeRead with
  | some e => throw e
  | none => return f (← read (L := Manager)).records

/-- Write records, all of them or none. -/
def writeRecords (f : LifecycleRecords → LifecycleRecords) : Prog Manager Unit := do
  match ← query (L := Manager) .storeWrite with
  | some e => throw e
  | none => update (L := Manager) fun s => { s with records := f s.records }

/-- The body of the loop of `EventBus.publish`. -/
def notify (event : LifecycleEvent) (sub : BusSubscription) : Prog Manager Unit := do
  if sub.wants event.eventType then
    match ← query (L := Manager) (.handle sub.name event) with
    | none => return ()
    | some e =>
      update (L := Manager) fun s =>
        { s with bus := { s.bus with subscriberErrors := s.bus.subscriberErrors + 1 } }
      if sub.critical then throw e

/-- `EventBus.publish`. -/
def publish (event : LifecycleEvent) : Prog Manager Unit := do
  update (L := Manager) fun s =>
    { s with
      bus := { s.bus with publishedCount := s.bus.publishedCount + 1 }
      published := s.published ++ [event] }
  forM (← read (L := Manager)).bus.subscriptions (notify event)

/-! ## Checks -/

def sessionEntity : String := "session"
def conversationEntity : String := "conversation"
def contextWindowEntity : String := "context_window"

/-- The fields that no update may set, in alphabetical order. -/
def sessionManagedFields : List String := ["created_at", "session_id", "status", "updated_at"]

def conversationManagedFields : List String :=
  ["context_window_state", "conversation_id", "created_at", "session_id", "status", "updated_at"]

/-- A list of names as Python prints it. -/
def reprNames (names : List String) : String :=
  "[" ++ String.intercalate ", " (names.map fun name => "'" ++ name ++ "'") ++ "]"

/-- `_reject_managed_fields`. -/
def rejectManagedFields (updates : Kwargs) (managed : List String) (entity : String) :
    Except Exc Unit :=
  let forbidden := managed.filter fun name => name ∈ updates.map Prod.fst
  if forbidden = [] then .ok ()
  else .error (.valueError (s!"{entity} field(s) {reprNames forbidden} are owned by " ++
    "ConversationLifecycleManager and cannot be set through updates"))

/-- `_require_session`. -/
def requireSession (sid : String) : Prog Manager SessionRow := do
  match ← readRecords fun rs => rs.sessions.find sid with
  | some session => return session
  | none => throw (.keyError s!"unknown session: {sid}")

/-- `_require_conversation`. -/
def requireConversation (cid : String) : Prog Manager ConversationRow := do
  match ← readRecords fun rs => rs.conversations.find cid with
  | some conversation => return conversation
  | none => throw (.keyError s!"unknown conversation: {cid}")

/-- `_conversation_waits_for_user`. -/
def conversationWaitsForUser (session : SessionRow) : Prog Manager Bool := do
  match session.currentConversationId with
  | none => return false
  | some cid =>
    match ← readRecords fun rs => rs.conversations.find cid with
    | some conversation => return conversation.status = .waitingUser
    | none => return false

/-! ## Operations -/

variable (library : Pydantic)

/-- The record of a new session. -/
def newSession (sid goal userMessage userId : String) (budget : SessionBudget) (autoClose : Bool)
    (now : Instant) : SessionRow where
  value
    | .sessionId => sid
    | .status => SessionState.ready
    | .goal => goal
    | .userMessage => userMessage
    | .userId => userId
    | .autoCloseOnFinalAnswer => autoClose
    | .budget => budget
    | .consumedCycles => (0 : Int)
    | .consumedPlans => (0 : Int)
    | .rotationsCount => (0 : Int)
    | .currentConversationId => none
    | .finalAnswer => none
    | .lastFailureId => none
    | .startedAt => none
    | .endedAt => none
    | .interruptedAt => none
    | .createdAt => now
    | .updatedAt => now

/-- The payload of `session.created`. -/
def sessionCreatedPayload (goal : String) (budget : SessionBudget) (skills : List String)
    (effort : Option String) : List (String × Json) :=
  [("goal", .str goal), ("budget", .obj budget.modelDump), ("skills", .arr (skills.map Json.str)),
    ("effort", effort.elim .null Json.str)]

/-- `create_session`. -/
def createSession (goal userMessage userId : String) (budget : SessionBudget) (autoClose : Bool)
    (skills : List String) (effort : Option String) : Prog Manager SessionRow := do
  let now ← query (L := Manager) .now
  let sid ← query (L := Manager) .newSessionId
  let session := newSession sid goal userMessage userId budget autoClose now
  writeRecords fun rs => rs.saveSession session
  publish
    { eventType := .sessionCreated
      timestamp := now
      sessionId := sid
      payload := sessionCreatedPayload goal budget skills effort }
  return session

/-- What `transition_session` writes: the updates, the new status, and the times that go with it. -/
def sessionChanges (current : SessionRow) (target : SessionState) (now : Instant)
    (updates : Kwargs) : Kwargs :=
  let changes :=
    (updates.setItem "status" (.sessionState target)).setItem "updated_at" (.datetime now)
  match target with
  | .running =>
    let started := if current.startedAt = none then changes.setdefault "started_at" (.datetime now)
      else changes
    started.setdefault "ended_at" .none
  | .completed => changes.setdefault "ended_at" (.datetime now)
  | .failed => changes.setdefault "ended_at" (.datetime now)
  | .interrupting => changes.setdefault "interrupted_at" (.datetime now)
  | _ => changes

/-- A completed session that closes on its final answer runs again only to let the user answer a
question. -/
def checkAutoClose (current : SessionRow) (target : SessionState) : Prog Manager Unit := do
  if current.status = .completed ∧ target = .running ∧ current.autoCloseOnFinalAnswer then
    if ¬ (← conversationWaitsForUser current) then
      throw (.invalidTransition sessionEntity (StrEnum.value current.status) (StrEnum.value target))

/-- `transition_session`. -/
def transitionSession (sid : String) (target : SessionState) (reason : Option String)
    (updates : Kwargs) : Prog Manager SessionRow := do
  let current ← requireSession sid
  ofExcept (L := Manager) (rejectManagedFields updates sessionManagedFields sessionEntity)
  ofExcept (L := Manager) (assertTransition sessionTransitions current.status target sessionEntity)
  checkAutoClose current target
  let now ← query (L := Manager) .now
  let session : SessionRow ← ofExcept (L := Manager)
    (current.apply library (sessionChanges current target now updates))
  writeRecords fun rs => rs.saveSession session
  publish
    { eventType := .sessionStateChanged
      timestamp := now
      sessionId := sid
      payload := stateChangePayload (StrEnum.value current.status) (StrEnum.value target) reason }
  return session

/-- `update_session`. -/
def updateSession (sid : String) (updates : Kwargs) : Prog Manager SessionRow := do
  let current ← requireSession sid
  ofExcept (L := Manager) (rejectManagedFields updates sessionManagedFields sessionEntity)
  let now ← query (L := Manager) .now
  let session : SessionRow ← ofExcept (L := Manager)
    (current.apply library (updates.setItem "updated_at" (.datetime now)))
  writeRecords fun rs => rs.saveSession session
  return session

/-- `get_session`. -/
def getSession (sid : String) : Prog Manager (Option SessionRow) :=
  readRecords fun rs => rs.sessions.find sid

/-- The record of a new conversation. -/
def newConversation (cid : String) (session : SessionRow) (parentConversationId : Option String)
    (contextWindowState : ContextWindowState) (now : Instant) : ConversationRow where
  value
    | .conversationId => cid
    | .sessionId => session.sessionId
    | .parentConversationId => parentConversationId
    | .remoteConversationId => none
    | .status => ConversationState.new
    | .autoCloseOnFinalAnswer => session.autoCloseOnFinalAnswer
    | .contextWindowState => contextWindowState
    | .contextBytes => (0 : Int)
    | .protocolErrorCount => (0 : Int)
    | .lastModelResponseState => "none"
    | .currentCycleId => none
    | .currentPlanId => none
    | .lastCompletedPlanId => none
    | .finalAnswerReceived => false
    | .lastOutboundMessageId => none
    | .lastInboundMessageId => none
    | .getCursor => none
    | .sessionBudgetJson => session.budget.modelDump
    | .closureReason => none
    | .interruptedAt => none
    | .createdAt => now
    | .updatedAt => now

/-- The payload of `conversation.created`. -/
def conversationCreatedPayload (parentConversationId : Option String)
    (contextWindowState : ContextWindowState) : List (String × Json) :=
  [("parent_conversation_id", parentConversationId.elim .null Json.str),
    ("context_window_state", .str (StrEnum.value contextWindowState))]

/-- The parent of a new conversation is there and belongs to the session. -/
def checkParent (sid : String) : (parentConversationId : Option String) → Prog Manager Unit
  | none => return ()
  | some parentId => do
    let parent ← requireConversation parentId
    if parent.sessionId ≠ sid then
      throw (.valueError
        s!"parent conversation {parentId} belongs to session {parent.sessionId}, not {sid}")

/-- `create_conversation`. -/
def createConversation (sid : String) (parentConversationId : Option String)
    (contextWindowState : ContextWindowState) : Prog Manager ConversationRow := do
  let session ← requireSession sid
  checkParent sid parentConversationId
  let now ← query (L := Manager) .now
  let cid ← query (L := Manager) .newConversationId
  let conversation := newConversation cid session parentConversationId contextWindowState now
  let updatedSession : SessionRow ← ofExcept (L := Manager) (session.apply library
    [("current_conversation_id", .str cid), ("updated_at", .datetime now)])
  writeRecords fun rs => (rs.saveConversation conversation).saveSession updatedSession
  publish
    { eventType := .conversationCreated
      timestamp := now
      sessionId := sid
      conversationId := some cid
      payload := conversationCreatedPayload parentConversationId contextWindowState }
  return conversation

/-- What a change of the status of a conversation writes. -/
def conversationChanges (target : ConversationState) (now : Instant) (updates : Kwargs) : Kwargs :=
  let changes :=
    (updates.setItem "status" (.conversationState target)).setItem "updated_at" (.datetime now)
  if target = .interrupted then changes.setdefault "interrupted_at" (.datetime now) else changes

/-- `_commit_conversation_transition`: write and publish a change that has been checked. -/
def commitConversationTransition (current : ConversationRow) (target : ConversationState)
    (reason : Option String) (updates : Kwargs) : Prog Manager ConversationRow := do
  let now ← query (L := Manager) .now
  let conversation : ConversationRow ← ofExcept (L := Manager)
    (current.apply library (conversationChanges target now updates))
  writeRecords fun rs => rs.saveConversation conversation
  publish
    { eventType := .conversationStateChanged
      timestamp := now
      sessionId := conversation.sessionId
      conversationId := some conversation.conversationId
      payload := stateChangePayload (StrEnum.value current.status) (StrEnum.value target) reason }
  return conversation

/-- `transition_conversation`. -/
def transitionConversation (cid : String) (target : ConversationState) (reason : Option String)
    (updates : Kwargs) : Prog Manager ConversationRow := do
  let current ← requireConversation cid
  ofExcept (L := Manager) (rejectManagedFields updates conversationManagedFields conversationEntity)
  ofExcept (L := Manager)
    (assertTransition conversationTransitions current.status target conversationEntity)
  commitConversationTransition library current target reason updates

/-- `update_conversation`. -/
def updateConversation (cid : String) (updates : Kwargs) : Prog Manager ConversationRow := do
  let current ← requireConversation cid
  ofExcept (L := Manager) (rejectManagedFields updates conversationManagedFields conversationEntity)
  let now ← query (L := Manager) .now
  let conversation : ConversationRow ← ofExcept (L := Manager)
    (current.apply library (updates.setItem "updated_at" (.datetime now)))
  writeRecords fun rs => rs.saveConversation conversation
  return conversation

/-- `interrupt_conversation`. -/
def interruptConversation (cid : String) (reason : String) : Prog Manager ConversationRow := do
  let current ← requireConversation cid
  if current.status ∉ activeConversationStates then
    throw (.invalidTransition conversationEntity (StrEnum.value current.status)
      (StrEnum.value ConversationState.interrupted))
  ofExcept (L := Manager)
    (assertTransition conversationTransitions current.status .interrupted conversationEntity)
  commitConversationTransition library current .interrupted (some reason) []

/-- `transition_context_window`. -/
def transitionContextWindow (cid : String) (target : ContextWindowState) (reason : Option String) :
    Prog Manager ConversationRow := do
  let current ← requireConversation cid
  ofExcept (L := Manager) (assertTransition contextWindowTransitions current.contextWindowState
    target contextWindowEntity)
  let now ← query (L := Manager) .now
  let conversation : ConversationRow ← ofExcept (L := Manager) (current.apply library
    [("context_window_state", .contextWindowState target), ("updated_at", .datetime now)])
  writeRecords fun rs => rs.saveConversation conversation
  publish
    { eventType := .contextWindowStateChanged
      timestamp := now
      sessionId := conversation.sessionId
      conversationId := some cid
      payload :=
        stateChangePayload (StrEnum.value current.contextWindowState) (StrEnum.value target) reason ++
          [("context_bytes", .int conversation.contextBytes)] }
  return conversation

/-- `get_conversation`. -/
def getConversation (cid : String) : Prog Manager (Option ConversationRow) :=
  readRecords fun rs => rs.conversations.find cid

end LifecycleManager

end AgenticLocalApp
