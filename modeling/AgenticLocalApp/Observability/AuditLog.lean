import AgenticLocalApp.Domain.RawJson
import AgenticLocalApp.Observability.AuditStores

/-!
# The audit log

Every audited event of the bus becomes the next link of the chain of its session: it is numbered
after the last event of the session, and its hash covers that event's hash and everything it says
itself.  The last event of a session is read from the store once and then remembered.
-/

namespace AgenticLocalApp

inductive EventType where
  | sessionCreated | sessionStateChanged | sessionPaused | conversationCreated
  | conversationStateChanged | cycleStarted | cycleEnded | messageOutbound | messageInbound
  | messageRejected | messageRetransmitted | correctionRequested | planReceived | planStateChanged
  | taskStateChanged | taskOutput | finalAnswerReceived | userResponseReceived | failureRecorded
  | retryScheduled | breakerStateChanged | contextWindowStateChanged | rotationStarted
  | rotationCompleted | rotationFailed | budgetUpdated | budgetExceeded | interruptionRequested
  | interruptionCompleted | recoveryStarted | recoveryAction | recoveryCompleted | auditWarning
  deriving DecidableEq, Repr

instance : StrEnum EventType where
  value
    | .sessionCreated => "session.created"
    | .sessionStateChanged => "session.state_changed"
    | .sessionPaused => "session.paused"
    | .conversationCreated => "conversation.created"
    | .conversationStateChanged => "conversation.state_changed"
    | .cycleStarted => "cycle.started"
    | .cycleEnded => "cycle.ended"
    | .messageOutbound => "message.outbound"
    | .messageInbound => "message.inbound"
    | .messageRejected => "message.rejected"
    | .messageRetransmitted => "message.retransmitted"
    | .correctionRequested => "correction.requested"
    | .planReceived => "plan.received"
    | .planStateChanged => "plan.state_changed"
    | .taskStateChanged => "task.state_changed"
    | .taskOutput => "task.output"
    | .finalAnswerReceived => "final_answer.received"
    | .userResponseReceived => "user_response.received"
    | .failureRecorded => "failure.recorded"
    | .retryScheduled => "retry.scheduled"
    | .breakerStateChanged => "breaker.state_changed"
    | .contextWindowStateChanged => "context.window_state_changed"
    | .rotationStarted => "rotation.started"
    | .rotationCompleted => "rotation.completed"
    | .rotationFailed => "rotation.failed"
    | .budgetUpdated => "budget.updated"
    | .budgetExceeded => "budget.exceeded"
    | .interruptionRequested => "interruption.requested"
    | .interruptionCompleted => "interruption.completed"
    | .recoveryStarted => "recovery.started"
    | .recoveryAction => "recovery.action"
    | .recoveryCompleted => "recovery.completed"
    | .auditWarning => "audit.warning"

/-- An event on the bus.  What comes from the model may hold halves of surrogate pairs; a float of
the payload has the text that it is printed as. -/
structure Event where
  eventType : EventType
  timestamp : Timestamp
  sessionId : String
  conversationId : Option String := none
  cycleId : Option String := none
  planId : Option RawText := none
  taskId : Option RawText := none
  payload : RawJson
  payload_valid : ∀ {j : Json}, payload.encode = some j → j.Valid

/-- `audited`: everything but the live output of the tasks. -/
def Event.audited (e : Event) : Bool := e.eventType ≠ .taskOutput

def genesisHash : String := .ofList (List.replicate 64 '0')

section Hash

variable (sha256 : List Char → String)

/-- `chain_hash`. -/
def chainHash (previousEventHash : String) (eventWithoutHash : Json) : String :=
  sha256 (previousEventHash.toList ++ eventWithoutHash.canonical)

def optionalText : Option String → Json
  | none => .null
  | some s => .str s

/-- `audit_hash_input`. -/
def auditHashInput (e : AuditEvent) : Json :=
  .obj [("event_id", .str e.eventId), ("sequence", .int e.sequence),
    ("previous_event_hash", .str e.previousEventHash), ("session_id", .str e.sessionId),
    ("conversation_id", optionalText e.conversationId), ("cycle_id", optionalText e.cycleId),
    ("plan_id", optionalText e.planId), ("task_id", optionalText e.taskId),
    ("event_type", .str e.eventType), ("timestamp", .str e.timestamp.isoformat),
    ("payload", e.payload)]

/-- `recompute_hash`. -/
def recomputeHash (e : AuditEvent) : String :=
  chainHash sha256 e.previousEventHash (auditHashInput e)

end Hash

/-- The link that an event becomes after `previous`, but for its hash; `none` when one of its texts
has no encoding to be hashed. -/
def Event.link (e : Event) (eventId : String) (previous : Option AuditEvent) :
    Option AuditEvent := do
  let planId ← e.planId.mapM RawText.encode
  let taskId ← e.taskId.mapM RawText.encode
  let payload ← e.payload.encode
  return {
    eventId := eventId
    sequence := previous.elim 1 fun p => p.sequence + 1
    previousEventHash := previous.elim genesisHash AuditEvent.eventHash
    eventHash := ""
    sessionId := e.sessionId
    conversationId := e.conversationId
    cycleId := e.cycleId
    planId := planId
    taskId := taskId
    eventType := StrEnum.value e.eventType
    timestamp := e.timestamp
    payload := payload }

/-- Where the store fails while an event is handled, if it does. -/
inductive StoreFault where
  | none | read | write
  deriving DecidableEq, Repr

def sqliteFault : Exc :=
  .app (persistenceError "SQLITE_ERROR" false [("sqlite", .str "disk I/O error")])

/-- A store and the audit log over it, with the last event of each session that it remembers. -/
structure AuditLog (S : AuditStore) where
  store : S.State
  last : String → Option (Option AuditEvent) := fun _ => none

namespace AuditLog

variable {S : AuditStore} (sha256 : List Char → String) (log : AuditLog S)

/-- `_last_of`: what is remembered, or what the store says, which is remembered. -/
def lastOf (sid : String) (fault : StoreFault) : Except Exc (Option AuditEvent × AuditLog S) :=
  match log.last sid with
  | some previous => .ok (previous, log)
  | none =>
    if fault = .read then .error sqliteFault
    else do
      let previous ← S.last log.store sid
      return (previous, { log with last := Function.update log.last sid (some previous) })

/-- `handle`, and the log after it. -/
def handle (e : Event) (eventId : String) (fault : StoreFault) :
    Except Exc (Option AuditEvent) × AuditLog S :=
  if ¬ e.audited then (.ok none, log)
  else
    match log.lastOf e.sessionId fault with
    | .error exc => (.error exc, log)
    | .ok (previous, log) =>
      match e.link eventId previous with
      | none => (.error (.valueError "'utf-8' codec can't encode: surrogates not allowed"), log)
      | some link =>
        let audited := { link with eventHash := recomputeHash sha256 link }
        if fault = .write then (.error sqliteFault, log)
        else
          match S.append log.store audited with
          | .error exc => (.error exc, log)
          | .ok store =>
            (.ok (some audited),
              { store := store, last := Function.update log.last e.sessionId (some (some audited)) })

/-- A new log over the same store. -/
def restart : AuditLog S := { store := log.store }

/-! ## Verification -/

inductive BrokenReason where
  | hashMismatch | previousHashMismatch | sequenceGap
  deriving DecidableEq, Repr

instance : StrEnum BrokenReason where
  value
    | .hashMismatch => "HASH_MISMATCH"
    | .previousHashMismatch => "PREVIOUS_HASH_MISMATCH"
    | .sequenceGap => "SEQUENCE_GAP"

/-- How a verification ends. -/
inductive Verification where
  | valid (checked : Nat)
  | broken (checked firstBrokenSequence : Nat) (reason : BrokenReason)
  /-- The last event of an empty page was asked for. -/
  | indexError
  deriving DecidableEq, Repr

/-- `_check_link`. -/
def checkLink (e : AuditEvent) (expectedSequence : Nat) (previousHash : String) :
    Option BrokenReason :=
  if e.sequence ≠ expectedSequence then some .sequenceGap
  else if e.previousEventHash ≠ previousHash then some .previousHashMismatch
  else if recomputeHash sha256 e ≠ e.eventHash then some .hashMismatch
  else none

/-- One page: the count, the next sequence and the hash of its last event, or the first break. -/
def checkPage : (page : List AuditEvent) → (checked expectedSequence : Nat) →
    (previousHash : String) → Verification ⊕ (Nat × Nat × String)
  | [], checked, expectedSequence, previousHash => .inr (checked, expectedSequence, previousHash)
  | e :: rest, checked, expectedSequence, previousHash =>
    match checkLink sha256 e expectedSequence previousHash with
    | some reason => .inl (.broken checked e.sequence reason)
    | none => checkPage rest (checked + 1) (expectedSequence + 1) e.eventHash

/-- The walk of `verify` from `afterSequence` on; `none` when it takes more than `pages` pages. -/
def verifyFrom (sid : String) (pageSize : Int) : (pages : Nat) → (afterSequence : Option Nat) →
    (checked expectedSequence : Nat) → (previousHash : String) →
    Except Exc (Option Verification)
  | 0, _, _, _, _ => .ok none
  | pages + 1, afterSequence, checked, expectedSequence, previousHash => do
    let page ← S.list log.store sid afterSequence pageSize
    match checkPage sha256 page checked expectedSequence previousHash with
    | .inl broken => return some broken
    | .inr (checked, expectedSequence, previousHash) =>
      if page.length < pageSize then return some (.valid checked)
      else
        match page.getLast? with
        | none => return some .indexError
        | some last =>
          verifyFrom sid pageSize pages (some last.sequence) checked expectedSequence previousHash

/-- `verify`, with as many pages as it may take. -/
def verify (sid : String) (pageSize : Int) (pages : Nat) : Except Exc (Option Verification) :=
  log.verifyFrom sha256 sid pageSize pages none 0 1 genesisHash

end AuditLog

end AgenticLocalApp
