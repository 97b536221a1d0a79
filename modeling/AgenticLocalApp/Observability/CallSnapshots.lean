import AgenticLocalApp.Domain.JsonText
import AgenticLocalApp.Observability.SnapshotRuns
import AgenticLocalApp.Resilience.FailureManager

/-!
# Snapshots during a remote call

What a call writes and publishes of an attempt that fails and is tried again.  The retry is counted
on the cycle after the last event of the attempt, and the event of the next failure names no cycle:
until another event does, the snapshot shows the cycle as it was before the retry.
-/

namespace AgenticLocalApp

mutual

/-- A value that the application made itself: its texts all have an encoding. -/
def Json.raw : Json → RawJson
  | .null => .null
  | .bool b => .bool b
  | .int n => .int n
  | .float repr => .float repr
  | .str s => .str (RawText.ofString s)
  | .arr items => .arr (rawItems items)
  | .obj fields => .obj (rawFields fields)

def Json.rawItems : List Json → List RawJson
  | [] => []
  | x :: xs => raw x :: rawItems xs

def Json.rawFields : List (String × Json) → List (RawText × RawJson)
  | [] => []
  | (k, v) :: rest => (RawText.ofString k, raw v) :: rawFields rest

end

mutual

theorem Json.encode_raw : ∀ j : Json, j.raw.encode = some j
  | .null => rfl
  | .bool _ => rfl
  | .int _ => rfl
  | .float _ => rfl
  | .str s => by simp [raw, RawJson.encode]
  | .arr items => by simp [raw, RawJson.encode, encode_rawItems items]
  | .obj fields => by simp [raw, RawJson.encode, encode_rawFields fields]

theorem Json.encode_rawItems : ∀ items : List Json,
    RawJson.encodeItems (rawItems items) = some items
  | [] => rfl
  | x :: xs => by simp [rawItems, RawJson.encodeItems, encode_raw x, encode_rawItems xs]

theorem Json.encode_rawFields : ∀ fields : List (String × Json),
    RawJson.encodeFields (rawFields fields) = some fields
  | [] => rfl
  | (k, v) :: rest => by
    simp [rawFields, RawJson.encodeFields, encode_raw v, encode_rawFields rest]

end

theorem Json.payload_valid {payload : Json} (h : payload.Valid) {j : Json}
    (hj : payload.raw.encode = some j) : j.Valid := by
  rw [encode_raw, Option.some_inj] at hj
  rwa [← hj]

/-! ## The events of a failed attempt -/

instance : StrEnum Severity where
  value
    | .low => "low"
    | .medium => "medium"
    | .high => "high"
    | .critical => "critical"

def optionalInt : Option Nat → Json
  | none => .null
  | some n => .int n

/-- The event that `FailureManager.record` publishes: it names the plan and the task of the failure,
and no cycle. -/
def failureRecorded (record : FailureRecord) (timestamp : Timestamp)
    (hdetails : (Json.obj record.details).Valid) : Event where
  eventType := .failureRecorded
  timestamp := timestamp
  sessionId := record.sessionId
  conversationId := record.conversationId
  planId := record.planId.map RawText.ofString
  taskId := record.taskId.map RawText.ofString
  payload := Json.raw (.obj [("failure_id", .str record.failureId),
    ("error_type", .str (StrEnum.value record.errorType)), ("error_code", .str record.errorCode),
    ("severity", .str (StrEnum.value record.severity)), ("origin", .str record.origin),
    ("retryable", .bool record.retryable), ("recoverable", .bool record.recoverable),
    ("attempt", .int record.attempt), ("max_attempts", .int record.maxAttempts),
    ("details", .obj record.details)])
  payload_valid := Json.payload_valid (by simpa [Json.Valid, Json.ValidFields] using hdetails)

/-- The event that `record_decision` publishes of a retry. -/
def retryScheduled (record : RetryDecisionRecord) (reason : String) (timestamp : Timestamp) :
    Event where
  eventType := .retryScheduled
  timestamp := timestamp
  sessionId := record.sessionId
  conversationId := record.conversationId
  cycleId := record.cycleId
  payload := Json.raw (.obj [("decision_id", .str record.decisionId),
    ("operation", .str record.operation), ("attempt", .int record.attempt),
    ("max_attempts", .int record.maxAttempts), ("delay_ms", optionalInt record.delayMs),
    ("error_type", .str (StrEnum.value record.errorType)), ("error_code", .str record.errorCode),
    ("reason", .str reason)])
  payload_valid := Json.payload_valid (by
    cases record.delayMs <;> simp [Json.Valid, Json.ValidFields, optionalInt])

namespace TrackerAction

def store (f : Store → Store) : TrackerAction := .write fun db => { db with store := f db.store }

/-- The audit log chains an event before the tracker handles it. -/
def audited (e : Event) : TrackerAction :=
  .write fun db => { db with
    lastAuditEvent := Function.update db.lastAuditEvent e.sessionId
      ((e.link "event" (db.lastAuditEvent e.sessionId)).or (db.lastAuditEvent e.sessionId)) }

/-- An event on its way through the bus. -/
def published (e : Event) : List TrackerAction := [audited e, .publish e]

/-- `_bump_retry_count`. -/
def bumpRetryCount (cycle : CycleRecord) : TrackerAction :=
  .store fun σ => σ.saveCycle { cycle with retryCount := cycle.retryCount + 1 }

/-- What `_call` does of an attempt that failed, up to the wait for the next one, while the breaker
stays closed. -/
def retriedAttempt (failure : FailureRecord) (hdetails : (Json.obj failure.details).Valid)
    (decision : RetryDecisionRecord) (reason : String) (timestamp : Timestamp)
    (cycle : CycleRecord) : List TrackerAction :=
  .store (·.saveFailure failure) :: published (failureRecorded failure timestamp hdetails) ++
    .store (·.saveRetryDecision decision) :: published (retryScheduled decision reason timestamp) ++
    [bumpRetryCount cycle]

end TrackerAction

namespace TrackerState

open TrackerAction

/-- A session that waits for the user, and what is stored of it. -/
def waiting : Recorded where
  store :=
    { sessions := Table.empty.save (.sample "s" .completed (some "c"))
      conversations := Table.empty.save
        { ConversationRecord.sample "c" "s" .waitingUser with remoteConversationId := some "r" } }
  lastAuditEvent := fun _ => none

def sampleEvent (eventType : EventType) (conversationId cycleId : Option String)
    (fields : List (String × Json)) (hfields : (Json.obj fields).Valid) : Event where
  eventType := eventType
  timestamp := ⟨0, some 0⟩
  sessionId := "s"
  conversationId := conversationId
  cycleId := cycleId
  payload := Json.raw (.obj fields)
  payload_valid := Json.payload_valid hfields

def sampleFailure (failureId : String) (attempt : Nat) : FailureRecord where
  failureId := failureId
  sessionId := "s"
  conversationId := some "c"
  errorType := .networkError
  errorCode := "CONNECTION_ERROR"
  severity := .high
  origin := "TransportGateway"
  retryable := true
  recoverable := true
  attempt := attempt
  maxAttempts := 5
  details := [("operation", .str "post_message"), ("http_status", .null),
    ("url", .str "http://localhost"), ("cause", .str "ConnectError"), ("message", .str "")]
  timestamp := 0

def sampleRetry : RetryDecisionRecord where
  decisionId := "d"
  sessionId := "s"
  conversationId := some "c"
  cycleId := some "k"
  operation := "post_message"
  errorType := .networkError
  errorCode := "CONNECTION_ERROR"
  attempt := 1
  maxAttempts := 5
  decision := "retry"
  delayMs := some 1000
  createdAt := 0

def sampleCycle : CycleRecord :=
  { CycleRecord.sample "k" "s" "c" .running with
    cycleType := .execution, outboundMessageId := some "m" }

def secondFailure : Event :=
  failureRecorded (sampleFailure "g" 2) ⟨0, some 0⟩
    (by simp [sampleFailure, Json.Valid, Json.ValidFields])

/-- A follow-up request whose POST fails with a network error, is tried again and fails again; the
last event is still to be published. -/
def followUpRetried : List TrackerAction :=
  .store (·.saveSession { SessionRecord.sample "s" .running (some "c") with
      startedAt := some 0 }) ::
  published (sampleEvent .sessionStateChanged none none [("from", .str "COMPLETED"),
    ("to", .str "RUNNING")] (by simp [Json.Valid, Json.ValidFields])) ++
  .store (fun σ => (((σ.saveSession { SessionRecord.sample "s" .running (some "c") with
      startedAt := some 0, consumedCycles := 1 }).saveCycle sampleCycle).saveMessage
      { MessageRecord.sample "m" "s" "c" .outbound .userRequest (some "k") with
        postConfirmed := false }).saveConversation
      { ConversationRecord.sample "c" "s" .waitingUser with
        remoteConversationId := some "r"
        currentCycleId := some "k"
        lastOutboundMessageId := some "m" }) ::
  published (sampleEvent .cycleStarted (some "c") (some "k") [("cycle_type", .str "execution"),
    ("outbound_message_id", .str "m"), ("outbound_message_type", .str "user_request"),
    ("consumed_cycles", .int 1)] (by simp [Json.Valid, Json.ValidFields])) ++
  published (sampleEvent .budgetUpdated none none [("consumed_cycles", .int 1),
    ("consumed_plans", .int 0), ("consumed_duration_ms", .int 0), ("max_cycles", .int 100),
    ("max_plans", .int 50), ("max_total_duration_ms", .int 3600000)]
    (by simp [Json.Valid, Json.ValidFields])) ++
  .store (·.saveConversation { ConversationRecord.sample "c" "s" .waitingModelResponse with
      remoteConversationId := some "r"
      currentCycleId := some "k"
      lastOutboundMessageId := some "m" }) ::
  published (sampleEvent .conversationStateChanged (some "c") none
    [("from", .str "WAITING_USER"), ("to", .str "WAITING_MODEL_RESPONSE"),
      ("reason", .str "user_request")] (by simp [Json.Valid, Json.ValidFields])) ++
  retriedAttempt (sampleFailure "f" 1) (by simp [sampleFailure, Json.Valid, Json.ValidFields])
    sampleRetry "retryable_error" ⟨0, some 0⟩ sampleCycle ++
  .store (·.saveFailure (sampleFailure "g" 2)) :: [audited secondFailure]

/-- The retries of the cycle that a snapshot shows. -/
def shownRetries (snapshot : Except Exc RuntimeSnapshot) : Option Nat :=
  match snapshot with
  | .ok s => s.cycle.map CycleView.retryCount
  | .error _ => none

/-- After the second failure the snapshot shows no retry, and a rebuilt tracker one. -/
theorem followUpRetried_not_inStep :
    ¬ AlwaysInStep waiting (followUpRetried ++ [.publish secondFailure]) := by
  intro h
  have hlast := congrArg shownRetries (h followUpRetried secondFailure List.prefix_rfl "s" 0)
  revert hlast
  decide

end TrackerState

end AgenticLocalApp
