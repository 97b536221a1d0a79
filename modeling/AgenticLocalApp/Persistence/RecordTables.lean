import AgenticLocalApp.Persistence.ColumnCodec

/-!
# The tables of the SQLite store

One table for each kind of record, a column for each of its fields.  A record is read back with the
keys of its objects in order, which two equal dictionaries may differ in.
-/

namespace AgenticLocalApp

/-! ## Enumerations -/

instance : StrEnum CycleType where
  value
    | .discovery => "discovery"
    | .execution => "execution"
    | .clarification => "clarification"
    | .resume => "resume"

instance : StrEnum PlanType where
  value
    | .discoveryPlan => "discovery_plan"
    | .executionPlan => "execution_plan"
    | .priorityClarification => "priority_clarification"

instance : StrEnum ExecutionPolicy where
  value
    | .sequential => "sequential"
    | .parallel => "parallel"

instance : StrEnum TaskType where
  value
    | .cmd => "cmd"
    | .chunkRequest => "chunk_request"

instance : StrEnum MessageDirection where
  value
    | .outbound => "outbound"
    | .inbound => "inbound"

instance : EnumColumn SessionState where
  members := [.ready, .running, .interrupting, .completed, .failed, .paused]
  found s := by cases s <;> rfl

instance : EnumColumn ConversationState where
  members := [.new, .active, .waitingModelResponse, .runningPlan, .waitingUser, .rotating,
    .interrupted, .completed, .failed, .closed]
  found s := by cases s <;> rfl

instance : EnumColumn ContextWindowState where
  members := [.healthy, .warning, .saturated]
  found s := by cases s <;> rfl

instance : EnumColumn CycleType where
  members := [.discovery, .execution, .clarification, .resume]
  found s := by cases s <;> rfl

instance : EnumColumn CycleState where
  members := [.running, .completed, .failed, .interrupted]
  found s := by cases s <;> rfl

instance : EnumColumn PlanType where
  members := [.discoveryPlan, .executionPlan, .priorityClarification]
  found s := by cases s <;> rfl

instance : EnumColumn ExecutionPolicy where
  members := [.sequential, .parallel]
  found s := by cases s <;> rfl

instance : EnumColumn PlanState where
  members := [.pending, .running, .completed, .stoppedOnFailure, .shortCircuitedOnSuccess,
    .interrupted, .failed]
  found s := by cases s <;> rfl

instance : EnumColumn TaskType where
  members := [.cmd, .chunkRequest]
  found s := by cases s <;> rfl

instance : EnumColumn TaskState where
  members := [.pending, .waitingDependency, .running, .completed, .failed, .timedOut, .skipped,
    .cancelled, .interrupted]
  found s := by cases s <;> rfl

instance : EnumColumn OutputStream where
  members := [.stdout, .stderr]
  found s := by cases s <;> rfl

instance : EnumColumn MessageDirection where
  members := [.outbound, .inbound]
  found s := by cases s <;> rfl

instance : EnumColumn MessageType where
  members := [.userRequest, .discoveryPlan, .executionPlan, .priorityClarification,
    .executionResult, .finalAnswer, .userResponse, .contextResumeRequest, .contextResumeAck,
    .protocolCorrectionRequest, .chunkRequest, .systemError]
  found s := by cases s <;> rfl

/-! ## JSON columns -/

namespace Column

/-- A dictionary. -/
def dict : Column Json :=
  json id fun
    | .obj fields => some (.obj fields)
    | _ => none

def budgetJson (b : SessionBudget) : Json :=
  .obj [("max_cycles", .int b.maxCycles), ("max_plans", .int b.maxPlans),
    ("max_total_duration_ms", .int b.maxTotalDurationMs)]

theorem toNat_pos {n : Int} (h : 0 < n) : 0 < n.toNat := by omega

/-- An integer above zero. -/
def positive : Option Json → Option { n : Nat // 0 < n }
  | some (.int n) => if h : 0 < n then some ⟨n.toNat, toNat_pos h⟩ else none
  | _ => none

/-- `SessionBudget.model_validate`. -/
def validateBudget : Json → Option SessionBudget
  | .obj fields => do
    let cycles ← positive (fields.lookup "max_cycles")
    let plans ← positive (fields.lookup "max_plans")
    let duration ← positive (fields.lookup "max_total_duration_ms")
    return ⟨cycles.1, plans.1, duration.1, cycles.2, plans.2, duration.2⟩
  | _ => none

def budget : Column SessionBudget := json budgetJson validateBudget

/-- `tuple[str, ...]`, of a list that was read. -/
def validateTexts : Json → Option (List String)
  | .arr items => items.mapM fun
    | .str s => some s
    | _ => none
  | _ => none

/-- A tuple of texts. -/
def texts : Column (List String) := json (fun ss => .arr (ss.map Json.str)) validateTexts

/-- A pair of integers. -/
def range : Column (Int × Int) :=
  json (fun p => .arr [.int p.1, .int p.2]) fun
    | .arr [.int a, .int b] => some (a, b)
    | _ => none

/-- A value that is a dictionary, and that a float of it can be printed. -/
def IsDict (j : Json) : Prop := j.Valid ∧ ∃ fields, j = .obj fields

theorem reads_dict {j : Json} (h : IsDict j) : dict.Reads j j.sorted := by
  obtain ⟨hvalid, fields, rfl⟩ := h
  exact reads_json hvalid rfl

theorem reads_budget (b : SessionBudget) : budget.Reads b b := by
  have hsorted : (budgetJson b).sorted = budgetJson b := by
    have hfirst : "max_cycles" ≤ "max_plans" := by decide
    have hsecond : "max_cycles" ≤ "max_total_duration_ms" := by decide
    have hthird : "max_plans" ≤ "max_total_duration_ms" := by decide
    rw [budgetJson, Json.sorted]
    simp only [Json.sortedFields, Json.sorted]
    rw [Json.sortFields_eq]
    refine congrArg Json.obj (List.Pairwise.insertionSort_eq ?_)
    simp [Json.keyLe, hfirst, hsecond, hthird]
  apply reads_json
  · simp [budgetJson, Json.Valid, Json.ValidFields]
  · rw [hsorted]
    simp [budgetJson, validateBudget, positive, List.lookup_cons, b.maxCycles_pos, b.maxPlans_pos,
      b.maxTotalDurationMs_pos]

theorem sortedItems_strs (ss : List String) :
    Json.sortedItems (ss.map Json.str) = ss.map Json.str := by
  induction ss with
  | nil => rfl
  | cons s ss ih => rw [List.map_cons, Json.sortedItems, ih, Json.sorted]

theorem validItems_strs (ss : List String) : Json.ValidItems (ss.map Json.str) := by
  induction ss with
  | nil => trivial
  | cons s ss ih => exact ⟨trivial, ih⟩

theorem validateTexts_strs (ss : List String) : validateTexts (.arr (ss.map Json.str)) = some ss := by
  induction ss with
  | nil => rfl
  | cons s ss ih =>
    simp only [validateTexts, List.map_cons, List.mapM_cons] at ih ⊢
    rw [ih]
    rfl

theorem reads_texts (ss : List String) : texts.Reads ss ss := by
  refine reads_json (validItems_strs ss) ?_
  rw [Json.sorted, sortedItems_strs]
  exact validateTexts_strs ss

theorem reads_range (p : Int × Int) : range.Reads p p :=
  reads_json ⟨trivial, trivial, trivial⟩ rfl

end Column

/-! ## Tables -/

/-- A table: its columns, and the texts of the primary key of a record. -/
structure SqlTable (ρ : Type) where
  name : String
  row : Row ρ ρ
  primaryKey : ρ → List String

open Column

def sessionsTable : SqlTable SessionRecord where
  name := "sessions"
  primaryKey s := [s.sessionId]
  row := Row.start SessionRecord.mk
    |>.column "session_id" SessionRecord.sessionId text
    |>.column "status" SessionRecord.status (enum _)
    |>.column "goal" SessionRecord.goal text
    |>.column "user_message" SessionRecord.userMessage text
    |>.column "user_id" SessionRecord.userId text
    |>.column "auto_close_on_final_answer" SessionRecord.autoCloseOnFinalAnswer boolean
    |>.column "budget" SessionRecord.budget Column.budget
    |>.column "consumed_cycles" SessionRecord.consumedCycles natural
    |>.column "consumed_plans" SessionRecord.consumedPlans natural
    |>.column "rotations_count" SessionRecord.rotationsCount natural
    |>.column "current_conversation_id" SessionRecord.currentConversationId text.nullable
    |>.column "final_answer" SessionRecord.finalAnswer dict.nullable
    |>.column "last_failure_id" SessionRecord.lastFailureId text.nullable
    |>.column "started_at" SessionRecord.startedAt datetime.nullable
    |>.column "ended_at" SessionRecord.endedAt datetime.nullable
    |>.column "interrupted_at" SessionRecord.interruptedAt datetime.nullable
    |>.column "created_at" SessionRecord.createdAt datetime
    |>.column "updated_at" SessionRecord.updatedAt datetime

def conversationsTable : SqlTable ConversationRecord where
  name := "conversations"
  primaryKey c := [c.conversationId]
  row := Row.start ConversationRecord.mk
    |>.column "conversation_id" ConversationRecord.conversationId text
    |>.column "session_id" ConversationRecord.sessionId text
    |>.column "parent_conversation_id" ConversationRecord.parentConversationId text.nullable
    |>.column "remote_conversation_id" ConversationRecord.remoteConversationId text.nullable
    |>.column "status" ConversationRecord.status (enum _)
    |>.column "auto_close_on_final_answer" ConversationRecord.autoCloseOnFinalAnswer boolean
    |>.column "context_window_state" ConversationRecord.contextWindowState (enum _)
    |>.column "context_bytes" ConversationRecord.contextBytes natural
    |>.column "protocol_error_count" ConversationRecord.protocolErrorCount natural
    |>.column "last_model_response_state" ConversationRecord.lastModelResponseState text
    |>.column "current_cycle_id" ConversationRecord.currentCycleId text.nullable
    |>.column "current_plan_id" ConversationRecord.currentPlanId text.nullable
    |>.column "last_completed_plan_id" ConversationRecord.lastCompletedPlanId text.nullable
    |>.column "final_answer_received" ConversationRecord.finalAnswerReceived boolean
    |>.column "last_outbound_message_id" ConversationRecord.lastOutboundMessageId text.nullable
    |>.column "last_inbound_message_id" ConversationRecord.lastInboundMessageId text.nullable
    |>.column "get_cursor" ConversationRecord.getCursor text.nullable
    |>.column "session_budget_json" ConversationRecord.sessionBudget budget
    |>.column "closure_reason" ConversationRecord.closureReason text.nullable
    |>.column "interrupted_at" ConversationRecord.interruptedAt datetime.nullable
    |>.column "created_at" ConversationRecord.createdAt datetime
    |>.column "updated_at" ConversationRecord.updatedAt datetime

def cyclesTable : SqlTable CycleRecord where
  name := "cycles"
  primaryKey c := [c.cycleId]
  row := Row.start CycleRecord.mk
    |>.column "cycle_id" CycleRecord.cycleId text
    |>.column "conversation_id" CycleRecord.conversationId text
    |>.column "session_id" CycleRecord.sessionId text
    |>.column "cycle_type" CycleRecord.cycleType (enum _)
    |>.column "status" CycleRecord.status (enum _)
    |>.column "retry_count" CycleRecord.retryCount natural
    |>.column "outbound_message_id" CycleRecord.outboundMessageId text.nullable
    |>.column "inbound_message_id" CycleRecord.inboundMessageId text.nullable
    |>.column "plan_id" CycleRecord.planId text.nullable
    |>.column "started_at" CycleRecord.startedAt datetime
    |>.column "ended_at" CycleRecord.endedAt datetime.nullable

def plansTable : SqlTable PlanRecord where
  name := "plans"
  primaryKey p := [p.sessionId, p.planId]
  row := Row.start PlanRecord.mk
    |>.column "plan_id" PlanRecord.planId text
    |>.column "session_id" PlanRecord.sessionId text
    |>.column "conversation_id" PlanRecord.conversationId text
    |>.column "cycle_id" PlanRecord.cycleId text
    |>.column "plan_type" PlanRecord.planType (enum _)
    |>.column "objective" PlanRecord.objective text
    |>.column "execution_policy" PlanRecord.executionPolicy (enum _)
    |>.column "max_parallel_workers" PlanRecord.maxParallelWorkers integer
    |>.column "status" PlanRecord.status (enum _)
    |>.column "stop_reason" PlanRecord.stopReason text.nullable
    |>.column "task_count" PlanRecord.taskCount natural
    |>.column "completed_task_count" PlanRecord.completedTaskCount natural
    |>.column "failed_task_count" PlanRecord.failedTaskCount natural
    |>.column "skipped_task_count" PlanRecord.skippedTaskCount natural
    |>.column "cancelled_task_count" PlanRecord.cancelledTaskCount natural
    |>.column "interrupted_task_count" PlanRecord.interruptedTaskCount natural
    |>.column "default_max_output_bytes" PlanRecord.defaultMaxOutputBytes integer.nullable
    |>.column "state_summary" PlanRecord.stateSummary dict.nullable
    |>.column "started_at" PlanRecord.startedAt datetime.nullable
    |>.column "ended_at" PlanRecord.endedAt datetime.nullable
    |>.column "created_at" PlanRecord.createdAt datetime
    |>.column "updated_at" PlanRecord.updatedAt datetime

def tasksTable : SqlTable TaskRecord where
  name := "tasks"
  primaryKey t := [t.sessionId, t.taskId]
  row := Row.start TaskRecord.mk
    |>.column "task_id" TaskRecord.taskId text
    |>.column "plan_id" TaskRecord.planId text
    |>.column "session_id" TaskRecord.sessionId text
    |>.column "conversation_id" TaskRecord.conversationId text
    |>.column "order_index" TaskRecord.orderIndex integer
    |>.column "type" TaskRecord.type (enum _)
    |>.column "cmd" TaskRecord.cmd text.nullable
    |>.column "status" TaskRecord.status (enum _)
    |>.column "critical" TaskRecord.critical boolean
    |>.column "continue_on_error" TaskRecord.continueOnError boolean
    |>.column "stop_plan_on_failure" TaskRecord.stopPlanOnFailure boolean
    |>.column "stop_plan_on_success" TaskRecord.stopPlanOnSuccess boolean
    |>.column "stops_plan_on_failure" TaskRecord.stopsPlanOnFailure boolean
    |>.column "depends_on" TaskRecord.dependsOn texts
    |>.column "resource_lock" TaskRecord.resourceLock text.nullable
    |>.column "max_output_bytes" TaskRecord.maxOutputBytes integer.nullable
    |>.column "max_output_bytes_applied" TaskRecord.maxOutputBytesApplied integer.nullable
    |>.column "timeout_ms" TaskRecord.timeoutMs integer.nullable
    |>.column "timeout_ms_applied" TaskRecord.timeoutMsApplied integer.nullable
    |>.column "ref_task_id" TaskRecord.refTaskId text.nullable
    |>.column "stream" TaskRecord.stream (enum _).nullable
    |>.column "byte_offset" TaskRecord.byteOffset integer.nullable
    |>.column "max_bytes" TaskRecord.maxBytes integer.nullable
    |>.column "attempt_count" TaskRecord.attemptCount natural
    |>.column "exit_code" TaskRecord.exitCode integer.nullable
    |>.column "timed_out" TaskRecord.timedOut boolean
    |>.column "stdout_ref" TaskRecord.stdoutRef text.nullable
    |>.column "stderr_ref" TaskRecord.stderrRef text.nullable
    |>.column "truncated" TaskRecord.truncated boolean
    |>.column "original_size_bytes" TaskRecord.originalSizeBytes natural.nullable
    |>.column "stdout_total" TaskRecord.stdoutTotal natural.nullable
    |>.column "stderr_total" TaskRecord.stderrTotal natural.nullable
    |>.column "stdout_range" TaskRecord.stdoutRange range.nullable
    |>.column "stderr_range" TaskRecord.stderrRange range.nullable
    |>.column "reason" TaskRecord.reason text.nullable
    |>.column "pid" TaskRecord.pid integer.nullable
    |>.column "process_group_id" TaskRecord.processGroupId integer.nullable
    |>.column "started_at" TaskRecord.startedAt datetime.nullable
    |>.column "ended_at" TaskRecord.endedAt datetime.nullable
    |>.column "duration_ms" TaskRecord.durationMs integer.nullable
    |>.column "created_at" TaskRecord.createdAt datetime
    |>.column "updated_at" TaskRecord.updatedAt datetime

def messagesTable : SqlTable MessageRecord where
  name := "messages"
  primaryKey m := [m.messageId]
  row := Row.start MessageRecord.mk
    |>.column "message_id" MessageRecord.messageId text
    |>.column "session_id" MessageRecord.sessionId text
    |>.column "conversation_id" MessageRecord.conversationId text
    |>.column "direction" MessageRecord.direction (enum _)
    |>.column "message_type" MessageRecord.messageType (enum _)
    |>.column "payload" MessageRecord.payload dict
    |>.column "size_bytes" MessageRecord.sizeBytes natural
    |>.column "cycle_id" MessageRecord.cycleId text.nullable
    |>.column "post_confirmed" MessageRecord.postConfirmed boolean
    |>.column "posted_at" MessageRecord.postedAt datetime.nullable
    |>.column "received_at" MessageRecord.receivedAt datetime.nullable
    |>.column "validation_status" MessageRecord.validationStatus text.nullable
    |>.column "retransmission_of" MessageRecord.retransmissionOf text.nullable
    |>.column "created_at" MessageRecord.createdAt datetime

end AgenticLocalApp
