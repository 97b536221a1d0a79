import AgenticLocalApp.Context.PendingOutputs
import AgenticLocalApp.Domain.JsonSize
import AgenticLocalApp.Persistence.RecordTables

/-!
# The context reducer

The summary of a session that its next conversation is told: the last state summary that the model
wrote, the ledger of the plans, the outputs that can still be asked for, the budget.  A summary that
is over its bound is cut step by step, as far as it takes and no further.
-/

namespace AgenticLocalApp

/-! ## Entries -/

/-- A value, or JSON's null. -/
def Json.nullable {α : Type} (f : α → Json) (value : Option α) : Json := value.elim .null f

/-- What the ledger says of a task.  The command is left out once the commands are dropped. -/
structure TaskEntry where
  taskId : String
  cmd : Option (Option String)
  status : TaskState
  exitCode : Option Int
  truncated : Bool
  originalSizeBytes : Option Nat

/-- What the ledger says of a plan. -/
structure LedgerEntry where
  planId : String
  planType : PlanType
  objective : String
  status : PlanState
  stopReason : Option String
  tasks : List TaskEntry

namespace TaskEntry

def toJson (t : TaskEntry) : Json :=
  .obj ([("task_id", .str t.taskId)] ++
    (t.cmd.map fun cmd => ("cmd", Json.nullable Json.str cmd)).toList ++
    [("status", .str (protocolValue t.status)), ("exit_code", Json.nullable Json.int t.exitCode),
      ("truncated", .bool t.truncated),
      ("original_size_bytes", Json.nullable jsonNat t.originalSizeBytes)])

/-- `_task_entry`. -/
def ofRecord (task : TaskRecord) : TaskEntry where
  taskId := task.taskId
  cmd := some task.cmd
  status := task.status
  exitCode := task.exitCode
  truncated := task.truncated
  originalSizeBytes := task.originalSizeBytes

def withoutCmd (t : TaskEntry) : TaskEntry := { t with cmd := none }

end TaskEntry

/-- `PlanState(text.upper())`. -/
def readPlanState (text : String) : Option PlanState :=
  [PlanState.pending, .running, .completed, .stoppedOnFailure, .shortCircuitedOnSuccess,
    .interrupted, .failed].find? fun s => StrEnum.value s = String.ofList (text.toList.map Char.toUpper)

theorem readPlanState_protocolValue (s : PlanState) : readPlanState (protocolValue s) = some s := by
  cases s <;> decide

namespace LedgerEntry

def toJson (e : LedgerEntry) : Json :=
  .obj [("plan_id", .str e.planId), ("plan_type", .str (StrEnum.value e.planType)),
    ("objective", .str e.objective), ("status", .str (protocolValue e.status)),
    ("stop_reason", Json.nullable Json.str e.stopReason),
    ("tasks", .arr (e.tasks.map TaskEntry.toJson))]

/-- `_is_terminal_entry`: the state is read off the spelling in the ledger. -/
def isTerminal (e : LedgerEntry) : Bool :=
  (readPlanState (protocolValue e.status)).elim false PlanState.terminal

theorem isTerminal_eq (e : LedgerEntry) : e.isTerminal = e.status.terminal := by
  unfold isTerminal
  rw [readPlanState_protocolValue]
  rfl

def withoutCommands (e : LedgerEntry) : LedgerEntry :=
  { e with tasks := e.tasks.map TaskEntry.withoutCmd }

end LedgerEntry

/-! ## The payload and its reductions -/

structure SummaryPayload where
  goal : String
  userMessage : String
  /-- The sections of the model's state summary, in order. -/
  stateSections : List (String × Json)
  planLedger : List LedgerEntry
  /-- Left out once it is dropped. -/
  pendingOutputs : Option (List ContextReducer.PendingOutput)
  budget : Json
  pendingMessageType : MessageType
  originalConversationId : String

namespace SummaryPayload

def pendingOutputJson (p : ContextReducer.PendingOutput) : Json :=
  .obj [("task_id", .str p.taskId), ("stream", .str (StrEnum.value p.stream)),
    ("total_bytes", jsonNat p.totalBytes)]

def toJson (p : SummaryPayload) : Json :=
  .obj (([("goal", .str p.goal), ("user_message", .str p.userMessage)] ++ p.stateSections) ++
    ("plan_ledger", .arr (p.planLedger.map LedgerEntry.toJson)) ::
    ((p.pendingOutputs.map fun outputs =>
        ("pending_outputs", Json.arr (outputs.map pendingOutputJson))).toList ++
      [("budget", p.budget), ("pending_message_type", .str (StrEnum.value p.pendingMessageType)),
        ("original_conversation_id", .str p.originalConversationId)]))

/-- `size_bytes`. -/
def sizeBytes (p : SummaryPayload) : Nat := p.toJson.sizeBytes

/-- Step (a): no command in the ledger. -/
def withoutCommands (p : SummaryPayload) : SummaryPayload :=
  { p with planLedger := p.planLedger.map LedgerEntry.withoutCommands }

/-- The entries of a ledger that are open, and the last of those that are terminal. -/
def openAndLast : List LedgerEntry → List LedgerEntry
  | [] => []
  | e :: rest =>
    if e.isTerminal && rest.any LedgerEntry.isTerminal then openAndLast rest
    else e :: openAndLast rest

/-- Step (b): the open plans and the last terminal one, in their original order. -/
def openPlansAndLastTerminal (p : SummaryPayload) : SummaryPayload :=
  { p with planLedger := openAndLast p.planLedger }

/-- Step (c): no pending outputs. -/
def withoutPendingOutputs (p : SummaryPayload) : SummaryPayload := { p with pendingOutputs := none }

end SummaryPayload

/-- `REDUCTION_STEPS`. -/
def reductionSteps : List (SummaryPayload → SummaryPayload) :=
  [SummaryPayload.withoutCommands, SummaryPayload.openPlansAndLastTerminal,
    SummaryPayload.withoutPendingOutputs]

/-! ## Composing -/

namespace ContextReducer

/-- The loop of `compose`: the steps left, the number of the next, the payload and the number of the
last step applied. -/
def reduceWithin (budget : Nat) :
    List (SummaryPayload → SummaryPayload) → (index : Nat) → SummaryPayload → (step : Nat) →
      SummaryPayload × Nat
  | [], _, payload, step => (payload, step)
  | reduce :: steps, index, payload, step =>
    if payload.sizeBytes ≤ budget then (payload, step)
    else reduceWithin budget steps (index + 1) (reduce payload) index

/-- What becomes of an assembled payload: a draft, or the error of a summary that does not fit. -/
def fitSummary (budget : Nat) (payload : SummaryPayload) : Except Exc SummaryDraft :=
  let reached := reduceWithin budget reductionSteps 1 payload 0
  if budget < reached.1.sizeBytes then
    .error (.rotationFailed (rotationFailedError "SUMMARY_EXCEEDS_BUDGET"
      [("size_bytes", jsonNat reached.1.sizeBytes), ("budget_bytes", jsonNat budget),
        ("step", jsonNat reached.2)]))
  else
    .ok { payload := reached.1.toJson, sizeBytes := reached.1.sizeBytes, reductionStep := reached.2 }

/-- `STATE_SUMMARY_SECTIONS`. -/
def stateSummarySections : List String :=
  ["environment", "findings", "current_state", "next_expected_step"]

/-- `_last_state_summary`: the newest one, the plans being listed oldest first. -/
def lastStateSummary (plans : List PlanRecord) : Option Json :=
  plans.reverse.findSome? PlanRecord.stateSummary

/-- The sections of a state summary that carry a value. -/
def sectionsOf (summary : Json) : List (String × Json) :=
  stateSummarySections.filterMap fun key =>
    match summary.field key with
    | none => none
    | some .null => none
    | some value => some (key, value)

/-- `_ledger_entry`. -/
def ledgerEntry (σ : Store) (plan : PlanRecord) : LedgerEntry where
  planId := plan.planId
  planType := plan.planType
  objective := plan.objective
  status := plan.status
  stopReason := plan.stopReason
  tasks := (σ.listTasks plan.sessionId plan.planId).map TaskEntry.ofRecord

def budgetJson (session : SessionRecord) (consumedDurationMs : Int) : Json :=
  .obj [("max_cycles", jsonNat session.budget.maxCycles), ("max_plans", jsonNat session.budget.maxPlans),
    ("max_total_duration_ms", jsonNat session.budget.maxTotalDurationMs),
    ("consumed_cycles", jsonNat session.consumedCycles),
    ("consumed_plans", jsonNat session.consumedPlans),
    ("consumed_duration_ms", .int consumedDurationMs)]

/-- `_assemble`, the duration being read. -/
def assemble (σ : Store) (session : SessionRecord) (source : ConversationRecord)
    (pendingType : MessageType) (consumedDurationMs : Int) : SummaryPayload where
  goal := session.goal
  userMessage := session.userMessage
  stateSections := (lastStateSummary (σ.listPlans session.sessionId)).elim [] sectionsOf
  planLedger := (σ.listPlans session.sessionId).map (ledgerEntry σ)
  pendingOutputs := some (pendingOutputs σ session.sessionId)
  budget := budgetJson session consumedDurationMs
  pendingMessageType := pendingType
  originalConversationId := source.remoteId

/-- The duration in `_budget`, of a session that runs until now or until its end. -/
def consumedDurationMs (session : SessionRecord) : Prog App Int :=
  match session.startedAt with
  | none => return 0
  | some startedAt =>
    match session.endedAt with
    | some endedAt => return max 0 ((endedAt - startedAt) / 1000)
    | none => do
      let stop ← now
      return max 0 ((stop - startedAt) / 1000)

/-- `compose`. -/
def compose (budget : Nat) (session : SessionRecord) (source : ConversationRecord)
    (pendingType : MessageType) : Prog App SummaryDraft := do
  let σ ← readStore
  let consumed ← consumedDurationMs session
  .ofExcept (fitSummary budget (assemble σ session source pendingType consumed))

end ContextReducer

/-! ## What a step does to the size -/

namespace SummaryPayload

/-- The terminal entry that comes last. -/
def lastTerminal (ledger : List LedgerEntry) : Option LedgerEntry :=
  ledger.reverse.find? LedgerEntry.isTerminal

/-- Two entries that say the same of one plan, but that the second one may say no commands. -/
def SamePlan (e e' : LedgerEntry) : Prop := e' = e ∨ e' = e.withoutCommands

/-- Every open plan of the first ledger, and its last terminal plan, is in the second one, the
latter is the last terminal plan there, and there is nothing new in it. -/
structure Keeps (before after : List LedgerEntry) : Prop where
  opened : ∀ e ∈ before, e.isTerminal = false → ∃ e' ∈ after, SamePlan e e'
  last : ∀ e, lastTerminal before = some e → ∃ e', lastTerminal after = some e' ∧ SamePlan e e'
  only : ∀ e' ∈ after, ∃ e ∈ before, SamePlan e e'

theorem withoutCommands_withoutCommands (e : LedgerEntry) :
    e.withoutCommands.withoutCommands = e.withoutCommands := by
  unfold LedgerEntry.withoutCommands
  dsimp only
  rw [List.map_map]
  rfl

theorem SamePlan.isTerminal {e e' : LedgerEntry} (h : SamePlan e e') :
    e'.isTerminal = e.isTerminal := by
  rw [LedgerEntry.isTerminal_eq, LedgerEntry.isTerminal_eq]
  obtain rfl | rfl := h <;> rfl

theorem SamePlan.trans {a b c : LedgerEntry} (hab : SamePlan a b) (hbc : SamePlan b c) :
    SamePlan a c := by
  obtain rfl | rfl := hbc
  · exact hab
  · obtain rfl | rfl := hab
    · exact .inr rfl
    · exact .inr (withoutCommands_withoutCommands a)

theorem Keeps.refl (ledger : List LedgerEntry) : Keeps ledger ledger where
  opened e he _ := ⟨e, he, .inl rfl⟩
  last e he := ⟨e, he, .inl rfl⟩
  only e he := ⟨e, he, .inl rfl⟩

theorem Keeps.trans {a b c : List LedgerEntry} (hab : Keeps a b) (hbc : Keeps b c) : Keeps a c where
  opened e he hopen := by
    obtain ⟨e', he', hsame⟩ := hab.opened e he hopen
    obtain ⟨e'', he'', hsame'⟩ := hbc.opened e' he' (hsame.isTerminal.trans hopen)
    exact ⟨e'', he'', hsame.trans hsame'⟩
  last e he := by
    obtain ⟨e', he', hsame⟩ := hab.last e he
    obtain ⟨e'', he'', hsame'⟩ := hbc.last e' he'
    exact ⟨e'', he'', hsame.trans hsame'⟩
  only e'' he'' := by
    obtain ⟨e', he', hsame'⟩ := hbc.only e'' he''
    obtain ⟨e, he, hsame⟩ := hab.only e' he'
    exact ⟨e, he, hsame.trans hsame'⟩

/-- The payload after so many of the steps. -/
def reduced (p : SummaryPayload) (k : Nat) : SummaryPayload :=
  (reductionSteps.take k).foldl (fun p reduce => reduce p) p

end SummaryPayload

/-! ## The ledger and the stored plans -/

/-- The entry tells of the stored plan: what the plan says of itself, and of each of its tasks what
the task says, the commands perhaps left out. -/
structure LedgerEntry.Tells (σ : Store) (plan : PlanRecord) (e : LedgerEntry) : Prop where
  planId : e.planId = plan.planId
  planType : e.planType = plan.planType
  objective : e.objective = plan.objective
  status : e.status = plan.status
  stopReason : e.stopReason = plan.stopReason
  tasks : List.Forall₂ (fun (t : TaskRecord) (entry : TaskEntry) => entry.taskId = t.taskId ∧
      (entry.cmd = some t.cmd ∨ entry.cmd = none) ∧ entry.status = t.status ∧
      entry.exitCode = t.exitCode ∧ entry.truncated = t.truncated ∧
      entry.originalSizeBytes = t.originalSizeBytes)
    (σ.listTasks plan.sessionId plan.planId) e.tasks

namespace ContextReducer

/-- What a summary is owed: the smallest step whose result fits, or the error when none does. -/
structure Reduced (budget : Nat) (p : SummaryPayload) (r : Except Exc SummaryDraft) : Prop where
  ok : ∀ draft, r = .ok draft →
    draft.reductionStep ≤ 3 ∧ draft.payload = (p.reduced draft.reductionStep).toJson ∧
      draft.sizeBytes = draft.payload.sizeBytes ∧ draft.payload.sizeBytes ≤ budget ∧
      ∀ k < draft.reductionStep, budget < (p.reduced k).sizeBytes
  error : ∀ e, r = .error e →
    (∀ k ≤ 3, budget < (p.reduced k).sizeBytes) ∧
      e = .rotationFailed (rotationFailedError "SUMMARY_EXCEEDS_BUDGET"
        [("size_bytes", jsonNat (p.reduced 3).sizeBytes), ("budget_bytes", jsonNat budget),
          ("step", jsonNat 3)])

open Prog

end ContextReducer

end AgenticLocalApp
