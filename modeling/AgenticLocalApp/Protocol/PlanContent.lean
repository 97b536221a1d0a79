import AgenticLocalApp.Execution.PlanRunner
import AgenticLocalApp.Library.CycleSearch

/-!
# Plans of the model

The content of a plan message, the structural rules a plan must satisfy beyond its schema, and the
records that an accepted plan becomes.
-/

namespace AgenticLocalApp

/-- A task as sent by the model.  A command task has a command that is not blank and no chunk
field; a chunk request has its chunk fields and no command. -/
structure TaskMessage where
  taskId : String
  type : TaskType := .cmd
  cmd : Option String := none
  critical : Option Bool := none
  continueOnError : Option Bool := none
  stopPlanOnFailure : Option Bool := none
  stopPlanOnSuccess : Option Bool := none
  dependsOn : List String := []
  resourceLock : Option String := none
  maxOutputBytes : Option Int := none
  timeoutMs : Option Int := none
  refTaskId : Option String := none
  stream : Option OutputStream := none
  byteOffset : Option Int := none
  maxBytes : Option Int := none
  taskId_ne : taskId ≠ ""
  maxOutputBytes_pos : ∀ n ∈ maxOutputBytes, 0 < n
  timeoutMs_pos : ∀ n ∈ timeoutMs, 0 < n
  byteOffset_nonneg : ∀ n ∈ byteOffset, 0 ≤ n
  maxBytes_pos : ∀ n ∈ maxBytes, 0 < n
  cmd_shape : type = .cmd → (∃ text ∈ cmd, isBlank text = false) ∧
    refTaskId = none ∧ byteOffset = none ∧ maxBytes = none
  chunk_shape : type = .chunkRequest → cmd = none ∧ (∃ ref ∈ refTaskId, ref ≠ "") ∧
    byteOffset.isSome ∧ maxBytes.isSome

/-- The content of a plan message; the state summary is kept as the JSON it is dumped to. -/
structure PlanContent where
  planId : String
  objective : String
  executionPolicy : ExecutionPolicy
  maxParallelWorkers : Option Int := none
  defaultMaxOutputBytes : Option Int := none
  defaultContinueOnError : Option Bool := none
  stateSummary : Option Json := none
  tasks : List TaskMessage
  planId_ne : planId ≠ ""
  maxParallelWorkers_pos : ∀ n ∈ maxParallelWorkers, 1 ≤ n
  defaultMaxOutputBytes_pos : ∀ n ∈ defaultMaxOutputBytes, 0 < n
  tasks_ne : tasks ≠ []

/-- What the adapter reads of the configuration. -/
structure AdapterConfig where
  payload : PayloadConfig
  execution : ExecutionConfig
  maxStateSummaryBytes : Nat
  allowDirectResponse : Bool

/-- A `ProtocolError`. -/
def protocolError (code : String) (details : List (String × Json)) : Exc :=
  .protocol (mkError .modelProtocolError code "ProtocolAdapter" details .high false false)

/-- `_resolve_continue_on_error`. -/
def resolveContinueOnError (declared planDefault : Option Bool) : Bool :=
  (declared.or planDefault).getD false

namespace PlanContent

variable (plan : PlanContent)

def order : List String := plan.tasks.map TaskMessage.taskId

/-- The dependencies declared for a task. -/
def deps (taskId : String) : List String :=
  ((plan.tasks.find? fun t => t.taskId = taskId).map TaskMessage.dependsOn).getD []

/-! ## The rules of a plan -/

/-- No identifier is used twice, in the plan or in the session. -/
def checkTaskIds (knownTaskIds : List String) : (seen : List String) → List TaskMessage →
    Except Exc Unit
  | _, [] => .ok ()
  | seen, task :: rest =>
    if task.taskId ∈ seen then
      .error (protocolError "DUPLICATE_TASK_ID" [("task_id", .str task.taskId),
        ("plan_id", .str plan.planId), ("scope", .str "plan")])
    else if task.taskId ∈ knownTaskIds then
      .error (protocolError "DUPLICATE_TASK_ID" [("task_id", .str task.taskId),
        ("plan_id", .str plan.planId), ("scope", .str "session")])
    else checkTaskIds knownTaskIds (seen ++ [task.taskId]) rest

/-- A task depends on other tasks of the plan only, and a chunk is asked of a stored output. -/
def checkReferences (storedOutputTaskIds : List String) (task : TaskMessage) : Except Exc Unit := do
  task.dependsOn.forM fun dependency => do
    if dependency = task.taskId then
      throw (protocolError "SELF_DEPENDENCY" [("task_id", .str task.taskId),
        ("plan_id", .str plan.planId)])
    if dependency ∉ plan.order then
      throw (protocolError "UNKNOWN_DEPENDENCY" [("task_id", .str task.taskId),
        ("dependency", .str dependency), ("plan_id", .str plan.planId)])
  if task.type = .chunkRequest ∧ ∀ ref ∈ task.refTaskId, ref ∉ storedOutputTaskIds then
    throw (protocolError "CHUNK_REF_UNKNOWN" [("task_id", .str task.taskId),
      ("ref_task_id", (task.refTaskId.map Json.str).getD .null), ("plan_id", .str plan.planId)])

/-- No task depends on itself through others. -/
def checkCycles : Except Exc Unit :=
  match CycleSearch.search plan.order plan.deps with
  | .ok _ => .ok ()
  | .error (.cycle path) =>
    .error (protocolError "DEPENDENCY_CYCLE" [("cycle", .arr (path.map Json.str)),
      ("plan_id", .str plan.planId)])
  | .error (.missing x) => .error (.keyError x)

/-- A sequential plan declares what a task depends on before the task. -/
def checkForward : Except Exc Unit :=
  if plan.executionPolicy = .sequential then
    plan.tasks.forM fun task => task.dependsOn.forM fun dependency =>
      if plan.order.idxOf task.taskId < plan.order.idxOf dependency then
        throw (protocolError "FORWARD_DEPENDENCY_IN_SEQUENTIAL" [("task_id", .str task.taskId),
          ("dependency", .str dependency), ("plan_id", .str plan.planId),
          ("execution_policy", .str "sequential")])
      else return ()
  else return ()

/-- The state summary has its own bound. -/
def checkSummary (config : AdapterConfig) : Except Exc Unit :=
  match plan.stateSummary with
  | none => return ()
  | some summary =>
    if config.maxStateSummaryBytes < summary.sizeBytes then
      throw (protocolError "STATE_SUMMARY_TOO_LARGE" [("size_bytes", .int summary.sizeBytes),
        ("max_bytes", .int config.maxStateSummaryBytes), ("plan_id", .str plan.planId)])
    else return ()

/-- What an accepted plan is warned about. -/
def warnings : List String :=
  (if plan.executionPolicy = .parallel ∧ plan.maxParallelWorkers = none then
    ["DEFAULT_WORKERS_APPLIED"] else []) ++
  (if plan.executionPolicy = .sequential ∧ ∃ n ∈ plan.maxParallelWorkers, n ≠ 1 then
    ["WORKERS_IGNORED_IN_SEQUENTIAL"] else []) ++
  plan.tasks.filterMap fun task =>
    if task.critical = some true ∧
        resolveContinueOnError task.continueOnError plan.defaultContinueOnError then
      some s!"CONTRADICTORY_FLAGS:{task.taskId}"
    else none

end PlanContent

/-- `_validate_plan`: the warnings of a plan that breaks no rule. -/
def validatePlan (config : AdapterConfig) (plan : PlanContent)
    (knownPlanIds knownTaskIds storedOutputTaskIds : List String) : Except Exc (List String) := do
  if plan.planId ∈ knownPlanIds then
    throw (protocolError "DUPLICATE_PLAN_ID" [("plan_id", .str plan.planId)])
  plan.checkTaskIds knownTaskIds [] plan.tasks
  plan.tasks.forM (plan.checkReferences storedOutputTaskIds)
  plan.checkCycles
  plan.checkForward
  plan.checkSummary config
  return plan.warnings

/-! ## The records of a plan -/

/-- The record of the plan, pending. -/
def planRecord (plan : PlanContent) (planType : PlanType) (sessionId conversationId cycleId : String)
    (now : Instant) : PlanRecord where
  planId := plan.planId
  sessionId := sessionId
  conversationId := conversationId
  cycleId := cycleId
  planType := planType
  objective := plan.objective
  executionPolicy := plan.executionPolicy
  maxParallelWorkers :=
    if plan.executionPolicy = .parallel then plan.maxParallelWorkers.getD 1 else 1
  status := .pending
  taskCount := plan.tasks.length
  defaultMaxOutputBytes := plan.defaultMaxOutputBytes
  stateSummary := plan.stateSummary
  createdAt := now
  updatedAt := now

/-- How much a chunk request may read. -/
def TaskMessage.chunkBytes (config : AdapterConfig) (task : TaskMessage) : Int :=
  let hard : Int := config.payload.hardMaxOutputBytes
  let declared := min (task.maxBytes.getD hard) hard
  match task.maxOutputBytes with
  | some bytes => min declared bytes
  | none => declared

/-- `_task_record`: the record of a task, pending. -/
def taskRecord (config : AdapterConfig) (task : TaskMessage) (index : Nat) (plan : PlanRecord)
    (now : Instant) (defaultContinueOnError : Option Bool) : TaskRecord :=
  let critical := task.critical.getD false
  let continueOnError := resolveContinueOnError task.continueOnError defaultContinueOnError
  let stopPlanOnFailure := task.stopPlanOnFailure.getD false
  let chunk : Bool := task.type = .chunkRequest
  { taskId := task.taskId
    planId := plan.planId
    sessionId := plan.sessionId
    conversationId := plan.conversationId
    orderIndex := index
    type := task.type
    cmd := task.cmd
    status := .pending
    critical := critical
    continueOnError := continueOnError
    stopPlanOnFailure := stopPlanOnFailure
    stopPlanOnSuccess := task.stopPlanOnSuccess.getD false
    stopsPlanOnFailure := critical || stopPlanOnFailure || !continueOnError
    dependsOn := task.dependsOn
    resourceLock := task.resourceLock
    maxOutputBytes := task.maxOutputBytes
    maxOutputBytesApplied := some <|
      if chunk then task.chunkBytes config
      else PayloadGuard.effectiveBudget config.payload task.maxOutputBytes plan.defaultMaxOutputBytes
    timeoutMs := task.timeoutMs
    timeoutMsApplied :=
      if chunk then none
      else some (min (task.timeoutMs.getD config.execution.defaultTaskTimeoutMs)
        config.execution.maxTaskTimeoutMs)
    refTaskId := task.refTaskId
    stream := if chunk then some (task.stream.getD .stdout) else none
    byteOffset := task.byteOffset
    maxBytes := if chunk then some (task.chunkBytes config) else none
    createdAt := now
    updatedAt := now }

/-- `plan_to_records`. -/
def planToRecords (config : AdapterConfig) (plan : PlanContent) (planType : PlanType)
    (sessionId conversationId cycleId : String) (now : Instant) : PlanRecord × List TaskRecord :=
  let record := planRecord plan planType sessionId conversationId cycleId now
  (record, plan.tasks.zipIdx.map fun t =>
    taskRecord config t.1 t.2 record now plan.defaultContinueOnError)

/-- A configuration with its default bounds. -/
def AdapterConfig.sample : AdapterConfig where
  payload := ⟨8192, 131072, 196608, by decide, by decide, by decide⟩
  execution := ⟨60000, 900000, 5000, 5000⟩
  maxStateSummaryBytes := 4096
  allowDirectResponse := true

end AgenticLocalApp
