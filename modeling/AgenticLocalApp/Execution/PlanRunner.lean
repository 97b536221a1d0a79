import AgenticLocalApp.Execution.ResultCollector
import AgenticLocalApp.Library.Kahn
import AgenticLocalApp.Resilience.FailureRecords

/-!
# The plan runner

One plan, executed exactly as received: the graph is checked, ready tasks are launched up to the
number of workers, and every end of a task is persisted before anything follows from it.  The loop
is left by a plan that ran out of tasks, by a stop condition, by the session deadline or by an
interruption.
-/

namespace AgenticLocalApp

/-- The execution section of the configuration. -/
structure ExecutionConfig where
  defaultTaskTimeoutMs : Nat
  maxTaskTimeoutMs : Nat
  cancelDrainTimeoutMs : Nat
  interruptDrainTimeoutMs : Nat

/-- Why a task has no environment: its working space has no usable name (`ValueError`), or cannot be
made (`OSError`). -/
inductive ScratchFailure where
  | unnamed (message : String)
  | unmade

def ScratchFailure.exc : ScratchFailure → Exc
  | .unnamed message => .valueError message
  | .unmade => .runtimeError "OSError"

structure PlanRunner where
  execution : ExecutionConfig
  payload : PayloadConfig
  verdictPrograms : VerdictPrograms
  translator : ShellTranslator
  /-- What `scratch.environment` comes to when the worker of the task asks for it. -/
  environment : (taskId : String) → Except ScratchFailure Unit
  resultCollector : ResultCollector
  /-- A failure manager was given. -/
  recordsFailures : Bool
  /-- The rounds after which the fitting of a message is left as endless; the source never does. -/
  fitRounds : Nat

/-- What `run` returns. -/
structure PlanOutcome where
  plan : PlanRecord
  tasks : List TaskRecord
  executionResult : Option ExecutionResultContent
  interrupted : Bool
  budgetExceeded : Bool
  stopReason : Option String

/-- The memory of one run. -/
structure PlanExecution where
  plan : PlanRecord
  session : SessionRecord
  /-- The current records, in declaration order. -/
  tasks : List TaskRecord
  running : List String := []
  startedMonotonic : String → Int := fun _ => 0
  heldLocks : List String := []
  outputs : Outputs TruncatedOutput := fun _ => none
  chunks : Outputs ChunkResult := fun _ => none
  stopReason : Option String := none
  interrupting : Bool := false
  budgetExceeded : Bool := false

def PlanRecord.sequential (plan : PlanRecord) : Bool := plan.executionPolicy = .sequential

/-- How many tasks run at a time. -/
def PlanRecord.workers (plan : PlanRecord) : Nat :=
  if plan.sequential then 1 else (max 1 plan.maxParallelWorkers).toNat

/-- The language of a plan run. -/
abbrev Run : Lang := App.withLocal PlanExecution

def interruptReason : String := "user_interrupt"
def planStoppedReason : String := "plan_stopped"
def budgetExceededReason : String := "budget_exceeded"
def budgetDurationStopReason : String := "budget_exceeded:max_total_duration_ms"
def spawnFailedReason : String := "SPAWN_FAILED"

def schedulableStates : List TaskState := [.pending, .waitingDependency]

/-- One task transition to persist. -/
structure Change where
  target : TaskState
  reason : Option String := none
  fields : TaskRecord → TaskRecord := id
  endedAt : Option Instant := none

/-- What a worker comes back with. -/
inductive Ended where
  | raw (execution : RawExecution)
  | chunk (served : Except ChunkError ChunkResult)
  | error (error : NormalizedError)
  /-- The worker was ended by force. -/
  | forced

namespace PlanExecution

/-- The memory at the start. -/
def create (plan : PlanRecord) (tasks : List TaskRecord) (session : SessionRecord) :
    PlanExecution where
  plan := plan
  session := session
  tasks := tasks.insertionSort fun a b => a.orderIndex ≤ b.orderIndex

def get : Prog Run PlanExecution := do return (← Prog.read).2

def modify (f : PlanExecution → PlanExecution) : Prog Run Unit := .update fun s => (s.1, f s.2)

section Reading

variable (mem : PlanExecution)

def order : List String := mem.tasks.map TaskRecord.taskId

def task? (taskId : String) : Option TaskRecord := mem.tasks.find? fun t => t.taskId = taskId

def dependenciesCompleted (task : TaskRecord) : Bool :=
  task.dependsOn.all fun d => (mem.task? d).map TaskRecord.status = some .completed

end Reading

/-! ## Before the first write -/

def listText (items : List String) : String :=
  "[" ++ ", ".intercalate (items.map fun s => "'" ++ s ++ "'") ++ "]"

/-- `_validate_dependencies`. -/
def validateDependencies (mem : PlanExecution) : Except Exc Unit := do
  mem.tasks.forM fun task => task.dependsOn.forM fun d => do
    if d ∉ mem.order then
      throw (.valueError s!"task {task.taskId} depends on unknown task {d} (plan {mem.plan.planId})")
    if mem.plan.sequential ∧ mem.order.idxOf task.taskId ≤ mem.order.idxOf d then
      throw (.valueError (s!"task {task.taskId} depends on {d}, which does not precede it in " ++
        s!"sequential plan {mem.plan.planId}"))
  let scheduled := Kahn.order (mem.tasks.map fun t => (t.taskId, t.dependsOn))
  if scheduled.1.length ≠ mem.tasks.length then
    let stuck := (scheduled.2.filter fun r => r.2 ≠ []).map Prod.fst
    throw (.valueError s!"plan {mem.plan.planId}: dependency cycle among tasks {listText stuck}")

/-- `_validate`. -/
def validate (mem : PlanExecution) : Except Exc Unit := do
  assertTransition planTransitions mem.plan.status .running planEntity
  if ¬ mem.order.Nodup then
    throw (.valueError s!"plan {mem.plan.planId}: duplicate task identifiers")
  mem.tasks.forM fun task => do
    if task.planId ≠ mem.plan.planId then
      throw (.valueError
        s!"task {task.taskId} belongs to plan {task.planId}, not {mem.plan.planId}")
    assertTransition taskTransitions task.status .running taskEntity
  mem.validateDependencies

end PlanExecution

open PlanExecution (get modify)

/-! ## Persistence -/

/-- The record of a task after one transition. -/
def Change.applied (change : Change) (now : Instant) (task : TaskRecord) : TaskRecord :=
  let fields := change.fields task
  { fields with
    status := change.target
    reason := change.reason.or fields.reason
    endedAt := if change.target.terminal then some (change.endedAt.getD now) else fields.endedAt
    updatedAt := now }

/-- The change that each task is to undergo, if any. -/
abbrev Changes := TaskRecord → Option Change

def Changes.applied (changes : Changes) (now : Instant) (task : TaskRecord) : TaskRecord :=
  match changes task with
  | some change => change.applied now task
  | none => task

/-- The records that change. -/
def Changes.records (changes : Changes) (now : Instant) (tasks : List TaskRecord) : List TaskRecord :=
  tasks.filterMap fun t => (changes t).map fun change => change.applied now t

/-- Every change is one that the table allows. -/
def Changes.check (changes : Changes) (tasks : List TaskRecord) : Except Exc Unit :=
  tasks.forM fun t =>
    match changes t with
    | some change => assertTransition taskTransitions t.status change.target taskEntity
    | none => .ok ()

/-- `_apply_changes`: everything is checked, then written in one transaction. -/
def applyChanges (changes : Changes) (blobs : List BlobRecord := []) : Prog Run Unit := do
  let now ← now
  let mem ← get
  .ofExcept (changes.check mem.tasks)
  .update fun s =>
    ({ s.1 with store := (s.1.store.saveBlobs blobs).saveTasks (changes.records now s.2.tasks) },
     { s.2 with tasks := s.2.tasks.map (changes.applied now) })

/-- The record of a plan after a transition. -/
def PlanRecord.moveTo (plan : PlanRecord) (tasks : List TaskRecord) (target : PlanState)
    (stopReason : Option String) (now : Instant) : PlanRecord :=
  let moved := { plan.withCounters (tasks.map TaskRecord.status) with status := target, updatedAt := now }
  if target = .running then { moved with startedAt := some now }
  else if target.terminal then { moved with endedAt := some now, stopReason := stopReason }
  else moved

/-- `_transition_plan`. -/
def transitionPlan (target : PlanState) (stopReason : Option String := none) : Prog Run Unit := do
  let mem ← get
  .ofExcept (assertTransition planTransitions mem.plan.status target planEntity)
  let now ← now
  .update fun s =>
    let plan := s.2.plan.moveTo s.2.tasks target stopReason now
    ({ s.1 with store := s.1.store.savePlan plan }, { s.2 with plan := plan })

/-- `_persist_pid`: the process of a task, written as soon as there is one. -/
def persistPid (spawned : Spawned) : Prog Run Unit := do
  let mem ← get
  match mem.task? spawned.taskId with
  | none => throw (.keyError spawned.taskId)
  | some task =>
    let now ← now
    let record :=
      { task with pid := some spawned.pid, processGroupId := spawned.processGroupId, updatedAt := now }
    .update fun s =>
      ({ s.1 with store := s.1.store.saveTask record },
       { s.2 with tasks := s.2.tasks.map fun t => if t.taskId = spawned.taskId then record else t })

/-! ## Launching -/

/-- A task can be launched, `locks` being those of the tasks picked before it. -/
def launchable (mem : PlanExecution) (locks : List String) (task : TaskRecord) : Bool :=
  task.status = .pending && mem.dependenciesCompleted task &&
    match task.resourceLock with
    | none => true
    | some lock => lock ∉ mem.heldLocks && lock ∉ locks

/-- The tasks to launch among `tasks`, no more than `slots`. -/
def pick (mem : PlanExecution) : (slots : Nat) → (locks : List String) → List TaskRecord → List String
  | 0, _, _ => []
  | _ + 1, _, [] => []
  | slots + 1, locks, task :: rest =>
    if task.status.terminal then pick mem (slots + 1) locks rest
    else if launchable mem locks task then
      task.taskId :: pick mem slots (task.resourceLock.toList ++ locks) rest
    else if mem.plan.sequential then []
    else pick mem (slots + 1) locks rest

/-- `_ready`. -/
def ready (mem : PlanExecution) : List String :=
  pick mem (mem.plan.workers - mem.running.length) [] mem.tasks

/-- `_decide_translation`: what the dialect dictionary says of the command, which may be an
exception. -/
def decideTranslation (translator : ShellTranslator) (task : TaskRecord) :
    Except Exc (Option CommandTranslation) :=
  match task.type with
  | .chunkRequest => .ok none
  | .cmd => (translator.translate task.cmd).mapError Exc.valueError

/-- `_launch`. -/
def launch (translator : ShellTranslator) (taskId : String) : Prog Run Unit := do
  let mem ← get
  match mem.task? taskId with
  | none => throw (.keyError taskId)
  | some task =>
    modify fun mem => { mem with heldLocks := task.resourceLock.toList ++ mem.heldLocks }
    let _ ← .ofExcept (decideTranslation translator task)
    let startedAt ← now
    applyChanges fun t =>
      if t.taskId = taskId then
        some { target := .running
               fields := fun t => { t with startedAt := some startedAt, attemptCount := 1 } }
      else none
    let monotonic ← monotonicMs
    modify fun mem =>
      { mem with
        startedMonotonic := fun id => if id = taskId then monotonic else mem.startedMonotonic id
        running := mem.running ++ [taskId] }

def openTasks (mem : PlanExecution) : List TaskRecord := mem.tasks.filter fun t => ¬ t.status.terminal

/-- `_launch_ready`. -/
def launchReady (translator : ShellTranslator) : Prog Run Unit := do
  let mem ← get
  forM (ready mem) (launch translator)
  let mem ← get
  if mem.running = [] ∧ openTasks mem ≠ [] then
    throw (.app (genericSystemError "PLAN_SCHEDULER_STALLED" "PlanRunner"
      [("plan_id", .str mem.plan.planId),
       ("tasks", .obj ((openTasks mem).map fun t => (t.taskId, .str (StrEnum.value t.status))))]))

/-! ## Workers -/

namespace PlanRunner

variable (r : PlanRunner)

def timeoutMs (task : TaskRecord) : Int :=
  task.timeoutMsApplied.getD
    (min (task.timeoutMs.getD r.execution.defaultTaskTimeoutMs) r.execution.maxTaskTimeoutMs)

def budget (plan : PlanRecord) (task : TaskRecord) : Int :=
  task.maxOutputBytesApplied.getD
    (PayloadGuard.effectiveBudget r.payload task.maxOutputBytes plan.defaultMaxOutputBytes)

/-- The command that runs: what the dialect dictionary made of the one that was declared. -/
def executedCmd (task : TaskRecord) : String :=
  match r.translator.translate task.cmd with
  | .ok (some decided) => decided.executed
  | _ => task.cmd.getD ""

/-- `_serve_chunk`. -/
def serveChunk (σ : Store) (plan : PlanRecord) (task : TaskRecord) : Except ChunkError ChunkResult :=
  PayloadGuard.serveChunk r.payload σ task.sessionId (task.refTaskId.getD "")
    (task.stream.getD .stdout) (task.byteOffset.getD 0) (task.maxBytes.getD (r.budget plan task))

/-- `_execute`: what the worker of a task comes back with, given how its command ended. -/
def execute (σ : Store) (plan : PlanRecord) (task : TaskRecord) (outcome : ExecutorOutcome) :
    Except Exc Ended :=
  match task.type with
  | .chunkRequest => .ok (.chunk (r.serveChunk σ plan task))
  | .cmd => do
    (r.environment task.taskId).mapError ScratchFailure.exc
    let _ ← CommandSpec.create task.taskId (r.executedCmd task) (r.timeoutMs task)
    match outcome with
    | .raw execution => return .raw execution
    | .taskExecutionError error => return .error error

/-- The workers that came back, in declaration order. -/
def finished (σ : Store) (mem : PlanExecution) (done : List (String × ExecutorOutcome)) :
    List (String × Except Exc Ended) :=
  mem.tasks.filterMap fun t =>
    (done.lookup t.taskId).map fun outcome => (t.taskId, r.execute σ mem.plan t outcome)

/-! ## The end of a task -/

/-- `_cancelled_state`. -/
def cancelledState (mem : PlanExecution) : TaskState × String :=
  if mem.interrupting then (.interrupted, interruptReason)
  else
    match mem.stopReason with
    | some stopReason => (.cancelled, s!"{planStoppedReason}:{stopReason}")
    | none => (.cancelled, planStoppedReason)

/-- `_raw_state`. -/
def rawState (mem : PlanExecution) (raw : RawExecution) : TaskState × Option String :=
  if raw.outcome = .cancelled then
    let state := cancelledState mem
    (state.1, some state.2)
  else if raw.outcome = .failed ∧ raw.spawnError.isSome then (.failed, some spawnFailedReason)
  else (raw.outcome, none)

/-- How a task ends, and what is written with it. -/
structure Ending where
  target : TaskState
  reason : Option String := none
  fields : TaskRecord → TaskRecord := id
  blobs : List BlobRecord := []
  failure : Option NormalizedError := none

def blob (task : TaskRecord) (now : Instant) (blobId : String) (stream : OutputStream)
    (content : List UInt8) : BlobRecord where
  blobId := blobId
  sessionId := task.sessionId
  taskId := task.taskId
  blobType := stream
  content := content
  sizeBytes := content.length
  createdAt := now

/-- `_output_fields`. -/
def outputFields (raw : RawExecution) (stdoutId stderrId : String) (truncated : TruncatedOutput)
    (task : TaskRecord) : TaskRecord :=
  { task with
    exitCode := raw.exitCode
    timedOut := raw.timedOut
    pid := raw.pid.or task.pid
    processGroupId := raw.processGroupId.or task.processGroupId
    stdoutRef := some stdoutId
    stderrRef := some stderrId
    truncated := truncated.truncated
    originalSizeBytes := some truncated.originalSizeBytes
    stdoutTotal := some truncated.stdoutTotal
    stderrTotal := some truncated.stderrTotal
    stdoutRange := some truncated.stdoutRange
    stderrRange := some truncated.stderrRange }

/-- `_spawn_failure`. -/
def spawnFailure (task : TaskRecord) (spawnError : String) : NormalizedError :=
  taskExecutionError spawnFailedReason
    [("task_id", .str task.taskId), ("cmd", task.cmd.elim .null Json.str), ("error", .str spawnError)]

/-- The end of a task whose command was executed. -/
def rawEnding (task : TaskRecord) (raw : RawExecution) (now : Instant) : Prog Run Ending := do
  let mem ← get
  let state := rawState mem raw
  let stdoutId ← newId .blob
  let stderrId ← newId .blob
  let truncated ← .ofExcept (PayloadGuard.apply raw.stdout raw.stderr (r.budget mem.plan task))
  modify fun mem =>
    { mem with outputs := fun id => if id = task.taskId then some truncated else mem.outputs id }
  return { target := state.1
           reason := state.2
           fields := outputFields raw stdoutId stderrId truncated
           blobs := [blob task now stdoutId .stdout raw.stdout, blob task now stderrId .stderr raw.stderr]
           failure := raw.spawnError.map (spawnFailure task) }

/-- How the task ends whose worker came back with `ended`. -/
def ending (task : TaskRecord) (now : Instant) : Ended → Prog Run Ending
  | .chunk (.ok chunk) => do
    modify fun mem =>
      { mem with chunks := fun id => if id = task.taskId then some chunk else mem.chunks id }
    return { target := .completed }
  | .chunk (.error e) => return { target := .failed, reason := some (StrEnum.value e.code) }
  | .raw raw => r.rawEnding task raw now
  | .error e => return { target := .failed, reason := some e.errorCode, failure := some e }
  | .forced => do
    let state := cancelledState (← get)
    return { target := state.1, reason := some state.2 }

/-- `_record_failure`. -/
def recordTaskFailure (task : TaskRecord) (failure : Option NormalizedError) : Prog Run Unit :=
  match failure with
  | some error =>
    if r.recordsFailures then do
      let _ ← recordFailure error
        { sessionId := task.sessionId, conversationId := some task.conversationId,
          planId := some task.planId, taskId := some task.taskId }
    else pure ()
  | none => pure ()

/-- `_release_dependants`. -/
def releaseDependants : Prog Run Unit := do
  let mem ← get
  applyChanges fun t =>
    if t.status = .waitingDependency ∧ mem.dependenciesCompleted t then some { target := .pending }
    else none

def dependencyLabel (state : TaskState) : String :=
  if state ∈ failedTaskStates then "dependency_failed" else "dependency_skipped"

/-- The tasks that wait for a task that is now over, and that are not yet skipped. -/
def dependants (tasks : List TaskRecord) (skipped : List (String × String)) (dependency : String) :
    List TaskRecord :=
  tasks.filter fun t =>
    t.taskId ∉ skipped.map Prod.fst ∧ t.status ∈ schedulableStates ∧ dependency ∈ t.dependsOn

/-- The tasks to skip and the reasons, in the order in which they are found; a task is found at
most once. -/
def skipped (tasks : List TaskRecord) : (fuel : Nat) → (found : List (String × String)) →
    (worklist : List (String × TaskState)) → List (String × String)
  | 0, found, _ => found
  | _ + 1, found, [] => found
  | fuel + 1, found, (dependency, state) :: rest =>
    let hit := dependants tasks found dependency
    let reason := s!"{dependencyLabel state}:{dependency}"
    skipped tasks fuel (found ++ hit.map fun t => (t.taskId, reason))
      (rest ++ hit.map fun t => (t.taskId, .skipped))

/-- `_skip_dependants`. -/
def skipDependants (rootId : String) (rootState : TaskState) : Prog Run Unit := do
  let mem ← get
  let found := skipped mem.tasks (mem.tasks.length + 1) [] [(rootId, rootState)]
  applyChanges fun t => (found.lookup t.taskId).map fun reason => { target := .skipped, reason := some reason }

/-- `_finish`. -/
def finish (taskId : String) (ended : Ended) (propagate : Bool) : Prog Run TaskState := do
  let mem ← get
  match mem.task? taskId with
  | none => throw (.keyError taskId)
  | some task =>
    let now ← now
    let monotonic ← monotonicMs
    let ending ← r.ending task now ended
    let duration := monotonic - mem.startedMonotonic taskId
    applyChanges (fun t =>
      if t.taskId = taskId then
        some { target := ending.target
               reason := ending.reason
               fields := fun t => { ending.fields t with durationMs := some duration }
               endedAt := some now }
      else none) ending.blobs
    modify fun mem =>
      { mem with heldLocks := mem.heldLocks.filter fun lock => task.resourceLock ≠ some lock }
    r.recordTaskFailure task ending.failure
    if propagate then
      if ending.target = .completed then releaseDependants else skipDependants taskId ending.target
    return ending.target

/-! ## Stop conditions and drains -/

/-- `_failure_is_verdict`. -/
def failureIsVerdict (task : TaskRecord) (state : TaskState) : Bool :=
  state = .failed && task.type = .cmd &&
    r.verdictPrograms.isVerdict task.cmd task.exitCode task.timedOut r.translator.target

/-- `_stop_condition`. -/
def stopCondition (task : TaskRecord) (state : TaskState) : Option (PlanState × String) :=
  if state = .completed ∧ task.stopPlanOnSuccess then
    some (.shortCircuitedOnSuccess, s!"stop_plan_on_success:{task.taskId}")
  else if state ∈ failedTaskStates ∧ task.stopsPlanOnFailure then
    if r.failureIsVerdict task state ∧ ¬ (task.critical ∨ task.stopPlanOnFailure) then none
    else
      let label :=
        if task.critical then "critical_task_failed"
        else if task.stopPlanOnFailure then "stop_plan_on_failure"
        else "task_failed"
      some (.stoppedOnFailure, s!"{label}:{task.taskId}")
  else none

/-- The worker is no longer among the running ones. -/
def pop (taskId : String) : Prog Run Unit :=
  modify fun mem => { mem with running := mem.running.filter fun id => id ≠ taskId }

/-- Record the ends of the drained tasks; a worker that did not come back was ended by force. -/
def finishDrained (σ : Store) (done : List (String × ExecutorOutcome)) (taskId : String) :
    Prog Run Unit := do
  let mem ← get
  pop taskId
  let ended ← .ofExcept
    (match done.lookup taskId, mem.task? taskId with
      | some outcome, some task => r.execute σ mem.plan task outcome
      | _, _ => .ok .forced)
  let _ ← r.finish taskId ended false

/-- `_drain`. -/
def drain (tokenReason : String) (timeoutMs : Nat) : Prog Run Unit := do
  let mem ← get
  if mem.running = [] then return
  let answer ← Prog.query (L := Run) (.drain tokenReason timeoutMs mem.running)
  forM answer.spawned persistPid
  let σ ← readStore
  forM (mem.order.filter fun id => id ∈ mem.running) (r.finishDrained σ answer.done)

/-- `_mark_remaining`. -/
def markRemaining (target : TaskState) (reason : String) : Prog Run Unit :=
  applyChanges fun t =>
    if t.status ∈ schedulableStates then some { target := target, reason := some reason } else none

/-! ## The loop -/

/-- The milliseconds from which on a `timedelta` overflows: it has less than 10^9 days. -/
def timedeltaLimitMs : Nat := 86400000000000000

/-- `_deadline_passed`. -/
def deadlinePassed : Prog Run Bool := do
  let mem ← get
  match mem.session.startedAt with
  | none => return false
  | some started =>
    if timedeltaLimitMs ≤ mem.session.budget.maxTotalDurationMs then
      throw (.runtimeError "OverflowError")
    let now ← now
    return decide ((mem.session.budget.maxTotalDurationMs : Int) * 1000 ≤ now - started)

/-- `_start_plan`. -/
def startPlan : Prog Run Unit := do
  transitionPlan .running
  let mem ← get
  if ¬ mem.plan.sequential then
    applyChanges fun t => if t.dependsOn ≠ [] then some { target := .waitingDependency } else none

/-- `_build_result`. -/
def buildResult : Prog Run ExecutionResultContent := do
  let mem ← get
  let content ← .ofExcept (r.resultCollector.build mem.plan mem.tasks mem.outputs mem.chunks)
  match PayloadGuard.fitMessage r.payload.maxMessageBytes r.fitRounds content with
  | some fitted => return fitted
  | none => .diverge

/-- `_outcome`. -/
def outcome (result : Option ExecutionResultContent) (interrupted : Bool := false)
    (budgetExceeded : Bool := false) : Prog Run PlanOutcome := do
  let mem ← get
  return { plan := mem.plan
           tasks := mem.tasks
           executionResult := result
           interrupted := interrupted
           budgetExceeded := budgetExceeded
           stopReason := mem.plan.stopReason }

/-- `_completed`. -/
def completed : Prog Run PlanOutcome := do
  let mem ← get
  if openTasks mem ≠ [] then
    throw (.app (genericSystemError "PLAN_TASKS_NOT_TERMINAL" "PlanRunner"
      [("plan_id", .str mem.plan.planId),
       ("tasks", .arr ((openTasks mem).map fun t => .str t.taskId))]))
  transitionPlan .completed
  outcome (some (← r.buildResult))

/-- `_stopped`. -/
def stopped (target : PlanState) (stopReason : String) : Prog Run PlanOutcome := do
  modify fun mem => { mem with stopReason := some stopReason }
  r.drain planStoppedReason r.execution.cancelDrainTimeoutMs
  markRemaining .skipped s!"{planStoppedReason}:{stopReason}"
  transitionPlan target (some stopReason)
  outcome (some (← r.buildResult))

/-- `_interrupted`. -/
def interrupted : Prog Run PlanOutcome := do
  modify fun mem => { mem with interrupting := true }
  r.drain interruptReason r.execution.interruptDrainTimeoutMs
  markRemaining .interrupted interruptReason
  transitionPlan .interrupted (some interruptReason)
  outcome none true

/-- `_budget_failed`. -/
def budgetFailed : Prog Run PlanOutcome := do
  markRemaining .skipped budgetExceededReason
  transitionPlan .failed (some budgetDurationStopReason)
  outcome (some (← r.buildResult)) false true

/-- The end of every worker that came back, up to the first stop condition. -/
def finishDone : List (String × Except Exc Ended) → Prog Run (Option (PlanState × String))
  | [] => return none
  | (taskId, result) :: rest => do
    pop taskId
    let ended ← .ofExcept result
    let exceeded := (← get).budgetExceeded
    let state ← r.finish taskId ended (¬ exceeded)
    if exceeded then finishDone rest
    else
      let mem ← get
      match (mem.task? taskId).bind fun task => r.stopCondition task state with
      | some stop => return some stop
      | none => finishDone rest

def isCancelled : Prog Run Bool := do return (← Prog.read).1.token.isCancelled

/-- The deadline is looked at, then tasks are launched unless it has passed. -/
def schedule (started : Bool) : Prog Run Unit := do
  if ¬ (← get).budgetExceeded then
    if ← deadlinePassed then modify fun mem => { mem with budgetExceeded := true }
    else
      if ¬ started then startPlan
      launchReady r.translator

/-- `_loop`, at most `fuel` times round. -/
def loop : (fuel : Nat) → (started : Bool) → Prog Run PlanOutcome
  | 0, _ => .diverge
  | fuel + 1, started => do
    if ← isCancelled then r.interrupted
    else
      r.schedule started
      let mem ← get
      if mem.running = [] then
        if mem.budgetExceeded then r.budgetFailed else r.completed
      else
        let answer ← Prog.query (L := Run) (.wait mem.running)
        forM answer.spawned persistPid
        if ← isCancelled then loop fuel true
        else
          let σ ← readStore
          let mem ← get
          match ← r.finishDone (r.finished σ mem answer.done) with
          | some stop => r.stopped stop.1 stop.2
          | none => loop fuel true

/-- Whatever happened, no worker is left behind. -/
def settle : Prog Run Unit := do
  let mem ← get
  let _ ← Prog.query (L := Run) (.settle mem.running)

/-- `_PlanExecution.run`.  Every time round but the last ends a task or is interrupted. -/
def planExecution : Prog Run PlanOutcome := do
  let mem ← get
  .ofExcept mem.validate
  (r.loop (mem.tasks.length + 2) false).ensure settle

/-- `run`. -/
def run (plan : PlanRecord) (tasks : List TaskRecord) (session : SessionRecord) :
    Prog App PlanOutcome := r.planExecution.hide (PlanExecution.create plan tasks session)

end PlanRunner

end AgenticLocalApp
