import AgenticLocalApp.Domain.Shell
import AgenticLocalApp.Execution.PayloadGuard

/-!
# The result collector

One `execution_result` per terminal plan: the tasks that ran have a result, every other task has a
reference, and every list follows the declaration order of the plan.
-/

namespace AgenticLocalApp

/-- The outputs of the tasks that ran and the chunks that were served, by task. -/
abbrev Outputs (α : Type) := String → Option α

structure ResultCollector where
  verdictPrograms : VerdictPrograms
  translator : ShellTranslator

namespace ResultCollector

variable (rc : ResultCollector)

def resultStates : List TaskState := [.completed, .failed, .timedOut]

/-- `_translation`, derived from the command as the plan runner derived it. -/
def translation (task : TaskRecord) : Except Exc (Option TaskTranslation) :=
  match rc.translator.translate task.cmd with
  | .error message => .error (.valueError message)
  | .ok decided => .ok <| decided.map fun decided =>
    { status := if decided.translated then "translated" else "unchanged"
      fromDialect := StrEnum.value decided.source
      toDialect := StrEnum.value decided.target
      originalCmd := decided.original
      executedCmd := decided.executed
      rules := decided.rules
      reason := decided.reason }

/-- `_execution`: what became of a command that reached a result state. -/
def execution (task : TaskRecord) : TaskExecution :=
  if task.timedOut ∨ task.status = .timedOut then .timedOut
  else if task.exitCode = none then .notStarted
  else .ran

/-- `_reason`: the stored reason, or the one that the exit code of the shell stands for. -/
def reasonOf (task : TaskRecord) (execution : TaskExecution) : Option String :=
  if task.reason.isSome ∨ execution ≠ .ran then task.reason
  else commandNotRunReason rc.translator.target task.exitCode

/-- `_cmd_result`, once the translation of its command is there. -/
def cmdResult (task : TaskRecord) (output : Option TruncatedOutput)
    (translation : Option TaskTranslation) : TaskResult :=
  let execution := execution task
  let verdict := task.status = .failed ∧
    rc.verdictPrograms.isVerdict task.cmd task.exitCode task.timedOut rc.translator.target
  let base : TaskResult :=
    { taskId := task.taskId
      status := protocolValue task.status
      execution := execution
      exitCode := task.exitCode
      failureIsVerdict := if verdict then some true else none
      translation := translation
      truncated := task.truncated
      originalSizeBytes := task.originalSizeBytes
      stdoutTotal := task.stdoutTotal.map Int.ofNat
      stderrTotal := task.stderrTotal.map Int.ofNat
      stdoutRange := task.stdoutRange
      stderrRange := task.stderrRange
      maxOutputBytesApplied := task.maxOutputBytesApplied
      timedOut := task.timedOut
      timeoutMsApplied := task.timeoutMsApplied
      durationMs := task.durationMs
      reason := rc.reasonOf task execution }
  match output with
  | none => base
  | some o =>
    { base with
      stdout := decodeOutput o.stdoutKept
      stderr := decodeOutput o.stderrKept
      truncated := o.truncated
      originalSizeBytes := some o.originalSizeBytes
      stdoutTotal := some o.stdoutTotal
      stderrTotal := some o.stderrTotal
      stdoutRange := some o.stdoutRange
      stderrRange := some o.stderrRange }

def chunkResult (task : TaskRecord) (chunk : Option ChunkResult) : TaskResult where
  taskId := task.taskId
  status := protocolValue task.status
  execution := .ran
  durationMs := task.durationMs
  reason := task.reason
  refTaskId := task.refTaskId
  stream := some (task.stream.getD .stdout)
  range := chunk.map ChunkResult.range
  total := chunk.map ChunkResult.total
  eof := chunk.map ChunkResult.eof
  data := chunk.map fun c => decodeOutput c.data

/-- `_task_result`: an exception of the translation leaves it. -/
def taskResult (task : TaskRecord) (output : Option TruncatedOutput) (chunk : Option ChunkResult) :
    Except Exc TaskResult :=
  match task.type with
  | .chunkRequest => .ok (chunkResult task chunk)
  | .cmd => return rc.cmdResult task output (← rc.translation task)

/-- The reference of a task without a result, and why it has none. -/
def taskRef (task : TaskRecord) : TaskRef where
  taskId := task.taskId
  reason :=
    match task.reason with
    | some reason => if reason = "" then protocolValue task.status else reason
    | none => protocolValue task.status
  execution := if task.status ∈ [TaskState.cancelled, .interrupted] then .stopped else .notStarted

/-- Put one task where its state says, after those already there. -/
def addTask (plan : PlanRecord) (outputs : Outputs TruncatedOutput) (chunks : Outputs ChunkResult)
    (content : ExecutionResultContent) (task : TaskRecord) : Except Exc ExecutionResultContent :=
  if task.planId ≠ plan.planId then
    .error (.valueError s!"task {task.taskId} belongs to plan {task.planId}, not {plan.planId}")
  else if task.status ∈ resultStates then do
    let result ← rc.taskResult task (outputs task.taskId) (chunks task.taskId)
    return { content with results := content.results ++ [result] }
  else
    match task.status with
    | .skipped => .ok { content with skippedTasks := content.skippedTasks ++ [taskRef task] }
    | .cancelled => .ok { content with cancelledTasks := content.cancelledTasks ++ [taskRef task] }
    | .interrupted =>
      .ok { content with interruptedTasks := content.interruptedTasks ++ [taskRef task] }
    | status =>
      .error (.valueError
        s!"task {task.taskId} is still {StrEnum.value status} in terminal plan {plan.planId}")

/-- `build`: the content for a terminal plan that was not interrupted. -/
def build (plan : PlanRecord) (tasks : List TaskRecord) (outputs : Outputs TruncatedOutput)
    (chunks : Outputs ChunkResult) : Except Exc ExecutionResultContent :=
  if plan.status = .interrupted then
    .error (.valueError s!"plan {plan.planId} is INTERRUPTED: no execution_result is built (§8.4)")
  else if plan.status ∈ [PlanState.pending, .running] then
    .error (.valueError s!"plan {plan.planId} is not terminal ({StrEnum.value plan.status})")
  else
    (tasks.insertionSort fun a b => a.orderIndex ≤ b.orderIndex).foldlM
      (rc.addTask plan outputs chunks)
      { planId := plan.planId, status := protocolValue plan.status, stopReason := plan.stopReason }

end ResultCollector

end AgenticLocalApp
