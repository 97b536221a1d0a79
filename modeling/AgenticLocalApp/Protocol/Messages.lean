import AgenticLocalApp.Domain.Canonical
import AgenticLocalApp.Domain.States

/-!
# The content of an `execution_result`

What the application answers to a plan: one result per task that ran, one reference per task that
did not, and the JSON object that each of them becomes once the absent fields are left out.
-/

namespace AgenticLocalApp

/-- What became of a task's command. -/
inductive TaskExecution where
  | ran | notStarted | timedOut | stopped
  deriving DecidableEq, Repr

instance : StrEnum TaskExecution where
  value
    | .ran => "ran"
    | .notStarted => "not_started"
    | .timedOut => "timed_out"
    | .stopped => "stopped"

/-- What the dialect dictionary did with a task's command. -/
structure TaskTranslation where
  status : String
  fromDialect : String
  toDialect : String
  originalCmd : String
  executedCmd : String
  rules : List String := []
  reason : Option String := none
  deriving DecidableEq

structure TaskResult where
  taskId : String
  status : String
  execution : TaskExecution := .ran
  exitCode : Option Int := none
  failureIsVerdict : Option Bool := none
  translation : Option TaskTranslation := none
  stdout : String := ""
  stderr : String := ""
  truncated : Bool := false
  originalSizeBytes : Option Nat := none
  stdoutTotal : Option Int := none
  stderrTotal : Option Int := none
  stdoutRange : Option (Int × Int) := none
  stderrRange : Option (Int × Int) := none
  maxOutputBytesApplied : Option Int := none
  timedOut : Bool := false
  timeoutMsApplied : Option Int := none
  durationMs : Option Int := none
  reason : Option String := none
  refTaskId : Option String := none
  stream : Option OutputStream := none
  range : Option (Int × Int) := none
  total : Option Nat := none
  eof : Option Bool := none
  data : Option String := none
  deriving DecidableEq

/-- A task that has no result, and why. -/
structure TaskRef where
  taskId : String
  reason : String
  execution : TaskExecution := .notStarted
  deriving DecidableEq

structure ExecutionResultContent where
  planId : String
  status : String
  results : List TaskResult := []
  skippedTasks : List TaskRef := []
  cancelledTasks : List TaskRef := []
  interruptedTasks : List TaskRef := []
  stopReason : Option String := none
  deriving DecidableEq

/-! ## As JSON -/

def jsonRange (r : Int × Int) : Json := .arr [.int r.1, .int r.2]

def jsonNat (n : Nat) : Json := .int n

def TaskTranslation.toJson (t : TaskTranslation) : Json :=
  Json.record [
    ("status", some (.str t.status)),
    ("from_dialect", some (.str t.fromDialect)),
    ("to_dialect", some (.str t.toDialect)),
    ("original_cmd", some (.str t.originalCmd)),
    ("executed_cmd", some (.str t.executedCmd)),
    ("rules", some (.arr (t.rules.map Json.str))),
    ("reason", t.reason.map Json.str)]

def TaskResult.toJson (r : TaskResult) : Json :=
  Json.record [
    ("task_id", some (.str r.taskId)),
    ("status", some (.str r.status)),
    ("execution", some (.str (StrEnum.value r.execution))),
    ("exit_code", r.exitCode.map Json.int),
    ("failure_is_verdict", r.failureIsVerdict.map Json.bool),
    ("translation", r.translation.map TaskTranslation.toJson),
    ("stdout", some (.str r.stdout)),
    ("stderr", some (.str r.stderr)),
    ("truncated", some (.bool r.truncated)),
    ("original_size_bytes", r.originalSizeBytes.map jsonNat),
    ("stdout_total", r.stdoutTotal.map Json.int),
    ("stderr_total", r.stderrTotal.map Json.int),
    ("stdout_range", r.stdoutRange.map jsonRange),
    ("stderr_range", r.stderrRange.map jsonRange),
    ("max_output_bytes_applied", r.maxOutputBytesApplied.map Json.int),
    ("timed_out", some (.bool r.timedOut)),
    ("timeout_ms_applied", r.timeoutMsApplied.map Json.int),
    ("duration_ms", r.durationMs.map Json.int),
    ("reason", r.reason.map Json.str),
    ("ref_task_id", r.refTaskId.map Json.str),
    ("stream", r.stream.map fun s => .str (StrEnum.value s)),
    ("range", r.range.map jsonRange),
    ("total", r.total.map jsonNat),
    ("eof", r.eof.map Json.bool),
    ("data", r.data.map Json.str)]

def TaskRef.toJson (r : TaskRef) : Json :=
  Json.record [
    ("task_id", some (.str r.taskId)),
    ("reason", some (.str r.reason)),
    ("execution", some (.str (StrEnum.value r.execution)))]

def ExecutionResultContent.toJson (c : ExecutionResultContent) : Json :=
  Json.record [
    ("plan_id", some (.str c.planId)),
    ("status", some (.str c.status)),
    ("results", some (.arr (c.results.map TaskResult.toJson))),
    ("skipped_tasks", some (.arr (c.skippedTasks.map TaskRef.toJson))),
    ("cancelled_tasks", some (.arr (c.cancelledTasks.map TaskRef.toJson))),
    ("interrupted_tasks", some (.arr (c.interruptedTasks.map TaskRef.toJson))),
    ("stop_reason", c.stopReason.map Json.str)]

end AgenticLocalApp
