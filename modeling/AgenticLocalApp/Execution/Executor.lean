import AgenticLocalApp.Domain.Errors

/-!
# The executor boundary

What the plan runner hands to the executor and what it gets back.
-/

namespace AgenticLocalApp

/-- Set once; the first reason is kept. -/
structure CancellationToken where
  isCancelled : Bool := false
  reason : Option String := none
  deriving DecidableEq

def CancellationToken.cancel (t : CancellationToken) (reason : String) : CancellationToken :=
  { isCancelled := true, reason := t.reason.or (some reason) }

/-- `str.isspace` for the ASCII and Latin-1 blanks and the Unicode spaces that `strip` removes. -/
def isBlankChar (c : Char) : Bool :=
  (9 ≤ c.toNat && c.toNat ≤ 13) || (28 ≤ c.toNat && c.toNat ≤ 32) || c.toNat = 0x85 ||
    c.toNat = 0xA0 || c.toNat = 0x1680 || (0x2000 ≤ c.toNat && c.toNat ≤ 0x200A) ||
    c.toNat = 0x2028 || c.toNat = 0x2029 || c.toNat = 0x202F || c.toNat = 0x205F ||
    c.toNat = 0x3000

/-- A text without anything but blanks. -/
def isBlank (s : String) : Bool := s.toList.all isBlankChar

/-- `str.strip`. -/
def strip (s : String) : String :=
  .ofList (((s.toList.dropWhile isBlankChar).reverse.dropWhile isBlankChar).reverse)

/-- A command the executor can be given: it is not blank and it has time to run. -/
structure CommandSpec where
  taskId : String
  cmd : String
  timeoutMs : Int
  cmd_not_blank : isBlank cmd = false
  timeoutMs_pos : 0 < timeoutMs

/-- The checks of `CommandSpec.__post_init__`. -/
def CommandSpec.create (taskId cmd : String) (timeoutMs : Int) : Except Exc CommandSpec :=
  if hc : isBlank cmd = true then .error (.valueError "cmd must not be blank")
  else if ht : 0 < timeoutMs then .ok ⟨taskId, cmd, timeoutMs, by simpa using hc, ht⟩
  else .error (.valueError "timeout_ms must be > 0")

/-- Everything the executor observed of a command. -/
structure RawExecution where
  stdout : List UInt8
  stderr : List UInt8
  exitCode : Option Int
  timedOut : Bool
  cancelled : Bool
  spawnError : Option String
  pid : Option Int
  processGroupId : Option Int

/-- A cancellation wins over a timeout, which wins over the exit code. -/
def RawExecution.outcome (r : RawExecution) : TaskState :=
  if r.cancelled then .cancelled
  else if r.timedOut then .timedOut
  else if r.spawnError.isNone ∧ r.exitCode = some 0 then .completed
  else .failed

/-- How a command ended: with an execution, or with a defect of the executor itself. -/
inductive ExecutorOutcome where
  | raw (execution : RawExecution)
  | taskExecutionError (error : NormalizedError)

theorem CommandSpec.create_ok {taskId cmd : String} {timeoutMs : Int} (hc : isBlank cmd = false)
    (ht : 0 < timeoutMs) : CommandSpec.create taskId cmd timeoutMs = .ok ⟨taskId, cmd, timeoutMs, hc, ht⟩ := by
  simp [CommandSpec.create, hc, ht]

theorem RawExecution.outcome_cases (r : RawExecution) :
    r.outcome ∈ [TaskState.cancelled, .timedOut, .completed, .failed] := by
  unfold RawExecution.outcome
  split
  · decide
  · split
    · decide
    · split <;> decide

end AgenticLocalApp
