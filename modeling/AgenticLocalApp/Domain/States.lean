/-!
# States and transitions

The enumerations of every state and type, the transition tables of every state machine, and the
classes of states that the rest of the program names.
-/

namespace AgenticLocalApp

inductive SessionState where
  | ready | running | interrupting | completed | failed | paused
  deriving DecidableEq, Repr

inductive ConversationState where
  | new | active | waitingModelResponse | runningPlan | waitingUser | rotating
  | interrupted | completed | failed | closed
  deriving DecidableEq, Repr

inductive CycleType where
  | discovery | execution | clarification | resume
  deriving DecidableEq, Repr

inductive CycleState where
  | running | completed | failed | interrupted
  deriving DecidableEq, Repr

inductive PlanType where
  | discoveryPlan | executionPlan | priorityClarification
  deriving DecidableEq, Repr

inductive ExecutionPolicy where
  | sequential | parallel
  deriving DecidableEq, Repr

inductive PlanState where
  | pending | running | completed | stoppedOnFailure | shortCircuitedOnSuccess | interrupted | failed
  deriving DecidableEq, Repr

inductive TaskType where
  | cmd | chunkRequest
  deriving DecidableEq, Repr

inductive TaskState where
  | pending | waitingDependency | running | completed | failed | timedOut | skipped | cancelled
  | interrupted
  deriving DecidableEq, Repr

inductive OutputStream where
  | stdout | stderr
  deriving DecidableEq, Repr

inductive ContextWindowState where
  | healthy | warning | saturated
  deriving DecidableEq, Repr

inductive MessageType where
  | userRequest | discoveryPlan | executionPlan | priorityClarification | executionResult
  | finalAnswer | userResponse | contextResumeRequest | contextResumeAck
  | protocolCorrectionRequest | chunkRequest | systemError
  deriving DecidableEq, Repr

inductive MessageDirection where
  | outbound | inbound
  deriving DecidableEq, Repr

/-- An enumeration whose members are spelled out in records, messages and errors. -/
class StrEnum (S : Type) where
  value : S → String

instance : StrEnum SessionState where
  value
    | .ready => "READY"
    | .running => "RUNNING"
    | .interrupting => "INTERRUPTING"
    | .completed => "COMPLETED"
    | .failed => "FAILED"
    | .paused => "PAUSED"

instance : StrEnum ConversationState where
  value
    | .new => "NEW"
    | .active => "ACTIVE"
    | .waitingModelResponse => "WAITING_MODEL_RESPONSE"
    | .runningPlan => "RUNNING_PLAN"
    | .waitingUser => "WAITING_USER"
    | .rotating => "ROTATING"
    | .interrupted => "INTERRUPTED"
    | .completed => "COMPLETED"
    | .failed => "FAILED"
    | .closed => "CLOSED"

instance : StrEnum CycleState where
  value
    | .running => "RUNNING"
    | .completed => "COMPLETED"
    | .failed => "FAILED"
    | .interrupted => "INTERRUPTED"

instance : StrEnum PlanState where
  value
    | .pending => "PENDING"
    | .running => "RUNNING"
    | .completed => "COMPLETED"
    | .stoppedOnFailure => "STOPPED_ON_FAILURE"
    | .shortCircuitedOnSuccess => "SHORT_CIRCUITED_ON_SUCCESS"
    | .interrupted => "INTERRUPTED"
    | .failed => "FAILED"

instance : StrEnum TaskState where
  value
    | .pending => "PENDING"
    | .waitingDependency => "WAITING_DEPENDENCY"
    | .running => "RUNNING"
    | .completed => "COMPLETED"
    | .failed => "FAILED"
    | .timedOut => "TIMED_OUT"
    | .skipped => "SKIPPED"
    | .cancelled => "CANCELLED"
    | .interrupted => "INTERRUPTED"

instance : StrEnum ContextWindowState where
  value
    | .healthy => "HEALTHY"
    | .warning => "WARNING"
    | .saturated => "SATURATED"

instance : StrEnum OutputStream where
  value
    | .stdout => "stdout"
    | .stderr => "stderr"

instance : StrEnum MessageType where
  value
    | .userRequest => "user_request"
    | .discoveryPlan => "discovery_plan"
    | .executionPlan => "execution_plan"
    | .priorityClarification => "priority_clarification"
    | .executionResult => "execution_result"
    | .finalAnswer => "final_answer"
    | .userResponse => "user_response"
    | .contextResumeRequest => "context_resume_request"
    | .contextResumeAck => "context_resume_ack"
    | .protocolCorrectionRequest => "protocol_correction_request"
    | .chunkRequest => "chunk_request"
    | .systemError => "system_error"

/-- The spelling of a plan or task state inside a message: its value in lower case. -/
def protocolValue {S : Type} [StrEnum S] (s : S) : String :=
  .ofList ((StrEnum.value s).toList.map Char.toLower)

/-! ## Transition tables -/

def conversationTransitions : ConversationState → List ConversationState
  | .new => [.active, .failed]
  | .active => [.waitingModelResponse, .interrupted, .failed]
  | .waitingModelResponse => [.runningPlan, .completed, .rotating, .interrupted, .failed]
  | .runningPlan => [.waitingModelResponse, .rotating, .interrupted, .failed]
  | .rotating => [.closed, .interrupted, .failed]
  | .waitingUser => [.waitingModelResponse, .rotating, .failed]
  | .completed => [.waitingUser, .closed, .failed]
  | .interrupted => []
  | .failed => []
  | .closed => []

/-- The states from which a user interrupt applies. -/
def activeConversationStates : List ConversationState :=
  [.active, .waitingModelResponse, .runningPlan, .rotating]

def sessionTransitions : SessionState → List SessionState
  | .ready => [.running]
  | .running => [.completed, .paused, .interrupting, .failed]
  | .paused => [.running, .ready, .failed]
  | .interrupting => [.ready, .failed]
  | .completed => [.running]
  | .failed => []

def planTransitions : PlanState → List PlanState
  | .pending => [.running, .failed, .interrupted]
  | .running => [.completed, .stoppedOnFailure, .shortCircuitedOnSuccess, .interrupted, .failed]
  | .completed => []
  | .stoppedOnFailure => []
  | .shortCircuitedOnSuccess => []
  | .interrupted => []
  | .failed => []

def taskTransitions : TaskState → List TaskState
  | .pending => [.waitingDependency, .running, .skipped, .interrupted]
  | .waitingDependency => [.pending, .skipped, .interrupted]
  | .running => [.completed, .failed, .timedOut, .cancelled, .interrupted]
  | .completed => []
  | .failed => []
  | .timedOut => []
  | .skipped => []
  | .cancelled => []
  | .interrupted => []

/-- The task outcomes that count as a failure for the stop conditions. -/
def failedTaskStates : List TaskState := [.failed, .timedOut]

def cycleTransitions : CycleState → List CycleState
  | .running => [.completed, .failed, .interrupted]
  | .completed => []
  | .failed => []
  | .interrupted => []

def contextWindowTransitions : ContextWindowState → List ContextWindowState
  | .healthy => [.warning, .saturated]
  | .warning => [.saturated]
  | .saturated => [.healthy]

/-- `current → target` is listed in `table`. -/
def canTransition {S : Type} [DecidableEq S] (table : S → List S) (current target : S) : Bool :=
  target ∈ table current

/-- A state is terminal when no transition leaves it. -/
def isTerminal {S : Type} (table : S → List S) (state : S) : Bool := (table state).isEmpty

def PlanState.terminal (s : PlanState) : Bool := isTerminal planTransitions s

def TaskState.terminal (s : TaskState) : Bool := isTerminal taskTransitions s

/-! ## Message types -/

def planMessageTypes : List MessageType := [.discoveryPlan, .executionPlan, .priorityClarification]

/-- The two inbound types that conclude the model's turn without a plan. -/
def concludingMessageTypes : List MessageType := [.finalAnswer, .userResponse]

def planTypeForMessage : MessageType → Option PlanType
  | .discoveryPlan => some .discoveryPlan
  | .executionPlan => some .executionPlan
  | .priorityClarification => some .priorityClarification
  | _ => none

def cycleTypeForPlan : PlanType → CycleType
  | .discoveryPlan => .discovery
  | .executionPlan => .execution
  | .priorityClarification => .clarification

end AgenticLocalApp
