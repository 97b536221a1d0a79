import AgenticLocalApp.Orchestration.Recovery

/-!
# The recovery policy

What a restart is for, as one function of the stored state: the state in which every entity is
left, `R` being the conversations that keep waiting for their reply.  The policy does not say in
which order the entities get there.
-/

namespace AgenticLocalApp

namespace Recovery

variable (R : List String) (σ : Store)

/-- The plan of the task is still open. -/
def PlanOpen (task : TaskRecord) : Prop :=
  ∃ plan ∈ σ.plans.rows, plan.sessionId = task.sessionId ∧ plan.planId = task.planId ∧
    plan.status ∈ openPlanStates

instance (task : TaskRecord) : Decidable (PlanOpen σ task) := by unfold PlanOpen; infer_instance

def taskAfter (task : TaskRecord) : TaskState :=
  if task.status = .running ∨ task.status ∈ openTaskStates ∧ PlanOpen σ task then .interrupted
  else task.status

def planAfter (plan : PlanRecord) : PlanState :=
  if plan.status ∈ openPlanStates then .interrupted else plan.status

def cycleAfter (cycle : CycleRecord) : CycleState :=
  if cycle.status = .running ∧ cycle.conversationId ∈ scannedConversations σ ∧
      cycle.conversationId ∉ R then .interrupted
  else cycle.status

/-- A running session is in this conversation. -/
def RunningIn (cid : String) : Prop :=
  ∃ session ∈ σ.sessions.rows, session.status = .running ∧ session.currentConversationId = some cid

instance (cid : String) : Decidable (RunningIn σ cid) := by unfold RunningIn; infer_instance

def conversationAfter (conversation : ConversationRecord) : ConversationState :=
  if conversation.conversationId ∈ R then conversation.status
  else if conversation.status ∈ activeConversationStates then .interrupted
  else if conversation.status = .completed ∧ RunningIn σ conversation.conversationId then
    finishTarget conversation
  else conversation.status

/-- Where an open session goes from the conversation it is in. -/
def openSessionAfter (status : SessionState) : Option ConversationRecord → SessionState
  | none => .ready
  | some conversation =>
    if conversation.conversationId ∈ R ∧ status = .running then .running
    else if status = .running ∧ conversation.status = .failed then .failed
    else if status = .running ∧ conversation.status ∈ finishedConversationStates then .completed
    else .ready

def sessionAfter (session : SessionRecord) : SessionState :=
  if session.status ∈ openSessionStates then
    openSessionAfter R session.status (session.currentConversationId.bind σ.getConversation)
  else session.status

/-! ## Entity states -/

/-- The record of a task in a state, without what is written down about the transition. -/
def taskIn (task : TaskRecord) (status : TaskState) : TaskRecord :=
  { task with status := status, reason := none, endedAt := none, durationMs := none, updatedAt := 0 }

def planIn (plan : PlanRecord) (status : PlanState) : PlanRecord :=
  { plan.withCounters [] with status := status, stopReason := none, endedAt := none, updatedAt := 0 }

def cycleIn (cycle : CycleRecord) (status : CycleState) : CycleRecord :=
  { cycle with status := status, endedAt := none }

def conversationIn (conversation : ConversationRecord) (status : ConversationState) :
    ConversationRecord :=
  { conversation with
    status := status, closureReason := none, interruptedAt := none, updatedAt := 0 }

def sessionIn (session : SessionRecord) (status : SessionState) : SessionRecord :=
  { session with status := status, endedAt := none, interruptedAt := none, updatedAt := 0 }

/-- Every entity of the store and its state; what no recovery touches is kept as it is. -/
structure EntityStates where
  tasks : List TaskRecord
  plans : List PlanRecord
  cycles : List CycleRecord
  conversations : List ConversationRecord
  sessions : List SessionRecord
  messages : Table MessageRecord
  blobs : Table BlobRecord

/-- The states in which the entities are. -/
def entityStates : EntityStates where
  tasks := σ.tasks.rows.map fun t => taskIn t t.status
  plans := σ.plans.rows.map fun p => planIn p p.status
  cycles := σ.cycles.rows.map fun c => cycleIn c c.status
  conversations := σ.conversations.rows.map fun c => conversationIn c c.status
  sessions := σ.sessions.rows.map fun s => sessionIn s s.status
  messages := σ.messages
  blobs := σ.blobs

/-- The states in which a restart leaves the entities. -/
def policy : EntityStates where
  tasks := σ.tasks.rows.map fun t => taskIn t (taskAfter σ t)
  plans := σ.plans.rows.map fun p => planIn p (planAfter p)
  cycles := σ.cycles.rows.map fun c => cycleIn c (cycleAfter R σ c)
  conversations := σ.conversations.rows.map fun c => conversationIn c (conversationAfter R σ c)
  sessions := σ.sessions.rows.map fun s => sessionIn s (sessionAfter R σ s)
  messages := σ.messages
  blobs := σ.blobs

end Recovery

end AgenticLocalApp
