import AgenticLocalApp.Execution.PlanRunner
import AgenticLocalApp.Orchestration.Recovery

/-!
# The interruption of a session

What an interruption does to the persisted state, once the loop of the session has been told to
stop: the open tasks of the current plan, the plan, the current cycle and the conversation, and the
same for the parent of a conversation that is rotating.
-/

namespace AgenticLocalApp

namespace Interruption

def userInterruptReason : String := interruptReason

def idleSessionStates : List SessionState := [.ready, .completed, .failed]
def openPlanStates : List PlanState := [.pending, .running]
def interruptibleTaskStates : List TaskState := [.running, .pending, .waitingDependency]

/-- `_Sweep`: what the sweep found, and did. -/
structure Sweep where
  conversationId : Option String := none
  planId : Option String := none
  cycleId : Option String := none
  interruptedTaskIds : List String := []
  interrupted : List ConversationRecord := []

/-! ## Tasks and plans -/

def interruptedTask (reason : String) (task : TaskRecord) (now : Instant) : TaskRecord :=
  { task with
    status := .interrupted
    reason := some reason
    endedAt := some now
    updatedAt := now
    durationMs :=
      match task.status, task.startedAt with
      | .running, some startedAt => some (max 0 ((now - startedAt) / 1000))
      | _, _ => task.durationMs }

/-- `_interrupt_task`. -/
def interruptTask (reason : String) (task : TaskRecord) : Prog App Unit := do
  checkTransition taskTransitions task.status .interrupted taskEntity
  let now ← now
  writeStore fun σ => σ.saveTask (interruptedTask reason task now)

def interruptedPlan (reason : String) (plan : PlanRecord) (tasks : List TaskRecord)
    (now : Instant) : PlanRecord :=
  { plan.withCounters (tasks.map TaskRecord.status) with
    status := .interrupted
    stopReason := some reason
    endedAt := some now
    updatedAt := now }

/-- `_interrupt_plan`. -/
def interruptPlan (reason : String) (plan : PlanRecord) : Prog App PlanRecord := do
  checkTransition planTransitions plan.status .interrupted planEntity
  let now ← now
  let σ ← readStore
  let record := interruptedPlan reason plan (σ.listTasks plan.sessionId plan.planId) now
  writeStore fun σ => σ.savePlan record
  return record

/-- The open tasks of the plan, in the order of the plan. -/
def interruptTasks (reason : String) (tasks : List TaskRecord) : Prog App Unit :=
  forM tasks fun task =>
    if task.status ∈ interruptibleTaskStates then interruptTask reason task else pure ()

/-- The plan, when it is open, and its tasks before it. -/
def closePlan (reason : String) (plan : PlanRecord) : Prog App PlanRecord := do
  if plan.status ∈ openPlanStates then
    let σ ← readStore
    interruptTasks reason (σ.listTasks plan.sessionId plan.planId)
    interruptPlan reason plan
  else
    return plan

/-- The plan that a conversation points to. -/
def currentPlan (σ : Store) (conversation : ConversationRecord) : Option PlanRecord :=
  conversation.currentPlanId.bind fun planId => σ.getPlan conversation.sessionId planId

/-- `_sweep_plan`. -/
def sweepPlan (reason : String) (conversation : ConversationRecord) :
    Prog App (Option String × List String) := do
  let σ ← readStore
  match currentPlan σ conversation with
  | none => return (none, [])
  | some plan =>
    let plan ← closePlan reason plan
    if plan.status ≠ .interrupted then return (none, [])
    let σ ← readStore
    let interrupted := (σ.listTasks plan.sessionId plan.planId).filter fun task =>
      task.status = .interrupted
    return (some plan.planId, interrupted.map TaskRecord.taskId)

/-! ## Cycles and conversations -/

/-- `_interrupt_cycle`. -/
def interruptCycle (cycle : CycleRecord) : Prog App CycleRecord := do
  checkTransition cycleTransitions cycle.status .interrupted cycleEntity
  let endedAt ← now
  let record := Recovery.interruptedCycle cycle endedAt
  writeStore fun σ => σ.saveCycle record
  return record

def currentCycle (σ : Store) (conversation : ConversationRecord) : Option CycleRecord :=
  conversation.currentCycleId.bind σ.getCycle

/-- `_sweep_cycle`. -/
def sweepCycle (conversation : ConversationRecord) : Prog App (Option String) := do
  let σ ← readStore
  match currentCycle σ conversation with
  | none => return none
  | some cycle =>
    let cycle ← if cycle.status = .running then interruptCycle cycle else pure cycle
    return if cycle.status = .interrupted then some cycle.cycleId else none

/-- `_sweep_conversation`: from a fresh record. -/
def sweepConversation (conversation : ConversationRecord) :
    Prog App (Option ConversationRecord) := do
  let σ ← readStore
  match σ.getConversation conversation.conversationId with
  | none => return none
  | some fresh =>
    if fresh.status ∉ activeConversationStates then return none
    let interrupted ← interruptConversation fresh.conversationId
    return some interrupted

/-- `_rotating_parent`. -/
def rotatingParent (σ : Store) (conversation : ConversationRecord) : Option ConversationRecord :=
  (conversation.parentConversationId.bind σ.getConversation).filter fun parent =>
    parent.status = .rotating

/-! ## The sweep -/

def currentConversation (σ : Store) (session : SessionRecord) : Option ConversationRecord :=
  session.currentConversationId.bind σ.getConversation

/-- One conversation: its plan, its cycle and itself. -/
def sweepOne (reason : String) (conversation : ConversationRecord) :
    Prog App ((Option String × List String) × Option String × Option ConversationRecord) := do
  let plan ← sweepPlan reason conversation
  let cycle ← sweepCycle conversation
  let interrupted ← sweepConversation conversation
  return (plan, cycle, interrupted)

/-- The parent of the conversation, after the conversation. -/
def sweepParent (reason : String) (found : Sweep) : Option ConversationRecord → Prog App Sweep
  | none => return found
  | some parent => do
    let (_, _, interrupted) ← sweepOne reason parent
    return { found with interrupted := found.interrupted ++ interrupted.toList }

/-- `_sweep`. -/
def sweep (sid reason : String) : Prog App Sweep := do
  let session ← requireSession sid
  let σ ← readStore
  match currentConversation σ session with
  | none => return { conversationId := session.currentConversationId }
  | some conversation =>
    let (plan, cycle, interrupted) ← sweepOne reason conversation
    let σ ← readStore
    sweepParent reason
      { conversationId := session.currentConversationId
        planId := plan.1
        cycleId := cycle
        interruptedTaskIds := plan.2
        interrupted := interrupted.toList } (rotatingParent σ conversation)

end Interruption

end AgenticLocalApp
