import AgenticLocalApp.Domain.Records

/-!
# The conversation store

One table per record type, and the queries of the store interface.  Lists come in insertion order
but for tasks, which come plan by plan in declaration order, and sessions, newest first.
-/

namespace AgenticLocalApp

structure Store where
  sessions : Table SessionRecord := .empty
  conversations : Table ConversationRecord := .empty
  cycles : Table CycleRecord := .empty
  plans : Table PlanRecord := .empty
  tasks : Table TaskRecord := .empty
  messages : Table MessageRecord := .empty
  failures : Table FailureRecord := .empty
  retryDecisions : Table RetryDecisionRecord := .empty
  summaries : Table ContextSummaryRecord := .empty
  blobs : Table BlobRecord := .empty

namespace Store

variable (σ : Store)

def saveSession (r : SessionRecord) : Store := { σ with sessions := σ.sessions.save r }
def saveConversation (r : ConversationRecord) : Store :=
  { σ with conversations := σ.conversations.save r }
def saveCycle (r : CycleRecord) : Store := { σ with cycles := σ.cycles.save r }
def savePlan (r : PlanRecord) : Store := { σ with plans := σ.plans.save r }
def saveTask (r : TaskRecord) : Store := { σ with tasks := σ.tasks.save r }
def saveTasks (rs : List TaskRecord) : Store := { σ with tasks := σ.tasks.saveAll rs }
def saveMessage (r : MessageRecord) : Store := { σ with messages := σ.messages.save r }
def saveFailure (r : FailureRecord) : Store := { σ with failures := σ.failures.save r }
def saveRetryDecision (r : RetryDecisionRecord) : Store :=
  { σ with retryDecisions := σ.retryDecisions.save r }
def saveContextSummary (r : ContextSummaryRecord) : Store := { σ with summaries := σ.summaries.save r }
def saveBlobs (rs : List BlobRecord) : Store := { σ with blobs := σ.blobs.saveAll rs }

def getSession (sid : String) : Option SessionRecord := σ.sessions.find sid
def getConversation (cid : String) : Option ConversationRecord := σ.conversations.find cid
def getCycle (cycleId : String) : Option CycleRecord := σ.cycles.find cycleId
def getPlan (sid planId : String) : Option PlanRecord := σ.plans.find (sid, planId)
def getTask (sid taskId : String) : Option TaskRecord := σ.tasks.find (sid, taskId)
def getMessage (messageId : String) : Option MessageRecord := σ.messages.find messageId

/-- Newest first, the identifier breaking ties. -/
def listSessions (statuses : List SessionState) : List SessionRecord :=
  (σ.sessions.rows.filter fun s => s.status ∈ statuses).insertionSort fun a b =>
    b.createdAt < a.createdAt ∨ b.createdAt = a.createdAt ∧ b.sessionId ≤ a.sessionId

def listConversations (sid : String) : List ConversationRecord :=
  σ.conversations.rows.filter fun c => c.sessionId = sid

def findConversationsInStates (states : List ConversationState) : List ConversationRecord :=
  σ.conversations.rows.filter fun c => c.status ∈ states

def listCycles (cid : String) : List CycleRecord :=
  σ.cycles.rows.filter fun c => c.conversationId = cid

def listPlans (sid : String) : List PlanRecord := σ.plans.rows.filter fun p => p.sessionId = sid

def findPlansInStates (states : List PlanState) : List PlanRecord :=
  σ.plans.rows.filter fun p => p.status ∈ states

/-- Where the plan of a task stands among the plans, 0 for a plan that is not there. -/
def planOrder (t : TaskRecord) : Nat :=
  let i := σ.plans.rows.findIdx fun p => p.sessionId = t.sessionId ∧ p.planId = t.planId
  if i < σ.plans.rows.length then i + 1 else 0

def sortTasks (ts : List TaskRecord) : List TaskRecord :=
  ts.insertionSort fun a b =>
    σ.planOrder a < σ.planOrder b ∨ σ.planOrder a = σ.planOrder b ∧ a.orderIndex ≤ b.orderIndex

def listTasks (sid : String) (planId : String) : List TaskRecord :=
  σ.sortTasks (σ.tasks.rows.filter fun t => t.sessionId = sid ∧ t.planId = planId)

def listSessionTasks (sid : String) : List TaskRecord :=
  σ.sortTasks (σ.tasks.rows.filter fun t => t.sessionId = sid)

def findTasksInStates (states : List TaskState) : List TaskRecord :=
  σ.sortTasks (σ.tasks.rows.filter fun t => t.status ∈ states)

def listMessages (cid : String) : List MessageRecord :=
  σ.messages.rows.filter fun m => m.conversationId = cid

def listFailures (sid : String) : List FailureRecord :=
  σ.failures.rows.filter fun f => f.sessionId = sid

def getBlobForTask (sid taskId : String) (blobType : OutputStream) : Option BlobRecord :=
  σ.blobs.rows.find? fun b => b.sessionId = sid ∧ b.taskId = taskId ∧ b.blobType = blobType

/-! ## Membership in the lists -/

variable {σ}

theorem mem_listSessions {s : SessionRecord} {statuses : List SessionState} :
    s ∈ σ.listSessions statuses ↔ s ∈ σ.sessions.rows ∧ s.status ∈ statuses := by
  simp [listSessions]

theorem mem_listConversations {c : ConversationRecord} {sid : String} :
    c ∈ σ.listConversations sid ↔ c ∈ σ.conversations.rows ∧ c.sessionId = sid := by
  simp [listConversations]

theorem mem_findConversationsInStates {c : ConversationRecord} {states : List ConversationState} :
    c ∈ σ.findConversationsInStates states ↔ c ∈ σ.conversations.rows ∧ c.status ∈ states := by
  simp [findConversationsInStates]

theorem mem_listCycles {c : CycleRecord} {cid : String} :
    c ∈ σ.listCycles cid ↔ c ∈ σ.cycles.rows ∧ c.conversationId = cid := by
  simp [listCycles]

theorem mem_findPlansInStates {p : PlanRecord} {states : List PlanState} :
    p ∈ σ.findPlansInStates states ↔ p ∈ σ.plans.rows ∧ p.status ∈ states := by
  simp [findPlansInStates]

theorem mem_listTasks {t : TaskRecord} {sid planId : String} :
    t ∈ σ.listTasks sid planId ↔ t ∈ σ.tasks.rows ∧ t.sessionId = sid ∧ t.planId = planId := by
  simp [listTasks, sortTasks]

theorem mem_findTasksInStates {t : TaskRecord} {states : List TaskState} :
    t ∈ σ.findTasksInStates states ↔ t ∈ σ.tasks.rows ∧ t.status ∈ states := by
  simp [findTasksInStates, sortTasks]

theorem mem_listMessages {m : MessageRecord} {cid : String} :
    m ∈ σ.listMessages cid ↔ m ∈ σ.messages.rows ∧ m.conversationId = cid := by
  simp [listMessages]

end Store

end AgenticLocalApp
