import AgenticLocalApp.Persistence.Store
import AgenticLocalApp.Persistence.StoreTransactions

/-!
# Queries of the two stores

The in-memory store keeps a number for each key, in the order of insertion, and sorts a listing by
it; the SQLite store filters the values of its columns, and sorts by `rowid`.  Both list what the
store of the model lists.
-/

namespace AgenticLocalApp

open Transactions

/-! ## The listings -/

/-- The listings of the store interface, but for the sessions. -/
inductive Query : RecordKind → Type where
  | listConversations (sessionId : String) : Query .conversation
  | findConversationsInStates (states : List ConversationState) : Query .conversation
  | listCycles (conversationId : String) : Query .cycle
  | listPlans (sessionId : String) (conversationId : Option String) : Query .plan
  | findPlansInStates (states : List PlanState) : Query .plan
  | listTasks (sessionId : String) (planId : Option String) (statuses : Option (List TaskState)) :
      Query .task
  | findTasksInStates (states : List TaskState) : Query .task
  | listMessages (conversationId : String) (direction : Option MessageDirection) : Query .message

/-- What a listing keeps, of the attributes of a record. -/
def Query.keeps {k : RecordKind} : Query k → k.Record → Bool
  | .listConversations sid, (c : ConversationRecord) => c.sessionId = sid
  | .findConversationsInStates states, (c : ConversationRecord) => c.status ∈ states
  | .listCycles cid, (c : CycleRecord) => c.conversationId = cid
  | .listPlans sid cid, (p : PlanRecord) =>
    p.sessionId = sid && (cid.isNone || cid = some p.conversationId)
  | .findPlansInStates states, (p : PlanRecord) => p.status ∈ states
  | .listTasks sid planId statuses, (t : TaskRecord) =>
    t.sessionId = sid && (planId.isNone || planId = some t.planId) &&
      (statuses.isNone || statuses.any fun wanted => t.status ∈ wanted)
  | .findTasksInStates states, (t : TaskRecord) => t.status ∈ states
  | .listMessages cid direction, (m : MessageRecord) =>
    m.conversationId = cid && (direction.isNone || direction = some m.direction)

namespace Store

def rowsOf (σ : Store) : (k : RecordKind) → List k.Record
  | .session => σ.sessions.rows
  | .conversation => σ.conversations.rows
  | .cycle => σ.cycles.rows
  | .message => σ.messages.rows
  | .plan => σ.plans.rows
  | .task => σ.tasks.rows

def saveRecord (σ : Store) : (k : RecordKind) → k.Record → Store
  | .session, r => σ.saveSession r
  | .conversation, r => σ.saveConversation r
  | .cycle, r => σ.saveCycle r
  | .message, r => σ.saveMessage r
  | .plan, r => σ.savePlan r
  | .task, r => σ.saveTask r

/-- The order of a listing: that of insertion, but for tasks. -/
def arranged (σ : Store) : (k : RecordKind) → List k.Record → List k.Record
  | .task, ts => σ.sortTasks ts
  | .session, rs | .conversation, rs | .cycle, rs | .message, rs | .plan, rs => rs

def query {k : RecordKind} (σ : Store) (q : Query k) : List k.Record :=
  σ.arranged k ((σ.rowsOf k).filter q.keeps)

/-! The listings that the rest of the model reads are these. -/

theorem query_listConversations (σ : Store) (sid : String) :
    σ.query (.listConversations sid) = σ.listConversations sid := rfl

theorem query_findTasksInStates (σ : Store) (states : List TaskState) :
    σ.query (.findTasksInStates states) = σ.findTasksInStates states := rfl

end Store

/-! ## The in-memory store -/

/-- What `InMemoryConversationStore` keeps of the records: the dictionaries, `_order` and
`_insertion_counter`. -/
structure MemoryContents where
  store : Store
  order : List (List Char × Nat)
  insertionCounter : Nat

/-- The word that the key of a record in `_order` starts with. -/
def RecordKind.label : RecordKind → List Char
  | session => "session".toList
  | conversation => "conversation".toList
  | cycle => "cycle".toList
  | message => "message".toList
  | plan => "plan".toList
  | task => "task".toList

/-- The key in `_order` of the record with a primary key. -/
def RecordKind.orderKey (k : RecordKind) (key : List String) : List Char :=
  k.label ++ key.flatMap fun part => ':' :: part.toList

example : RecordKind.plan.orderKey ["s1", "p1"] = "plan:s1:p1".toList := by decide

namespace MemoryContents

def orderOf (m : MemoryContents) (key : List Char) : Nat := (m.order.lookup key).getD 0

/-- `_touch`. -/
def touch (m : MemoryContents) (key : List Char) : MemoryContents :=
  match m.order.lookup key with
  | some _ => m
  | none => { m with
      order := m.order ++ [(key, m.insertionCounter + 1)]
      insertionCounter := m.insertionCounter + 1 }

def save (m : MemoryContents) (k : RecordKind) (r : k.Record) : MemoryContents :=
  { m with store := m.store.saveRecord k r }.touch (k.orderKey (k.table.primaryKey r))

def get (m : MemoryContents) (k : RecordKind) (key : List String) : Option k.Record :=
  (m.store.rowsOf k).find? fun r => k.table.primaryKey r = key

/-- `_plan_order`. -/
def planOrder (m : MemoryContents) (t : TaskRecord) : Nat :=
  m.orderOf (RecordKind.plan.orderKey [t.sessionId, t.planId])

/-- The sort of the tasks that are listed. -/
def sortTasks (m : MemoryContents) (ts : List TaskRecord) : List TaskRecord :=
  ts.insertionSort fun a b =>
    m.planOrder a < m.planOrder b ∨ m.planOrder a = m.planOrder b ∧ a.orderIndex ≤ b.orderIndex

/-- The sort of the other records that are listed. -/
def sortRows (m : MemoryContents) (k : RecordKind) (rs : List k.Record) : List k.Record :=
  rs.insertionSort fun a b =>
    m.orderOf (k.orderKey (k.table.primaryKey a)) ≤ m.orderOf (k.orderKey (k.table.primaryKey b))

def arranged (m : MemoryContents) : (k : RecordKind) → List k.Record → List k.Record
  | .task, ts => m.sortTasks ts
  | .session, rs => m.sortRows .session rs
  | .conversation, rs => m.sortRows .conversation rs
  | .cycle, rs => m.sortRows .cycle rs
  | .message, rs => m.sortRows .message rs
  | .plan, rs => m.sortRows .plan rs

def list {k : RecordKind} (m : MemoryContents) (q : Query k) : List k.Record :=
  m.arranged k ((m.store.rowsOf k).filter q.keeps)

def empty : MemoryContents := ⟨{}, [], 0⟩

end MemoryContents

/-! ## The SQLite store -/

/-- `_Filter`: each condition is a column and the texts it may hold; none for a list of states that
wants nothing. -/
def Query.filter {k : RecordKind} : Query k → Option (List (String × List String))
  | .listConversations sid => some [("session_id", [sid])]
  | .findConversationsInStates states => inStates states []
  | .listCycles cid => some [("conversation_id", [cid])]
  | .listPlans sid cid =>
    some (("session_id", [sid]) :: cid.toList.map fun c => ("conversation_id", [c]))
  | .findPlansInStates states => inStates states []
  | .listTasks sid planId statuses =>
    let conditions := ("session_id", [sid]) :: planId.toList.map fun p => ("plan_id", [p])
    match statuses with
    | none => some conditions
    | some wanted => inStates wanted conditions
  | .findTasksInStates states => inStates states []
  | .listMessages cid direction =>
    some (("conversation_id", [cid]) ::
      direction.toList.map fun d => ("direction", [StrEnum.value d]))
where
  /-- `in_states`. -/
  inStates {S : Type} [StrEnum S] (states : List S) (conditions : List (String × List String)) :
      Option (List (String × List String)) :=
    if states.isEmpty then none else some (conditions ++ [("status", states.map StrEnum.value)])

def Sql.isText (text : String) : Sql → Bool
  | .text cs => cs = text.toList
  | _ => false

namespace StoredRow

/-- The value of the row in the column of a name. -/
def column (columns : List String) (name : String) (row : StoredRow) : Sql :=
  ((columns.zip row.values).lookup name).getD .null

def meets (columns : List String) (row : StoredRow) (condition : String × List String) : Bool :=
  condition.2.any fun text => (row.column columns condition.1).isText text

def int (columns : List String) (name : String) (row : StoredRow) : Int :=
  match row.column columns name with
  | .integer n => n
  | _ => 0

end StoredRow

namespace SqliteDb

/-- `_TASK_JOIN`: the row of a plan is that of the task. -/
def joins (task plan : StoredRow) : Bool :=
  ["session_id", "plan_id"].all fun name =>
    match task.column tasksTable.row.columns name with
    | .text cs => (plan.column plansTable.row.columns name).isText (.ofList cs)
    | _ => false

/-- `COALESCE(p.rowid, 0)`, of the plan that the row of a task is joined to. -/
def planRowid (plans : Table StoredRow) (task : StoredRow) : Nat :=
  let i := plans.rows.findIdx (joins task)
  if i < plans.rows.length then i + 1 else 0

/-- `_TASK_ORDER` for tasks, and `rowid` for the others. -/
def arranged (tables : RecordKind → Table StoredRow) :
    RecordKind → List StoredRow → List StoredRow
  | .task, rows => rows.insertionSort fun a b =>
      planRowid (tables .plan) a < planRowid (tables .plan) b ∨
        planRowid (tables .plan) a = planRowid (tables .plan) b ∧
          a.int tasksTable.row.columns "order_index" ≤ b.int tasksTable.row.columns "order_index"
  | .session, rows | .conversation, rows | .cycle, rows | .message, rows | .plan, rows => rows

/-- `_Table.decode`. -/
def decode (k : RecordKind) (row : StoredRow) : Except StoreError k.Record :=
  match k.table.row.decode row.values with
  | some (r, []) => .ok r
  | _ => .error (.persistence
      (persistenceError "RECORD_INVALID" false [("table", .str k.table.name)]))

/-- `_fetch_all`. -/
def fetchAll {k : RecordKind} (db : SqliteDb) (q : Query k) : Except StoreError (List k.Record) :=
  if db.closed then .error storeClosed
  else
    match q.filter with
    | none => .ok []
    | some conditions =>
      (arranged db.tables k ((db.tables k).rows.filter fun row =>
        conditions.all (row.meets k.table.row.columns))).mapM (decode k)

end SqliteDb

end AgenticLocalApp
