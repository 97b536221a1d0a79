import AgenticLocalApp.Persistence.RecordTables
import AgenticLocalApp.Protocol.PlanContent
import Mathlib.Data.List.Infix

/-!
# Records in the SQLite store

What a save writes and what a read gives back, for every kind of record.  A record is read back as
it was saved exactly when SQLite has room for its integers; some of them are the model's own, and
nothing bounds those.
-/

namespace AgenticLocalApp

/-! ## Kinds of records -/

/-- The records that a message of the model leads to. -/
inductive RecordKind where
  | session | conversation | cycle | message | plan | task
  deriving DecidableEq

namespace RecordKind

def Record : RecordKind → Type
  | session => SessionRecord
  | conversation => ConversationRecord
  | cycle => CycleRecord
  | message => MessageRecord
  | plan => PlanRecord
  | task => TaskRecord

def table : (k : RecordKind) → SqlTable k.Record
  | session => sessionsTable
  | conversation => conversationsTable
  | cycle => cyclesTable
  | message => messagesTable
  | plan => plansTable
  | task => tasksTable

/-- The record with the keys of its dictionaries in order: records are equal when these are. -/
def ordered : (k : RecordKind) → k.Record → k.Record
  | session, (r : SessionRecord) => { r with finalAnswer := r.finalAnswer.map Json.sorted }
  | conversation, r => r
  | cycle, r => r
  | message, (r : MessageRecord) => { r with payload := r.payload.sorted }
  | plan, (r : PlanRecord) => { r with stateSummary := r.stateSummary.map Json.sorted }
  | task, r => r

/-- The integers of a record that have a column of their own. -/
def integers : (k : RecordKind) → k.Record → List Int
  | session, (r : SessionRecord) => [r.consumedCycles, r.consumedPlans, r.rotationsCount]
  | conversation, (r : ConversationRecord) => [r.contextBytes, r.protocolErrorCount]
  | cycle, (r : CycleRecord) => [r.retryCount]
  | message, (r : MessageRecord) => [r.sizeBytes]
  | plan, (r : PlanRecord) => [r.maxParallelWorkers, r.taskCount, r.completedTaskCount,
      r.failedTaskCount, r.skippedTaskCount, r.cancelledTaskCount, r.interruptedTaskCount] ++
      r.defaultMaxOutputBytes.toList
  | task, (r : TaskRecord) => [r.orderIndex] ++ r.maxOutputBytes.toList ++
      r.maxOutputBytesApplied.toList ++ r.timeoutMs.toList ++ r.timeoutMsApplied.toList ++
      r.byteOffset.toList ++ r.maxBytes.toList ++ [(r.attemptCount : Int)] ++ r.exitCode.toList ++
      (r.originalSizeBytes.map Int.ofNat).toList ++ (r.stdoutTotal.map Int.ofNat).toList ++
      (r.stderrTotal.map Int.ofNat).toList ++ r.pid.toList ++ r.processGroupId.toList ++
      r.durationMs.toList

def instants : (k : RecordKind) → k.Record → List Instant
  | session, (r : SessionRecord) => [r.createdAt, r.updatedAt] ++ r.startedAt.toList ++
      r.endedAt.toList ++ r.interruptedAt.toList
  | conversation, (r : ConversationRecord) => [r.createdAt, r.updatedAt] ++ r.interruptedAt.toList
  | cycle, (r : CycleRecord) => [r.startedAt] ++ r.endedAt.toList
  | message, (r : MessageRecord) => [r.createdAt] ++ r.postedAt.toList ++ r.receivedAt.toList
  | plan, (r : PlanRecord) => [r.createdAt, r.updatedAt] ++ r.startedAt.toList ++ r.endedAt.toList
  | task, (r : TaskRecord) => [r.createdAt, r.updatedAt] ++ r.startedAt.toList ++ r.endedAt.toList

def dicts : (k : RecordKind) → k.Record → List Json
  | session, (r : SessionRecord) => r.finalAnswer.toList
  | message, (r : MessageRecord) => [r.payload]
  | plan, (r : PlanRecord) => r.stateSummary.toList
  | _, _ => []

/-- The values are those that Python has: a `datetime` ends with the year 9999, and a field that is
a dictionary is one. -/
structure WellTyped (k : RecordKind) (r : k.Record) : Prop where
  instants : ∀ t ∈ k.instants r, Timestamp.InRange t
  dicts : ∀ j ∈ k.dicts r, Column.IsDict j

end RecordKind

/-! ## The columns of a kind -/

namespace Column

variable {α : Type}

theorem text_neverNull : text.NeverNull := fun _ h => by cases h
theorem integer_neverNull : integer.NeverNull := fun _ h => by cases h
theorem natural_neverNull : natural.NeverNull := fun _ h => by cases h
theorem datetime_neverNull : datetime.NeverNull := fun _ h => by cases h

theorem json_neverNull (dump : α → Json) (validate : Json → Option α) :
    (json dump validate).NeverNull := fun _ h => by cases h

theorem enum_neverNull (S : Type) [StrEnum S] [EnumColumn S] : (enum S).NeverNull :=
  fun _ h => by cases h

theorem reads_optionalText (o : Option String) : text.nullable.Reads o o :=
  reads_nullable text_neverNull fun a _ => reads_text a

theorem reads_optionalInteger (o : Option Int) : integer.nullable.Reads o o :=
  reads_nullable integer_neverNull fun a _ => reads_integer a

theorem reads_optionalNatural (o : Option Nat) : natural.nullable.Reads o o :=
  reads_nullable natural_neverNull fun a _ => reads_natural a

theorem reads_optionalRange (o : Option (Int × Int)) : range.nullable.Reads o o :=
  reads_nullable (json_neverNull _ _) fun a _ => reads_range a

theorem reads_optionalEnum {S : Type} [StrEnum S] [EnumColumn S] (o : Option S) :
    (enum S).nullable.Reads o o :=
  reads_nullable (enum_neverNull S) fun a _ => reads_enum a

theorem reads_optionalDatetime {o : Option Instant} (h : ∀ t ∈ o.toList, Timestamp.InRange t) :
    datetime.nullable.Reads o o :=
  reads_nullable datetime_neverNull fun a ha => reads_datetime (h a (Option.mem_toList.2 ha))

theorem reads_optionalDict {o : Option Json} (h : ∀ j ∈ o.toList, IsDict j) :
    dict.nullable.Reads o (o.map Json.sorted) :=
  Reads.map (json_neverNull _ _) fun a ha => reads_dict (h a (Option.mem_toList.2 ha))

/-! Only integers need room. -/

@[simp] theorem fits_text (s : String) : (text.encode s).Fits ↔ True := Iff.rfl
@[simp] theorem fits_integer (n : Int) : (integer.encode n).Fits ↔ FitsInteger n := Iff.rfl
@[simp] theorem fits_natural (n : Nat) : (natural.encode n).Fits ↔ FitsInteger n := Iff.rfl
@[simp] theorem fits_datetime (t : Instant) : (datetime.encode t).Fits ↔ True := Iff.rfl

@[simp] theorem fits_boolean (b : Bool) : (boolean.encode b).Fits ↔ True := by
  cases b <;> simp [boolean, Param.Fits, FitsInteger]

@[simp] theorem fits_json (dump : α → Json) (validate : Json → Option α) (a : α) :
    ((json dump validate).encode a).Fits ↔ True := Iff.rfl

@[simp] theorem fits_dict (j : Json) : (dict.encode j).Fits ↔ True := Iff.rfl
@[simp] theorem fits_budget (b : SessionBudget) : (budget.encode b).Fits ↔ True := Iff.rfl
@[simp] theorem fits_texts (ss : List String) : (texts.encode ss).Fits ↔ True := Iff.rfl
@[simp] theorem fits_range (p : Int × Int) : (range.encode p).Fits ↔ True := Iff.rfl

@[simp] theorem fits_enum {S : Type} [StrEnum S] [EnumColumn S] (s : S) :
    ((enum S).encode s).Fits ↔ True := Iff.rfl

@[simp] theorem fits_nullable (c : Column α) (o : Option α) :
    (c.nullable.encode o).Fits ↔ ∀ a ∈ o, (c.encode a).Fits := by
  cases o with
  | none => simp [nullable, Param.Fits]
  | some a => simp [nullable]

end Column

namespace Row

variable {ρ α β : Type}

@[simp] theorem fits_start (a : α) (r : ρ) : (start a).Fits r ↔ True := by simp [Fits, start]

@[simp] theorem fits_column (row : Row ρ (α → β)) (name : String) (get : ρ → α) (c : Column α)
    (r : ρ) : (row.column name get c).Fits r ↔ row.Fits r ∧ (c.encode (get r)).Fits := by
  simp only [Fits, column, List.forall_mem_append, List.forall_mem_singleton]

end Row

namespace RecordKind

open Column Row

-- their equations are generated here, once for all the theorems below
attribute [local simp] integers instants dicts

theorem fits_session (r : SessionRecord) :
    sessionsTable.row.Fits r ↔ ∀ n ∈ integers session r, FitsInteger n := by
  simp [sessionsTable, and_assoc]

theorem fits_conversation (r : ConversationRecord) :
    conversationsTable.row.Fits r ↔ ∀ n ∈ integers conversation r, FitsInteger n := by
  simp [conversationsTable]

theorem fits_cycle (r : CycleRecord) :
    cyclesTable.row.Fits r ↔ ∀ n ∈ integers cycle r, FitsInteger n := by
  simp [cyclesTable]

theorem fits_message (r : MessageRecord) :
    messagesTable.row.Fits r ↔ ∀ n ∈ integers message r, FitsInteger n := by
  simp [messagesTable]

theorem fits_plan (r : PlanRecord) :
    plansTable.row.Fits r ↔ ∀ n ∈ integers plan r, FitsInteger n := by
  simp [plansTable, and_assoc]

theorem fits_task (r : TaskRecord) :
    tasksTable.row.Fits r ↔ ∀ n ∈ integers task r, FitsInteger n := by
  simp only [tasksTable, integers, fits_column, fits_start, fits_text, fits_integer, fits_natural,
    fits_boolean, fits_datetime, fits_enum, fits_texts, fits_range, fits_nullable,
    List.forall_mem_append, List.forall_mem_singleton, true_and, and_true, implies_true]
  simp

theorem fits_iff (k : RecordKind) (r : k.Record) :
    k.table.row.Fits r ↔ ∀ n ∈ k.integers r, FitsInteger n := by
  cases k with
  | session => exact fits_session r
  | conversation => exact fits_conversation r
  | cycle => exact fits_cycle r
  | message => exact fits_message r
  | plan => exact fits_plan r
  | task => exact fits_task r

theorem reads_session {r : SessionRecord} (h : WellTyped session r) :
    sessionsTable.row.Reads r (ordered session r) := by
  have hinstants := h.instants
  have hdicts := h.dicts
  simp only [instants, dicts, List.forall_mem_append, List.forall_mem_cons] at hinstants hdicts
  obtain ⟨⟨⟨⟨hcreated, hupdated, -⟩, hstarted⟩, hended⟩, hinterrupted⟩ := hinstants
  have hstart := reads_optionalDatetime hstarted
  have hend := reads_optionalDatetime hended
  have hinterrupt := reads_optionalDatetime hinterrupted
  have hanswer := reads_optionalDict hdicts
  cases r
  unfold sessionsTable
  repeat' apply reads_column
  all_goals with_reducible first
    | exact reads_start _ _ | exact reads_text _ | exact reads_enum _ | exact reads_boolean _
    | exact reads_natural _ | exact reads_budget _ | exact reads_optionalText _
    | exact reads_datetime hcreated | exact reads_datetime hupdated | assumption

theorem reads_conversation {r : ConversationRecord} (h : WellTyped conversation r) :
    conversationsTable.row.Reads r (ordered conversation r) := by
  have hinstants := h.instants
  simp only [instants, List.forall_mem_append, List.forall_mem_cons] at hinstants
  obtain ⟨⟨hcreated, hupdated, -⟩, hinterrupted⟩ := hinstants
  have hinterrupt := reads_optionalDatetime hinterrupted
  cases r
  unfold conversationsTable
  repeat' apply reads_column
  all_goals with_reducible first
    | exact reads_start _ _ | exact reads_text _ | exact reads_enum _ | exact reads_boolean _
    | exact reads_natural _ | exact reads_budget _ | exact reads_optionalText _
    | exact reads_datetime hcreated | exact reads_datetime hupdated | assumption

theorem reads_cycle {r : CycleRecord} (h : WellTyped cycle r) :
    cyclesTable.row.Reads r (ordered cycle r) := by
  have hinstants := h.instants
  simp only [instants, List.forall_mem_append, List.forall_mem_singleton] at hinstants
  have hend := reads_optionalDatetime hinstants.2
  have hstart := reads_datetime hinstants.1
  cases r
  unfold cyclesTable
  repeat' apply reads_column
  all_goals with_reducible first
    | exact reads_start _ _ | exact reads_text _ | exact reads_enum _ | exact reads_natural _
    | exact reads_optionalText _ | assumption

theorem reads_message {r : MessageRecord} (h : WellTyped message r) :
    messagesTable.row.Reads r (ordered message r) := by
  have hinstants := h.instants
  have hdicts := h.dicts
  simp only [instants, dicts, List.forall_mem_append, List.forall_mem_singleton] at hinstants hdicts
  obtain ⟨⟨hcreated, hposted⟩, hreceived⟩ := hinstants
  have hpost := reads_optionalDatetime hposted
  have hreceive := reads_optionalDatetime hreceived
  have hpayload := reads_dict hdicts
  cases r
  unfold messagesTable
  repeat' apply reads_column
  all_goals with_reducible first
    | exact reads_start _ _ | exact reads_text _ | exact reads_enum _ | exact reads_boolean _
    | exact reads_natural _ | exact reads_optionalText _ | exact reads_datetime hcreated
    | assumption

theorem reads_plan {r : PlanRecord} (h : WellTyped plan r) :
    plansTable.row.Reads r (ordered plan r) := by
  have hinstants := h.instants
  have hdicts := h.dicts
  simp only [instants, dicts, List.forall_mem_append, List.forall_mem_cons] at hinstants hdicts
  obtain ⟨⟨⟨hcreated, hupdated, -⟩, hstarted⟩, hended⟩ := hinstants
  have hstart := reads_optionalDatetime hstarted
  have hend := reads_optionalDatetime hended
  have hsummary := reads_optionalDict hdicts
  cases r
  unfold plansTable
  repeat' apply reads_column
  all_goals with_reducible first
    | exact reads_start _ _ | exact reads_text _ | exact reads_enum _ | exact reads_integer _
    | exact reads_natural _ | exact reads_optionalText _ | exact reads_optionalInteger _
    | exact reads_datetime hcreated | exact reads_datetime hupdated | assumption

theorem reads_task {r : TaskRecord} (h : WellTyped task r) :
    tasksTable.row.Reads r (ordered task r) := by
  have hinstants := h.instants
  simp only [instants, List.forall_mem_append, List.forall_mem_cons] at hinstants
  obtain ⟨⟨⟨hcreated, hupdated, -⟩, hstarted⟩, hended⟩ := hinstants
  have hstart := reads_optionalDatetime hstarted
  have hend := reads_optionalDatetime hended
  cases r
  unfold tasksTable
  repeat' apply reads_column
  all_goals with_reducible first
    | exact reads_start _ _ | exact reads_text _ | exact reads_enum _ | exact reads_boolean _
    | exact reads_integer _ | exact reads_natural _ | exact reads_texts _
    | exact reads_optionalText _ | exact reads_optionalInteger _ | exact reads_optionalNatural _
    | exact reads_optionalRange _ | exact reads_optionalEnum _ | exact reads_datetime hcreated
    | exact reads_datetime hupdated | assumption

/-- A row that SQLite has room for is read back as the record it was made of. -/
theorem reads {k : RecordKind} {r : k.Record} (h : k.WellTyped r) :
    k.table.row.Reads r (k.ordered r) := by
  cases k with
  | session => exact reads_session h
  | conversation => exact reads_conversation h
  | cycle => exact reads_cycle h
  | message => exact reads_message h
  | plan => exact reads_plan h
  | task => exact reads_task h

end RecordKind

/-! ## The store -/

/-- A row: the texts of its primary key, and the values of its columns. -/
structure StoredRow where
  key : List String
  values : List Sql

instance : Keyed StoredRow (List String) := ⟨StoredRow.key⟩

structure SqliteDb where
  tables : RecordKind → Table StoredRow
  closed : Bool

/-- A `sqlite3.Error`: its class and its text. -/
structure SqliteException where
  type : String
  message : String

/-- What SQLite itself may raise of a statement, before its parameters are bound or after. -/
inductive Fault where
  | preparing (error : SqliteException)
  | running (error : SqliteException)

/-- `persistence_error_from_sqlite`: a database that is locked or busy may be tried again. -/
def persistenceErrorFromSqlite (e : SqliteException) : NormalizedError :=
  let lowered := (e.message.toList.map Char.toLower)
  let transient : Bool := e.type = "OperationalError" &&
    (decide ("locked".toList <:+: lowered) || decide ("busy".toList <:+: lowered))
  persistenceError "SQLITE_ERROR" transient
    [("sqlite", .str e.message), ("sqlite_type", .str e.type)]

def storeClosed : StoreError := .persistence (persistenceError "STORE_CLOSED" false [])

namespace SqliteDb

/-- `_upsert`.  A statement that raises has changed no row. -/
def upsert (fault : Option Fault) (k : RecordKind) (r : k.Record) (db : SqliteDb) :
    Except StoreError Unit × SqliteDb :=
  if db.closed then (.error storeClosed, db)
  else
    match fault, k.table.row.bound r with
    | some (.preparing e), _ => (.error (.persistence (persistenceErrorFromSqlite e)), db)
    | _, .error e => (.error e, db)
    | some (.running e), .ok _ => (.error (.persistence (persistenceErrorFromSqlite e)), db)
    | none, .ok values =>
      (.ok (), { db with
        tables := Function.update db.tables k ((db.tables k).save ⟨k.table.primaryKey r, values⟩) })

/-- `_fetch_one`, by the primary key. -/
def fetchOne (k : RecordKind) (key : List String) (db : SqliteDb) :
    Except StoreError (Option k.Record) :=
  if db.closed then .error storeClosed
  else
    match (db.tables k).find key with
    | none => .ok none
    | some row =>
      match k.table.row.decode row.values with
      | some (r, []) => .ok (some r)
      | _ => .error (.persistence
          (persistenceError "RECORD_INVALID" false [("table", .str k.table.name)]))

/-- The store with no record in it. -/
def empty : SqliteDb := ⟨fun _ => .empty, false⟩

end SqliteDb

namespace SqliteDb

variable {k : RecordKind} {r : k.Record} {db : SqliteDb}

end SqliteDb

section Endless

theorem unset_pos : ∀ n ∈ (none : Option Int), 0 < n := by simp

theorem unset_nonneg : ∀ n ∈ (none : Option Int), 0 ≤ n := by simp

theorem unset_one_le : ∀ n ∈ (none : Option Int), 1 ≤ n := by simp

theorem twoPow_pos : ∀ n ∈ some (2 ^ 63 : Int), 0 < n := by simp

theorem t1_ne : "t1" ≠ "" := by decide

theorem p1_ne : "p1" ≠ "" := by decide

theorem ls_shape : TaskType.cmd = .cmd → (∃ text ∈ some "ls", isBlank text = false) ∧
    (none : Option String) = none ∧ (none : Option Int) = none ∧ (none : Option Int) = none :=
  fun _ => ⟨⟨"ls", rfl, by decide⟩, rfl, rfl, rfl⟩

theorem cmd_not_chunk : TaskType.cmd = .chunkRequest → some "ls" = none ∧
    (∃ ref ∈ (none : Option String), ref ≠ "") ∧ (none : Option Int).isSome ∧
      (none : Option Int).isSome := by simp

/-- A task that may run for `2 ^ 63` milliseconds. -/
def TaskMessage.endless : TaskMessage where
  taskId := "t1"
  cmd := some "ls"
  timeoutMs := some (2 ^ 63)
  taskId_ne := t1_ne
  maxOutputBytes_pos := unset_pos
  timeoutMs_pos := twoPow_pos
  byteOffset_nonneg := unset_nonneg
  maxBytes_pos := unset_pos
  cmd_shape := ls_shape
  chunk_shape := cmd_not_chunk

theorem endless_tasks_ne : [TaskMessage.endless] ≠ [] := by simp

def PlanContent.endless : PlanContent where
  planId := "p1"
  objective := "wait"
  executionPolicy := .sequential
  tasks := [.endless]
  planId_ne := p1_ne
  maxParallelWorkers_pos := unset_one_le
  defaultMaxOutputBytes_pos := unset_pos
  tasks_ne := endless_tasks_ne

end Endless

end AgenticLocalApp
