import AgenticLocalApp.Persistence.StoreAgreement

/-!
# Code over the stores

Saves, reads and listings inside transactions that nest.  What the store of the model answers is
what either store answers, and what a block of the SQLite store leaves behind does not depend on
where it fails.
-/

namespace AgenticLocalApp

open Transactions RecordKind

inductive StoreOp where
  | save (k : RecordKind) (r : k.Record)
  | get (k : RecordKind) (key : List String)
  | list (k : RecordKind) (q : Query k)

/-- What an operation returns.  A record is what it is equal to: the keys of its dictionaries are in
order. -/
inductive StoreAnswer where
  | done
  | found (k : RecordKind) (r : Option k.Record)
  | listed (k : RecordKind) (rs : List k.Record)

/-- `save_tasks`. -/
def saveTasks {E : Type} (records : List TaskRecord) : Code StoreOp StoreAnswer (Raised E) :=
  .block (.inOrder .done (records.map (.save .task))) .done

variable {E : Type}

/-! ## The rules of each store -/

/-- What a snapshot of the in-memory store leaves out. -/
structure MemoryFlags where
  failNextWrite : Bool
  closed : Bool

/-- What a rollback of the SQLite store leaves out: `closed`, and what the next statements meet. -/
structure SqliteFlags where
  closed : Bool
  faults : List (Option Fault)

namespace SqliteFlags

/-- What the next statement meets. -/
def next (f : SqliteFlags) : Option Fault × SqliteFlags :=
  (f.faults.head?.join, { f with faults := f.faults.tail })

def faultError : Fault → StoreError
  | .preparing e | .running e => .persistence (persistenceErrorFromSqlite e)

/-- A statement with no parameters to bind. -/
def statement (f : SqliteFlags) : Option StoreError × SqliteFlags :=
  if f.closed then (some storeClosed, f) else (f.next.1.map faultError, f.next.2)

end SqliteFlags

/-- A statement that reads, and what is made of its rows. -/
def sqliteRead (f : SqliteFlags) (tables : RecordKind → Table StoredRow)
    (fetch : SqliteDb → Except StoreError StoreAnswer) :
    Except (Raised E) StoreAnswer × SqliteFlags × (RecordKind → Table StoredRow) :=
  match f.statement with
  | (some e, f) => (.error (.store e), f, tables)
  | (none, f) =>
    match fetch ⟨tables, f.closed⟩ with
    | .error e => (.error (.store e), f, tables)
    | .ok a => (.ok a, f, tables)

/-- A savepoint, its release and a rollback meet no fault: they neither take nor release a lock.  A
statement that meets one leaves the transaction open: that SQLite rolls back all of it by itself, as
it may on a full disk, is left out. -/
def sqliteRules (E : Type) :
    Rules SqliteFlags (RecordKind → Table StoredRow) StoreOp StoreAnswer (Raised E) where
  exec
    | .save k r, f, tables =>
      match SqliteDb.upsert f.next.1 k r ⟨tables, f.closed⟩ with
      | (.error e, db) => (.error (.store e), f.next.2, db.tables)
      | (.ok (), db) => (.ok .done, f.next.2, db.tables)
    | .get k key, f, tables => sqliteRead f tables fun db => (db.fetchOne k key).map (.found k)
    | .list k q, f, tables => sqliteRead f tables fun db => (db.fetchAll q).map (.listed k)
  opening inside f :=
    if inside then (none, f) else (f.statement.1.map .store, f.statement.2)
  ending inside f :=
    if inside then (none, f) else (f.statement.1.map .store, f.statement.2)

/-! ## The stores answer as the store of the model -/

/-- What is saved is what either store has room for. -/
def StoreOp.Saveable : StoreOp → Prop
  | .save k r => k.Storable r ∧ Plain (k.table.primaryKey r)
  | .get _ _ | .list _ _ => True

theorem saveTasks_saveable {records : List TaskRecord}
    (h : ∀ t ∈ records, StoreOp.Saveable (.save .task t)) :
    (saveTasks records : Code StoreOp StoreAnswer (Raised E)).Only StoreOp.Saveable := by
  refine ⟨Code.only_inOrder fun o ho => ?_, fun _ => trivial⟩
  obtain ⟨t, ht, rfl⟩ := List.mem_map.1 ho
  exact h t ht

theorem Represents.save {tables : RecordKind → Table StoredRow} {σ : Store}
    (h : Represents tables σ) {k : RecordKind} {r : k.Record} (hr : k.Storable r) :
    Represents (Function.update tables k ((tables k).save (k.rowOf r))) (σ.saveRecord k r) where
  storable k' x hx := by
    by_cases hk : k = k'
    · subst hk
      rw [Store.rowsOf_saveRecord] at hx
      rcases mem_upsert hx with rfl | hx
      · exact hr
      · exact h.storable k x hx
    · rw [Store.rowsOf_saveRecord_of_ne σ r hk] at hx
      exact h.storable k' x hx
  rows k' := by
    by_cases hk : k' = k
    · subst hk
      have hmap : (upsert k'.table.primaryKey (σ.rowsOf k') r).map k'.rowOf =
          upsert StoredRow.key ((σ.rowsOf k').map k'.rowOf) (k'.rowOf r) := by
        have hkey : ∀ a, StoredRow.key (k'.rowOf a) = k'.table.primaryKey a := fun _ => rfl
        exact map_upsert hkey _ _
      rw [Function.update_self, Store.rowsOf_saveRecord, hmap, ← h.rows k']
      rfl
    · rw [Function.update_of_ne hk, Store.rowsOf_saveRecord_of_ne σ r fun e => hk e.symm]
      exact h.rows k'

/-- An in-memory store outside any block. -/
def MemoryBlocks.opened (m : MemoryContents) : MemoryBlocks MemoryFlags MemoryContents :=
  ⟨⟨false, false⟩, m, []⟩

/-- A connection outside any transaction. -/
def SqliteBlocks.opened (tables : RecordKind → Table StoredRow) :
    SqliteBlocks SqliteFlags (RecordKind → Table StoredRow) :=
  ⟨⟨false, []⟩, tables, none, [], 0⟩

/-- Whatever faults its statements meet, short of those on which SQLite itself rolls back the whole
transaction, a block of the SQLite store that raises leaves the rows that it was opened on, one that
ends keeps what its body wrote, and neither leaves the connection deeper in a transaction than it
was. -/
theorem sqlite_block_all_or_nothing (body : Code StoreOp StoreAnswer (Raised E))
    {s : SqliteBlocks SqliteFlags (RecordKind → Table StoredRow)} (hs : s.Sound) :
    let ended := SqliteBlocks.run (sqliteRules E) (.block body .done) s
    (ended.2.txDepth = s.txDepth ∧ ended.2.begun = s.begun ∧ ended.2.savepoints = s.savepoints) ∧
      (∀ e, ended.1 = .error e → ended.2.contents = s.contents) ∧
      ∀ a, ended.1 = .ok a → ∃ f, (body.run (sqliteRules E) true f s.contents).1 = .ok a ∧
        ended.2.contents = (body.run (sqliteRules E) true f s.contents).2.2 := by
  intro ended
  have hended : ended = s.after ((sqliteRules E).blockOn s.inside s.outside s.contents
      fun f => body.run (sqliteRules E) true f s.contents) :=
    SqliteBlocks.run_eq (fun _ => rfl) (.block body .done) hs
  rw [hended]
  exact ⟨⟨rfl, rfl, rfl⟩, fun e he => Rules.blockOn_raises he, fun a ha => Rules.blockOn_ends ha⟩

/-- The commit of an outermost block finds the database locked. -/
theorem sqlite_block_locked :
    let s : SqliteBlocks SqliteFlags (RecordKind → Table StoredRow) :=
      { SqliteBlocks.opened fun _ => .empty with
        outside := ⟨false, [none, none,
          some (.running ⟨"OperationalError", "database is locked"⟩)]⟩ }
    let body : Code StoreOp StoreAnswer (Raised Unit) :=
      .op (.get .message ["m1"]) fun _ => .done (.ok .done)
    (SqliteBlocks.run (sqliteRules Unit) (.block body .done) s).2.contents = fun _ => .empty := by
  intro s body
  have hs : s.Sound := ⟨by decide, fun _ => rfl⟩
  exact (sqlite_block_all_or_nothing body hs).2.1 _ rfl

end AgenticLocalApp
