import AgenticLocalApp.Domain.JsonText
import AgenticLocalApp.Domain.Records
import AgenticLocalApp.Persistence.BlobStores

/-!
# The audit events in the two stores

An append-only list of events, numbered from one for each session.  The in-memory store keeps the
events themselves; the SQLite store keeps the instant of a timestamp, which it reads back in UTC,
and the canonical text of a payload.
-/

namespace AgenticLocalApp

/-! ## Timestamps -/

/-- A `datetime`: the instant in microseconds, and its distance from UTC in seconds.  Without one
the value is naive, and the instant is that of the local clock. -/
structure Timestamp where
  instant : Instant
  offset : Option Int
  deriving DecidableEq

namespace Timestamp

def padded (width : Nat) (n : Nat) : List Char :=
  let digits := Nat.toDigits 10 n
  List.replicate (width - digits.length) '0' ++ digits

/-- Year, month and day of a number of days since 1970-01-01, the year starting in March. -/
def civil (days : Int) : Int × Int × Int :=
  let z := days + 719468
  let era := z / 146097
  let doe := z % 146097
  let yoe := (doe - doe / 1460 + doe / 36524 - doe / 146096) / 365
  let doy := doe - (365 * yoe + yoe / 4 - yoe / 100)
  let mp := (5 * doy + 2) / 153
  let day := doy - (153 * mp + 2) / 5 + 1
  let month := if mp < 10 then mp + 3 else mp - 9
  (yoe + era * 400 + if month ≤ 2 then 1 else 0, month, day)

/-- The distance from UTC as it is printed. -/
def offsetText (seconds : Int) : List Char :=
  let n := seconds.natAbs
  (if seconds < 0 then '-' else '+') :: padded 2 (n / 3600) ++ ':' :: padded 2 (n / 60 % 60) ++
    if n % 60 = 0 then [] else ':' :: padded 2 (n % 60)

/-- `isoformat`. -/
def isoformat (t : Timestamp) : String :=
  let clock := t.instant + t.offset.getD 0 * 1000000
  let (year, month, day) := civil (clock / 86400000000)
  let micros := (clock % 86400000000).toNat
  let seconds := micros / 1000000
  let fraction := micros % 1000000
  .ofList <|
    padded 4 year.toNat ++ '-' :: padded 2 month.toNat ++ '-' :: padded 2 day.toNat ++ 'T' ::
    padded 2 (seconds / 3600) ++ ':' :: padded 2 (seconds / 60 % 60) ++ ':' ::
    padded 2 (seconds % 60) ++ (if fraction = 0 then [] else '.' :: padded 6 fraction) ++
    t.offset.elim [] offsetText

example : isoformat ⟨1767225600000000, some 0⟩ = "2026-01-01T00:00:00+00:00" := by decide +kernel
example : isoformat ⟨1767225600000001, some 5400⟩ = "2026-01-01T01:30:00.000001+01:30" := by
  decide +kernel

end Timestamp

/-! ## The record -/

structure AuditEvent where
  eventId : String
  sequence : Nat
  previousEventHash : String
  eventHash : String
  sessionId : String
  conversationId : Option String
  cycleId : Option String
  planId : Option String
  taskId : Option String
  eventType : String
  timestamp : Timestamp
  payload : Json

/-- The part of the store interface that audit events go through. -/
structure AuditStore where
  State : Type
  empty : State
  append : State → AuditEvent → Except Exc State
  /-- `get_last_audit_event`. -/
  last : State → String → Except Exc (Option AuditEvent)
  /-- `list_audit_events`, of the events after a sequence. -/
  list : State → (sid : String) → (afterSequence : Option Nat) → (limit : Int) →
    Except Exc (List AuditEvent)

def appendOnlyViolation (e : AuditEvent) : Exc :=
  .app (persistenceError "AUDIT_APPEND_ONLY_VIOLATION" false
    [("event_id", .str e.eventId), ("sequence", .int e.sequence)])

def sequenceGap (expected got : Nat) : Exc :=
  .app (persistenceError "AUDIT_SEQUENCE_GAP" false
    [("expected", .int expected), ("got", .int got)])

/-- The sequence comes after the one given, if any. -/
def isAfter (afterSequence : Option Nat) (sequence : Nat) : Bool :=
  match afterSequence with
  | none => true
  | some n => n < sequence

/-! ## The in-memory store -/

/-- `rows[:limit]`. -/
def sliceTo {α : Type} (rows : List α) (limit : Int) : List α :=
  if 0 ≤ limit then rows.take limit.toNat else rows.take (rows.length + limit).toNat

namespace MemoryAudit

/-- The chain of a session; the events of all sessions are kept in the order they came in. -/
def chain (σ : List AuditEvent) (sid : String) : List AuditEvent :=
  σ.filter fun e => e.sessionId = sid

def append (σ : List AuditEvent) (e : AuditEvent) : Except Exc (List AuditEvent) :=
  let chain := chain σ e.sessionId
  if (chain.any fun x => x.sequence = e.sequence) || σ.any fun x => x.eventId = e.eventId then
    .error (appendOnlyViolation e)
  else
    match chain.getLast? with
    | some last =>
      if e.sequence ≠ last.sequence + 1 then .error (sequenceGap (last.sequence + 1) e.sequence)
      else .ok (σ ++ [e])
    | none => .ok (σ ++ [e])

def list (σ : List AuditEvent) (sid : String) (afterSequence : Option Nat) (limit : Int) :
    List AuditEvent :=
  sliceTo ((chain σ sid).filter fun e => isAfter afterSequence e.sequence) limit

end MemoryAudit

def memoryAudit : AuditStore where
  State := List AuditEvent
  empty := []
  append := MemoryAudit.append
  last σ sid := .ok (MemoryAudit.chain σ sid).getLast?
  list σ sid afterSequence limit := .ok (MemoryAudit.list σ sid afterSequence limit)

/-! ## The SQLite store -/

/-- A row of the table `audit_events`: the instant of the timestamp, whose text is in UTC, and the
text of the payload. -/
structure AuditRow where
  eventId : String
  sequence : Nat
  previousEventHash : String
  eventHash : String
  sessionId : String
  conversationId : Option String
  cycleId : Option String
  planId : Option String
  taskId : Option String
  eventType : String
  timestamp : Instant
  payload : List Char

/-- The integers that SQLite stores are below this bound. -/
def sqliteIntegerBound : Nat := 2 ^ 63

/-- The integers that SQLite takes for a parameter. -/
def BindsInteger (n : Int) : Prop := -sqliteIntegerBound ≤ n ∧ n < sqliteIntegerBound

instance (n : Int) : Decidable (BindsInteger n) := inferInstanceAs (Decidable (_ ∧ _))

/-- The `OverflowError` of the driver, which no caller tells from a `ValueError`. -/
def bindOverflow : Exc := .valueError "Python int too large to convert to SQLite INTEGER"

namespace AuditRow

/-- The row of an event whose timestamp is aware and whose sequence SQLite can store. -/
def of (e : AuditEvent) : AuditRow where
  eventId := e.eventId
  sequence := e.sequence
  previousEventHash := e.previousEventHash
  eventHash := e.eventHash
  sessionId := e.sessionId
  conversationId := e.conversationId
  cycleId := e.cycleId
  planId := e.planId
  taskId := e.taskId
  eventType := e.eventType
  timestamp := e.timestamp.instant
  payload := e.payload.canonical

def encode (e : AuditEvent) : Except Exc AuditRow :=
  if e.timestamp.offset = none then
    .error (.app (persistenceError "DATETIME_NOT_TZ_AWARE" false [("field", .str "timestamp")]))
  else if sqliteIntegerBound ≤ e.sequence then
    .error bindOverflow
  else .ok (of e)

def decode (row : AuditRow) : Except Exc AuditEvent :=
  match Json.loads row.payload with
  | none => .error (.app (persistenceError "RECORD_INVALID" false [("table", .str "audit_events")]))
  | some payload => .ok
    { eventId := row.eventId
      sequence := row.sequence
      previousEventHash := row.previousEventHash
      eventHash := row.eventHash
      sessionId := row.sessionId
      conversationId := row.conversationId
      cycleId := row.cycleId
      planId := row.planId
      taskId := row.taskId
      eventType := row.eventType
      timestamp := ⟨row.timestamp, some 0⟩
      payload := payload }

end AuditRow

namespace SqliteAudit

def ofSession (σ : List AuditRow) (sid : String) : List AuditRow :=
  σ.filter fun r => r.sessionId = sid

/-- `SELECT MAX("sequence")`. -/
def maxSequence (σ : List AuditRow) (sid : String) : Option Nat :=
  ((ofSession σ sid).map AuditRow.sequence).max?

def append (σ : List AuditRow) (e : AuditEvent) : Except Exc (List AuditRow) :=
  if σ.any fun r => r.eventId = e.eventId || r.sessionId = e.sessionId && r.sequence = e.sequence then
    .error (appendOnlyViolation e)
  else
    match maxSequence σ e.sessionId with
    | some last =>
      if e.sequence ≠ last + 1 then .error (sequenceGap (last + 1) e.sequence)
      else (AuditRow.encode e).map fun row => σ ++ [row]
    | none => (AuditRow.encode e).map fun row => σ ++ [row]

/-- `ORDER BY "sequence" DESC LIMIT 1`. -/
def last (σ : List AuditRow) (sid : String) : Except Exc (Option AuditEvent) :=
  match ((ofSession σ sid).insertionSort fun a b => b.sequence ≤ a.sequence).head? with
  | none => .ok none
  | some row => row.decode.map some

/-- `AND "sequence" > ? ORDER BY "sequence" ASC LIMIT ?`, a negative limit being none. -/
@[irreducible] def list (σ : List AuditRow) (sid : String) (afterSequence : Option Nat) (limit : Int) :
    Except Exc (List AuditEvent) :=
  if ¬ BindsInteger (afterSequence.getD 0) ∨ ¬ BindsInteger limit then .error bindOverflow
  else
    let rows := ((ofSession σ sid).filter fun r => isAfter afterSequence r.sequence).insertionSort
      fun a b => a.sequence ≤ b.sequence
    (if 0 ≤ limit then rows.take limit.toNat else rows).mapM AuditRow.decode

end SqliteAudit

def sqliteAudit : AuditStore where
  State := List AuditRow
  empty := []
  append := SqliteAudit.append
  last := SqliteAudit.last
  list := SqliteAudit.list

def StoreKind.audit : StoreKind → AuditStore
  | .memory => memoryAudit
  | .sqlite => sqliteAudit

/-- The store takes the integer for a parameter. -/
def StoreKind.Binds (kind : StoreKind) (n : Int) : Prop := kind = .sqlite → BindsInteger n

instance (kind : StoreKind) (n : Int) : Decidable (kind.Binds n) := inferInstanceAs (Decidable (_ → _))

end AgenticLocalApp
