import AgenticLocalApp.Execution.Executor
import AgenticLocalApp.Observability.AuditLog
import AgenticLocalApp.Observability.AuditStores

/-!
# The live event stream

The broker is told of every event on the bus, after the audit log, and puts a frame into the queue
of each client that the event is for.  A client that names a position first has the audited events
after it replayed from the store.  The clients do not see each other, so one of them is followed.
-/

namespace AgenticLocalApp

/-! ## Events and frames -/

/-- An event on the bus, as far as the broker looks at it. -/
structure BusEvent where
  sessionId : String
  taskId : Option String := none
  eventType : EventType
  deriving DecidableEq, Repr

/-- `audited`: everything but the live output of the tasks. -/
def BusEvent.audited (e : BusEvent) : Bool := e.eventType ≠ .taskOutput

/-- An audited event, with the sequence that it has in the chain of its session. -/
structure LoggedEvent where
  event : BusEvent
  sequence : Nat
  deriving DecidableEq, Repr

/-- A frame, with what its identifier says. -/
inductive SseFrame where
  /-- `"<sequence>"` -/
  | logged (e : LoggedEvent)
  /-- `"<sequence>.<n>"`, of an event that is not audited. -/
  | live (e : BusEvent) (sequence n : Nat)
  deriving DecidableEq, Repr

namespace SseFrame

/-- What `parse_event_id` makes of the identifier of a frame. -/
def key : SseFrame → Nat × Nat
  | logged e => (e.sequence, 0)
  | live _ sequence n => (sequence, n)

def event : SseFrame → BusEvent
  | logged e => e.event
  | live e _ _ => e

/-- The audited event of a frame, if it is one. -/
def logged? : SseFrame → Option LoggedEvent
  | logged e => some e
  | live _ _ _ => none

end SseFrame

/-- `<=` on pairs. -/
def keyLe (a b : Nat × Nat) : Bool := a.1 < b.1 || a.1 = b.1 && a.2 ≤ b.2

/-- What Unicode says of characters: `str.isdigit`, and the digit that `int` reads. -/
structure UnicodeDigits where
  isDigit : Char → Bool
  decimal : Char → Option Nat

/-- `int`, of digits, of which there may not be more than 4300. -/
def UnicodeDigits.toInt (u : UnicodeDigits) (cs : List Char) : Except Exc Nat :=
  if 4300 < cs.length then .error (.valueError "Exceeds the limit (4300 digits)")
  else
    match cs.mapM u.decimal with
    | some digits => .ok (digits.foldl (fun n d => 10 * n + d) 0)
    | none => .error (.valueError "invalid literal for int() with base 10")

/-- `parse_event_id`. -/
def parseEventId (u : UnicodeDigits) (value : Option String) : Except Exc (Option (Nat × Nat)) :=
  match value with
  | none => .ok none
  | some value => do
    let cs := (strip value).toList
    let sequence := cs.takeWhile (· ≠ '.')
    let tail := (cs.dropWhile (· ≠ '.')).drop 1
    if sequence = [] ∨ ¬ sequence.all u.isDigit ∨ tail ≠ [] ∧ ¬ tail.all u.isDigit then return none
    else
      let n ← u.toInt sequence
      let m ← if tail = [] then pure 0 else u.toInt tail
      return some (n, m)

/-! ## The client -/

/-- What a client asks for. -/
structure Subscription where
  sessionId : Option String := none
  taskId : Option String := none
  eventTypes : Option (List EventType) := none
  lastEventId : Option String := none

/-- `accepts_audit`. -/
def Subscription.acceptsAudit (s : Subscription) (e : BusEvent) : Bool :=
  (s.taskId = none || e.taskId = s.taskId) && s.eventTypes.all fun types => e.eventType ∈ types

/-- `accepts`. -/
def Subscription.accepts (s : Subscription) (e : BusEvent) : Bool :=
  (s.sessionId = none || some e.sessionId = s.sessionId) && s.acceptsAudit e

inductive StreamEnd where
  | dropped | closed
  /-- The consumer stops reading. -/
  | stopped
  /-- An exception ends the stream. -/
  | raised
  deriving DecidableEq, Repr

/-- Where the generator of a stream stands. -/
inductive StreamPhase where
  | unread
  /-- A page of the events after `cursor` is about to be read. -/
  | reading (cursor : Nat)
  /-- The rest of a page; it is the last one, or the next one starts after `cursor`. -/
  | replaying (rest : List LoggedEvent) (last : Bool) (cursor : Nat)
  | live
  | ended (why : StreamEnd)
  deriving DecidableEq, Repr

inductive QueueItem where
  | frame (f : SseFrame)
  | dropped
  | closed
  deriving DecidableEq, Repr

structure SseClient where
  phase : StreamPhase := .unread
  active : Bool := true
  position : Option (Nat × Nat) := none
  queue : List QueueItem := []
  /-- The frames that the loop of the client has been asked to enqueue, oldest first. -/
  scheduled : List SseFrame := []
  delivered : List SseFrame := []
  /-- The frames that were left out as delivered already. -/
  skipped : List SseFrame := []

namespace SseClient

variable (queueSize : Nat) (c : SseClient)

/-- `_signal`, into a queue with one place more than the frames have. -/
def signal (item : QueueItem) : SseClient :=
  if queueSize < c.queue.length then { c with queue := c.queue.tail ++ [item] }
  else { c with queue := c.queue ++ [item] }

/-- `_enqueue`: a client that is too slow is dropped. -/
def enqueue (f : SseFrame) : SseClient :=
  if ¬ c.active then c
  else if queueSize ≤ c.queue.length then signal queueSize { c with active := false } .dropped
  else { c with queue := c.queue ++ [.frame f] }

end SseClient

/-! ## The broker -/

/-- Where the publisher of an event runs. -/
inductive Publisher where
  /-- On the event loop of the client. -/
  | loop
  /-- In another thread. -/
  | thread
  /-- In another thread, once the loop of the client is closed. -/
  | afterLoop
  deriving DecidableEq, Repr

/-- `REPLAY_PAGE_SIZE`. -/
def replayPageSize : Nat := 500

structure SseBroker where
  /-- The audited events, in the order they were published in. -/
  log : List LoggedEvent := []
  /-- `_tail`. -/
  tail : String → Nat := fun _ => 0
  closed : Bool := false
  /-- How many audited events there were when the client was registered. -/
  since : Option Nat := none
  client : SseClient := {}

namespace SseBroker

variable (kind : StoreKind) (queueSize : Nat) (u : UnicodeDigits) (sub : Subscription) (b : SseBroker)

/-- The events of a session. -/
def chain (sid : String) : List LoggedEvent := b.log.filter fun e => e.event.sessionId = sid

/-- `_current_sequence`. -/
def currentSequence (sid : String) : Nat := (b.chain sid).getLast?.elim 0 LoggedEvent.sequence

/-- `_advance`: the frame of an event, the audit log having chained it if it is audited. -/
def advance (e : BusEvent) : SseFrame × SseBroker :=
  if e.audited then
    let logged : LoggedEvent := ⟨e, b.currentSequence e.sessionId + 1⟩
    (.logged logged,
      { b with log := b.log ++ [logged], tail := Function.update b.tail e.sessionId 0 })
  else
    let count := b.tail e.sessionId + 1
    (.live e (b.currentSequence e.sessionId) count,
      { b with tail := Function.update b.tail e.sessionId count })

/-- `_offer`. -/
def offer (f : SseFrame) (publisher : Publisher) : SseBroker :=
  match publisher with
  | .loop => { b with client := b.client.enqueue queueSize f }
  | .thread => { b with client := { b.client with scheduled := b.client.scheduled ++ [f] } }
  | .afterLoop => { b with client := { b.client with active := false } }

/-- An event is published: the audit log chains it, then `handle` is called. -/
def publish (e : BusEvent) (publisher : Publisher) : SseBroker :=
  let advanced := b.advance e
  if b.closed ∨ b.since = none ∨ ¬ b.client.active ∨ ¬ sub.accepts e then
    -- a broker that is closed does not number the live output any more
    if b.closed then { advanced.2 with tail := b.tail } else advanced.2
  else advanced.2.offer queueSize advanced.1 publisher

/-- The store has an integer for the number of the event; otherwise the audit log raises. -/
def Chains (e : BusEvent) : Prop :=
  e.audited = true → kind.Binds ((b.currentSequence e.sessionId + 1 : Nat) : Int)

instance (e : BusEvent) : Decidable (b.Chains kind e) := inferInstanceAs (Decidable (_ → _))

/-- The events of a session behind a position. -/
def eventsAfter (sid : String) (afterSequence limit : Nat) : List LoggedEvent :=
  ((b.chain sid).filter fun e => afterSequence < e.sequence).take limit

/-- `list_audit_events`, which raises where the store does not take its integers. -/
def listAuditEvents (sid : String) (afterSequence limit : Nat) : Except Exc (List LoggedEvent) :=
  if kind.Binds afterSequence ∧ kind.Binds limit then .ok (b.eventsAfter sid afterSequence limit)
  else .error bindOverflow

/-- `subscribe`, up to its first page or its first frame. -/
def subscribe : SseBroker :=
  let registered := { b with since := some b.log.length }
  match parseEventId u sub.lastEventId with
  | .error _ => { registered with client := { b.client with phase := .ended .raised, active := false } }
  | .ok position =>
    match position, sub.sessionId with
    | some p, some _ =>
      { registered with client := { b.client with phase := .reading p.1, position := some p } }
    | position, _ => { registered with client := { b.client with phase := .live, position := position } }

/-- A page of the replay is read. -/
def readPage (cursor : Nat) : SseBroker :=
  match b.listAuditEvents kind (sub.sessionId.getD "") cursor replayPageSize with
  | .error _ => { b with client := { b.client with phase := .ended .raised, active := false } }
  | .ok page =>
    let next := page.getLast?.elim cursor LoggedEvent.sequence
    { b with
      client := { b.client with phase := .replaying page (page.length < replayPageSize) next } }

/-- The next event of a page, or the end of the page. -/
def replayNext (rest : List LoggedEvent) (last : Bool) (cursor : Nat) : SseBroker :=
  match rest with
  | [] => { b with client := { b.client with phase := if last then .live else .reading cursor } }
  | e :: rest =>
    if sub.acceptsAudit e.event then
      { b with client := { b.client with
          phase := .replaying rest last cursor
          position := some (e.sequence, 0)
          delivered := b.client.delivered ++ [.logged e] } }
    else { b with client := { b.client with phase := .replaying rest last cursor } }

/-- The next item of the queue; without one the client is sent a heartbeat or waits. -/
def next : SseBroker :=
  match b.client.queue with
  | [] => b
  | .dropped :: queue =>
    { b with client := { b.client with queue := queue, phase := .ended .dropped, active := false } }
  | .closed :: queue =>
    { b with client := { b.client with queue := queue, phase := .ended .closed, active := false } }
  | .frame f :: queue =>
    if b.client.position.any (keyLe f.key) then
      { b with client := { b.client with queue := queue, skipped := b.client.skipped ++ [f] } }
    else { b with client := { b.client with queue := queue, delivered := b.client.delivered ++ [f] } }

/-- The generator goes on. -/
def read : SseBroker :=
  match b.client.phase with
  | .unread => b.subscribe u sub
  | .reading cursor => b.readPage kind sub cursor
  | .replaying rest last cursor => b.replayNext sub rest last cursor
  | .live => b.next
  | .ended _ => b

/-- The loop of the client runs what it was asked to first. -/
def callback : SseBroker :=
  match b.client.scheduled with
  | [] => b
  | f :: scheduled => { b with client := { b.client with scheduled := scheduled }.enqueue queueSize f }

/-- `close`. -/
def close : SseBroker :=
  if b.since.isSome ∧ b.client.active then
    { b with
      closed := true
      client := SseClient.signal queueSize { b.client with active := false } .closed }
  else { b with closed := true }

/-- The consumer stops. -/
def stop : SseBroker :=
  match b.client.phase with
  | .unread | .ended _ => b
  | _ => { b with client := { b.client with phase := .ended .stopped, active := false } }

end SseBroker

/-! ## Runs -/

inductive SseStep where
  | publish (e : BusEvent) (publisher : Publisher)
  | read
  | callback
  | close
  | stop
  deriving DecidableEq, Repr

namespace SseBroker

variable (kind : StoreKind) (queueSize : Nat) (u : UnicodeDigits) (sub : Subscription)

def step (b : SseBroker) : SseStep → SseBroker
  | .publish e publisher =>
    -- the audit log is the first subscriber, and what it raises ends the publication
    if b.Chains kind e then b.publish queueSize sub e publisher else b
  | .read => b.read kind u sub
  | .callback => b.callback queueSize
  | .close => b.close queueSize
  | .stop => b.stop

def run (steps : List SseStep) : SseBroker := steps.foldl (step kind queueSize u sub) {}

end SseBroker

end AgenticLocalApp
