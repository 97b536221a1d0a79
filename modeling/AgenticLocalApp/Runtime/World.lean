import AgenticLocalApp.Domain.RawJson
import AgenticLocalApp.Execution.Executor
import AgenticLocalApp.Library.Program
import AgenticLocalApp.Persistence.Store
import AgenticLocalApp.Resilience.CircuitBreaker
import Mathlib.Algebra.Order.BigOperators.Group.List
import Mathlib.Algebra.Order.Group.Nat

/-!
# The world of a session

What the components share, and what they ask of their surroundings.  The store never fails here:
a transaction is one update of the world.  Events are published after every write and read by
nobody the program waits for, so they are left out.
-/

namespace AgenticLocalApp

/-- The store, the token that an interruption of the session sets, and the breaker that all sessions
share. -/
structure World where
  store : Store
  token : CancellationToken := {}
  breaker : CircuitBreaker := {}

inductive IdKind where
  | session | conversation | cycle | message | failure | decision | summary | blob
  deriving DecidableEq, Repr

/-- A process that started: its task, its pid and its process group. -/
structure Spawned where
  taskId : String
  pid : Int
  processGroupId : Option Int

/-- What happened while the plan runner waited: processes started, commands ended. -/
structure WaitAnswer where
  spawned : List Spawned
  done : List (String × ExecutorOutcome)

/-- What one read of a remote conversation returns. -/
structure GetResult where
  messages : List RawJson
  cursor : Option String

/-- What the application asks of its surroundings. -/
inductive Op where
  /-- The wall clock. -/
  | now
  | monotonicMs
  /-- A new identifier. -/
  | newId (kind : IdKind)
  /-- Wait for the first of the running tasks to end, or for the interruption. -/
  | wait (running : List String)
  /-- Signal the running tasks and wait for them, at most so long; what has not come back then is
  ended by force and has no outcome. -/
  | drain (tokenReason : String) (timeoutMs : Nat) (running : List String)
  /-- Cancel the running tasks and wait for their coroutines. -/
  | settle (running : List String)
  /-- Signal the process that a task left behind, if it is still the same one. -/
  | terminateOrphan (pid : Int) (processGroupId : Option Int) (startedAt : Instant)
  /-- The remote calls.  One that fails does so with the error of a `TransportError`. -/
  | initConversation (metadata : Json)
  | postMessage (remote : String) (payload : Json)
  | waitForReply (remote : String) (after : Option String)
  | closeConversation (remote : String)
  /-- Wait so long, or for the interruption. -/
  | sleep (delayMs : Nat)

/-- What each question is answered with. -/
abbrev Op.Ans : Op → Type
  | .now => Instant
  | .monotonicMs => Int
  | .newId _ => String
  | .wait _ => WaitAnswer
  | .drain _ _ _ => WaitAnswer
  | .settle _ => Unit
  | .terminateOrphan _ _ _ => Bool
  | .initConversation _ => Except NormalizedError String
  | .postMessage _ _ => Except NormalizedError Unit
  | .waitForReply _ _ => Except NormalizedError GetResult
  | .closeConversation _ => Except NormalizedError Unit
  | .sleep _ => Unit

/-- The language of the application. -/
abbrev App : Lang where
  State := World
  Err := Exc
  Op := Op
  Ans := Op.Ans

instance {T : Type} : MonadLift (Prog App) (Prog (App.withLocal T)) := ⟨Prog.lift T⟩

def now : Prog App Instant := .query (L := App) .now

def monotonicMs : Prog App Int := .query (L := App) .monotonicMs

def newId (kind : IdKind) : Prog App String := .query (L := App) (.newId kind)

/-- Update the store. -/
def writeStore (f : Store → Store) : Prog App Unit := .update fun w => { w with store := f w.store }

def readStore : Prog App Store := do return (← .read).store

/-- The identifiers in use for a kind of record. -/
def Store.ids (σ : Store) : IdKind → List String
  | .session => σ.sessions.rows.map SessionRecord.sessionId
  | .conversation => σ.conversations.rows.map ConversationRecord.conversationId
  | .cycle => σ.cycles.rows.map CycleRecord.cycleId
  | .message => σ.messages.rows.map MessageRecord.messageId
  | .failure => σ.failures.rows.map FailureRecord.failureId
  | .decision => σ.retryDecisions.rows.map RetryDecisionRecord.decisionId
  | .summary => σ.summaries.rows.map ContextSummaryRecord.summaryId
  | .blob => σ.blobs.rows.map BlobRecord.blobId

/-- The answers that the surroundings can give. -/
def Op.Answers (σ : Store) : (op : Op) → op.Ans → Prop
  | .newId kind, id => id ∉ σ.ids kind
  | .wait running, a =>
    (∀ s ∈ a.spawned, s.taskId ∈ running) ∧ (a.done.map Prod.fst).Nodup ∧
      ∀ d ∈ a.done, d.1 ∈ running
  | .drain _ _ running, a =>
    (∀ s ∈ a.spawned, s.taskId ∈ running) ∧ (a.done.map Prod.fst).Nodup ∧
      ∀ d ∈ a.done, d.1 ∈ running
  | _, _ => True

/-- An identifier longer than every one in use. -/
def freshId (ids : List String) : String :=
  String.ofList (List.replicate ((ids.map String.length).sum + 1) 'x')

theorem freshId_notMem (ids : List String) : freshId ids ∉ ids := by
  intro h
  have hle := List.le_sum_of_mem (List.mem_map_of_mem (f := String.length) h)
  simp only [freshId, String.length_ofList, List.length_replicate] at hle
  omega

/-- The answers of surroundings in which nothing goes wrong and nothing happens. -/
def Op.answer (σ : Store) : (op : Op) → op.Ans
  | .now => (0 : Int)
  | .monotonicMs => (0 : Int)
  | .newId kind => freshId (σ.ids kind)
  | .wait _ => ⟨[], []⟩
  | .drain _ _ _ => ⟨[], []⟩
  | .settle _ => ()
  | .terminateOrphan _ _ _ => false
  | .initConversation _ => .ok "remote"
  | .postMessage _ _ => .ok ()
  | .waitForReply _ _ => .ok ⟨[], none⟩
  | .closeConversation _ => .ok ()
  | .sleep _ => ()

theorem Op.answers_answer (σ : Store) (op : Op) : op.Answers σ (op.answer σ) := by
  cases op <;> simp [Op.Answers, Op.answer, freshId_notMem]

/-! ## Rules -/

section Rules

open Prog

variable {C : Contract App} {w : World}

@[simp] theorem wp_raise {α : Type} (e : Exc) (Q) :
    wp C (throw e : Prog App α) Q w ↔ Q (.error e) w := Iff.rfl

@[simp] theorem wp_readStore (Q) : wp C readStore Q w ↔ Q (.ok w.store) w := Iff.rfl

@[simp] theorem wp_writeStore (f : Store → Store) (Q) :
    wp C (writeStore f) Q w ↔
      C.guar w { w with store := f w.store } ∧ Q (.ok ()) { w with store := f w.store } := Iff.rfl

theorem wp_lift_app {T : Type} {α : Type} {p : Prog App α} {t : T} {Q}
    (h : wp C p (fun r w => Q r (w, t)) w) :
    wp (C.withLocal T) (liftM p : Prog (App.withLocal T) α) Q (w, t) :=
  wp_lift_withLocal h

/-- Clocks and identifiers do not suspend the program: nobody else runs while they are read. -/
structure Quiet (C : Contract App) : Prop where
  now : ∀ w a w', C.rely .now w a w' → w' = w
  monotonicMs : ∀ w a w', C.rely .monotonicMs w a w' → w' = w
  newId : ∀ kind w a w', C.rely (.newId kind) w a w' → w' = w ∧ a ∉ w.store.ids kind
  wait_now : ∀ w, C.wait .now w
  wait_monotonicMs : ∀ w, C.wait .monotonicMs w
  wait_newId : ∀ kind w, C.wait (.newId kind) w

theorem wp_now (hC : Quiet C) {Q} (h : ∀ t, Q (.ok t) w) : wp C now Q w :=
  ⟨hC.wait_now w, fun t w' hw => by rw [hC.now w t w' hw]; exact h t⟩

theorem wp_monotonicMs (hC : Quiet C) {Q} (h : ∀ t, Q (.ok t) w) : wp C monotonicMs Q w :=
  ⟨hC.wait_monotonicMs w, fun t w' hw => by rw [hC.monotonicMs w t w' hw]; exact h t⟩

theorem wp_newId (hC : Quiet C) {kind : IdKind} {Q} (h : ∀ id, id ∉ w.store.ids kind → Q (.ok id) w) :
    wp C (newId kind) Q w :=
  ⟨hC.wait_newId kind w, fun id w' hw => by
    obtain ⟨rfl, hid⟩ := hC.newId kind w id w' hw
    exact h id hid⟩

end Rules

end AgenticLocalApp
