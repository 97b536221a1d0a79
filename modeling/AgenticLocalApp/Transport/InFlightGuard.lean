import AgenticLocalApp.Domain.Errors
import Mathlib.Data.List.Induction

/-!
# Calls in flight

Each call runs in a task of its own.  To abandon the calls is to cancel their tasks and to mark
them: what the caller of a marked task then gets is the error of an abandoned call, unless the task
returned all the same.  A cancellation that comes from elsewhere reaches the caller as it is.
-/

namespace AgenticLocalApp

namespace InFlight

/-- What the await of a task comes to. -/
inductive Awaited (α : Type) where
  | returned (a : α)
  | raised (e : Exc)
  | cancelled

/-- The error of a call that was abandoned. -/
def abandonedError (operation : String) : Exc :=
  .transport (mkError .interrupted "ABANDONED" "TransportGateway" [("operation", .str operation)])

/-- `InFlightGuard`: the tasks of the calls, which are numbered as they start, and those marked. -/
structure InFlightGuard where
  inFlight : List (Nat × String) := []
  abandoned : List Nat := []
  deriving DecidableEq

namespace InFlightGuard

/-- `count`. -/
def count (g : InFlightGuard) : Nat := g.inFlight.length

/-- The start of `run`. -/
def enter (task : Nat) (operation : String) (g : InFlightGuard) : InFlightGuard :=
  { g with inFlight := g.inFlight ++ [(task, operation)] }

/-- The end of `run`, once its await has come to something. -/
def leave {α : Type} (task : Nat) (operation : String) (awaited : Awaited α) (g : InFlightGuard) :
    Awaited α × InFlightGuard :=
  (match awaited with
    | .returned a => .returned a
    | failed => if task ∈ g.abandoned then .raised (abandonedError operation) else failed,
    { inFlight := g.inFlight.filter fun call => call.1 ≠ task
      abandoned := g.abandoned.filter fun other => other ≠ task })

/-- `abandon`, where these tasks are done: the others are cancelled and marked. -/
def abandon (done : List Nat) (g : InFlightGuard) : InFlightGuard :=
  { g with
    abandoned := g.abandoned ++ (g.inFlight.map Prod.fst).filter fun task =>
      task ∉ done ∧ task ∉ g.abandoned }

end InFlightGuard

/-! ## Runs -/

/-- What happens to the guard and to the tasks, in any order. -/
inductive Event (α : Type) where
  | start (operation : String)
  /-- The task has come to its end, whatever that is. -/
  | finish (task : Nat)
  /-- The caller of the task goes on. -/
  | resume (task : Nat) (awaited : Awaited α)
  | abandon

structure Calls where
  guard : InFlightGuard := {}
  started : Nat := 0
  done : List Nat := []

variable {α : Type}

def Calls.step (s : Calls) : Event α → Calls
  | .start operation =>
    { s with guard := s.guard.enter s.started operation, started := s.started + 1 }
  | .finish task => { s with done := task :: s.done }
  | .resume task awaited => { s with guard := (s.guard.leave task "" awaited).2 }
  | .abandon => { s with guard := s.guard.abandon s.done }

def Calls.run (events : List (Event α)) : Calls := events.foldl Calls.step {}

/-- The operations of the calls, in the order in which they started. -/
def operations (events : List (Event α)) : List String :=
  events.filterMap fun
    | .start operation => some operation
    | _ => none

def Event.resumes (task : Nat) : Event α → Bool
  | .resume other _ => other = task
  | _ => false

def Event.finishes (task : Nat) : Event α → Bool
  | .finish other => other = task
  | _ => false

/-- The calls were abandoned after this one had started and before its task had come to an end. -/
def AbandonedIn (events : List (Event α)) (task : Nat) : Prop :=
  ∃ before later, events = before ++ .abandon :: later ∧ task < (operations before).length ∧
    ∀ e ∈ before, e.finishes task = false

/-- The caller of a task goes on after the task has started. -/
inductive Orderly : List (Event α) → Prop
  | nil : Orderly []
  | concat {events : List (Event α)} {e : Event α} (h : Orderly events)
      (he : ∀ task, e.resumes task = true → task < (operations events).length) :
      Orderly (events ++ [e])

section Runs

variable {events : List (Event α)} {task : Nat} {operation : String}

theorem run_concat (events : List (Event α)) (e : Event α) :
    Calls.run (events ++ [e]) = (Calls.run events).step e := by
  simp [Calls.run]

theorem operations_concat (events : List (Event α)) (e : Event α) : operations (events ++ [e]) =
    operations events ++ (match e with | .start operation => [operation] | _ => []) := by
  unfold operations
  rw [List.filterMap_append]
  cases e <;> rfl

theorem started_eq (events : List (Event α)) :
    (Calls.run events).started = (operations events).length := by
  induction events using List.reverseRecOn with
  | nil => rfl
  | append_singleton events e ih =>
    rw [run_concat, operations_concat, List.length_append, ← ih]
    cases e <;> rfl

theorem mem_done : task ∈ (Calls.run events).done ↔ ∃ e ∈ events, e.finishes task = true := by
  induction events using List.reverseRecOn with
  | nil => simp [Calls.run]
  | append_singleton events e ih =>
    rw [run_concat]
    have hstep : task ∈ ((Calls.run events).step e).done ↔
        task ∈ (Calls.run events).done ∨ e.finishes task = true := by
      cases e with
      | finish other => simp [Calls.step, Event.finishes, or_comm, eq_comm]
      | start | resume | abandon => simp [Calls.step, Event.finishes]
    rw [hstep, ih]
    simp [or_and_right, exists_or]

theorem Orderly.resumed (h : Orderly events) :
    ∀ e ∈ events, e.resumes task = true → task < (operations events).length := by
  induction h with
  | nil => exact List.forall_mem_nil _
  | @concat events last h he ih =>
    intro e hmem hresumes
    have hle : (operations events).length ≤ (operations (events ++ [last])).length := by
      rw [operations_concat, List.length_append]
      exact Nat.le_add_right _ _
    rcases List.mem_append.1 hmem with hmem | hmem
    · exact (ih e hmem hresumes).trans_le hle
    · obtain rfl := List.mem_singleton.1 hmem
      exact (he task hresumes).trans_le hle

/-- A call is in flight until its caller goes on. -/
theorem mem_inFlight (h : Orderly events) :
    (task, operation) ∈ (Calls.run events).guard.inFlight ↔
      (operations events)[task]? = some operation ∧ ∀ e ∈ events, e.resumes task = false := by
  induction h with
  | nil => simp [Calls.run, operations]
  | @concat events e h he ih =>
    rw [run_concat, operations_concat, List.forall_mem_append, List.forall_mem_singleton]
    cases e with
    | start started =>
      have hsame : (Event.start started : Event α).resumes task = false := rfl
      change (task, operation) ∈ (Calls.run events).guard.inFlight ++
        [((Calls.run events).started, started)] ↔ _
      rw [List.mem_append, ih, List.mem_singleton, started_eq, Prod.mk.injEq]
      by_cases hlast : task = (operations events).length
      · -- nobody has gone on from a call that is only now starting
        have hnone : ∀ e ∈ events, e.resumes task = false := fun e hmem => by
          by_contra hresumes
          have hlt := h.resumed e hmem (by simpa using hresumes)
          omega
        subst hlast
        rw [List.getElem?_eq_none le_rfl, List.getElem?_concat_length]
        simp only [reduceCtorEq, false_and, false_or, true_and, Option.some.injEq, hsame, and_true]
        exact ⟨fun heq => ⟨heq.symm, hnone⟩, fun heq => heq.1.symm⟩
      · simp only [hlast, false_and, or_false, hsame, and_true]
        by_cases hlt : task < (operations events).length
        · rw [List.getElem?_append_left hlt]
        · have hbeyond : (operations events).length + 1 ≤ task := by omega
          have hlength : (operations events ++ [started]).length ≤ task := by
            simpa using hbeyond
          have hle : (operations events).length ≤ task := by omega
          rw [List.getElem?_eq_none hlength, List.getElem?_eq_none hle]
    | finish other =>
      rw [List.append_nil]
      simpa [Calls.step, Event.resumes] using ih
    | abandon =>
      rw [List.append_nil]
      simpa [Calls.step, InFlightGuard.abandon, Event.resumes] using ih
    | resume other awaited =>
      rw [List.append_nil]
      simp only [Calls.step, InFlightGuard.leave, List.mem_filter, ih, and_assoc]
      refine and_congr_right fun _ => and_congr_right fun _ => ?_
      change decide (task ≠ other) = true ↔ decide (other = task) = false
      rw [decide_eq_true_eq, decide_eq_false_iff_not]
      exact ne_comm

theorem abandonedIn_concat {e : Event α} : AbandonedIn (events ++ [e]) task ↔
    AbandonedIn events task ∨ e = .abandon ∧ task < (operations events).length ∧
      ∀ e ∈ events, e.finishes task = false := by
  constructor
  · rintro ⟨before, later, heq, hstarted, hrunning⟩
    rcases List.eq_nil_or_concat later with rfl | ⟨rest, last, rfl⟩
    · obtain ⟨rfl, hlast⟩ := List.append_inj' heq rfl
      exact .inr ⟨List.singleton_inj.1 hlast, hstarted, hrunning⟩
    · rw [List.concat_eq_append, ← List.cons_append, ← List.append_assoc] at heq
      obtain ⟨rfl, -⟩ := List.append_inj' heq rfl
      exact .inl ⟨before, rest, rfl, hstarted, hrunning⟩
  · rintro (⟨before, later, rfl, hstarted, hrunning⟩ | ⟨rfl, hstarted, hrunning⟩)
    · exact ⟨before, later ++ [e], by simp, hstarted, hrunning⟩
    · exact ⟨events, [], rfl, hstarted, hrunning⟩

theorem AbandonedIn.started (h : AbandonedIn events task) : task < (operations events).length := by
  obtain ⟨before, later, rfl, hstarted, -⟩ := h
  unfold operations at hstarted ⊢
  rw [List.filterMap_append, List.length_append]
  omega

theorem mem_filter_keys {calls : List (Nat × String)} {other : Nat} :
    task ∈ (calls.filter fun call => call.1 ≠ other).map Prod.fst ↔
      task ∈ calls.map Prod.fst ∧ task ≠ other := by
  simp only [List.mem_map, List.mem_filter, decide_eq_true_eq]
  constructor
  · rintro ⟨call, ⟨hmem, hne⟩, rfl⟩
    exact ⟨⟨call, hmem, rfl⟩, hne⟩
  · rintro ⟨⟨call, hmem, rfl⟩, hne⟩
    exact ⟨call, ⟨hmem, hne⟩, rfl⟩

theorem lt_of_inFlight (h : Orderly events)
    (hmem : task ∈ (Calls.run events).guard.inFlight.map Prod.fst) :
    task < (operations events).length := by
  obtain ⟨⟨task', operation⟩, hcall, rfl⟩ := List.mem_map.1 hmem
  exact (List.getElem?_eq_some_iff.1 ((mem_inFlight h).1 hcall).1).1

/-- The marked tasks are those of the calls in flight that were abandoned. -/
theorem mem_abandoned (h : Orderly events) : task ∈ (Calls.run events).guard.abandoned ↔
    task ∈ (Calls.run events).guard.inFlight.map Prod.fst ∧ AbandonedIn events task := by
  induction h with
  | nil => simp [Calls.run]
  | @concat events e h he ih =>
    rw [run_concat, abandonedIn_concat]
    cases e with
    | start operation =>
      simp only [Calls.step, InFlightGuard.enter, ih, List.map_append, List.mem_append,
        reduceCtorEq, false_and, or_false, List.map_cons, List.map_nil, List.mem_singleton]
      refine ⟨fun hm => ⟨.inl hm.1, hm.2⟩, fun hm => ⟨hm.1.resolve_right ?_, hm.2⟩⟩
      rintro rfl
      have hlt := hm.2.started
      rw [started_eq] at hlt
      omega
    | finish other => simpa [Calls.step] using ih
    | abandon =>
      have hdone : task ∉ (Calls.run events).done ↔ ∀ e ∈ events, e.finishes task = false := by
        rw [mem_done]
        simp
      simp only [Calls.step, InFlightGuard.abandon, List.mem_append, List.mem_filter,
        decide_eq_true_eq, ih, hdone, true_and]
      by_cases hin : task ∈ (Calls.run events).guard.inFlight.map Prod.fst
      · have hlt := lt_of_inFlight h hin
        simp only [hin, hlt, true_and]
        tauto
      · simp only [hin, false_and, or_false]
    | resume other awaited =>
      simp only [Calls.step, InFlightGuard.leave, mem_filter_keys, List.mem_filter,
        decide_eq_true_eq, ih, reduceCtorEq, false_and, or_false, and_right_comm]

/-- Whatever the order of things: the guard holds the calls whose callers have not gone on, no mark
outlives its call, and the caller of a call that was abandoned before its task had come to an end
gets the error of an abandoned call unless the task returned.  Every other caller gets what its
await came to. -/
theorem guard_runs (h : Orderly events) :
    (∀ task operation, (task, operation) ∈ (Calls.run events).guard.inFlight ↔
      (operations events)[task]? = some operation ∧ ∀ e ∈ events, e.resumes task = false) ∧
    (∀ task ∈ (Calls.run events).guard.abandoned,
      task ∈ (Calls.run events).guard.inFlight.map Prod.fst) ∧
    ∀ task operation, (task, operation) ∈ (Calls.run events).guard.inFlight →
      ∀ awaited : Awaited α,
        (AbandonedIn events task → (∀ a, awaited ≠ .returned a) →
          ((Calls.run events).guard.leave task operation awaited).1 =
            .raised (abandonedError operation)) ∧
        (¬ AbandonedIn events task ∨ (∃ a, awaited = .returned a) →
          ((Calls.run events).guard.leave task operation awaited).1 = awaited) := by
  refine ⟨fun _ _ => mem_inFlight h, fun _ hm => ((mem_abandoned h).1 hm).1, ?_⟩
  intro task operation hin awaited
  have hkey : task ∈ (Calls.run events).guard.inFlight.map Prod.fst :=
    List.mem_map.2 ⟨_, hin, rfl⟩
  have hmark : task ∈ (Calls.run events).guard.abandoned ↔ AbandonedIn events task :=
    (mem_abandoned h).trans (and_iff_right hkey)
  unfold InFlightGuard.leave
  dsimp only
  cases awaited with
  | returned a => exact ⟨fun _ hn => absurd rfl (hn a), fun _ => rfl⟩
  | raised e =>
    refine ⟨fun ha _ => if_pos (hmark.2 ha), fun hn => if_neg fun hm => ?_⟩
    rcases hn with hn | ⟨a, ha⟩
    · exact hn (hmark.1 hm)
    · cases ha
  | cancelled =>
    refine ⟨fun ha _ => if_pos (hmark.2 ha), fun hn => if_neg fun hm => ?_⟩
    rcases hn with hn | ⟨a, ha⟩
    · exact hn (hmark.1 hm)
    · cases ha

/-- A call is abandoned, and one that starts afterwards is not. -/
def abandonedOnce : List (Event Unit) := [.start "POST", .abandon, .start "GET"]

theorem guard_runs_once :
    ((Calls.run abandonedOnce).guard.leave 0 "POST" (.cancelled : Awaited Unit)).1 =
      .raised (abandonedError "POST") := by
  have horderly : Orderly abandonedOnce :=
    .concat (e := .start "GET") (.concat (e := .abandon) (.concat (e := .start "POST") .nil
      fun _ h => by cases h) fun _ h => by cases h) fun _ h => by cases h
  have habandoned : AbandonedIn abandonedOnce 0 :=
    ⟨[.start "POST"], [.start "GET"], rfl, by decide, by simp [Event.finishes]⟩
  exact (((guard_runs horderly).2.2 0 "POST" (by decide) .cancelled).1 habandoned
    fun a h => by cases h)

end Runs

end InFlight

end AgenticLocalApp
