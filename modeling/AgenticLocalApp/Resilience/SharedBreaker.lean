import AgenticLocalApp.Resilience.FailureManager
import Mathlib.Data.Finset.Card

/-!
# Sessions that share the breaker

One breaker stands between all sessions and the remote endpoint.  A session asks it before each
attempt of a call; refused, it waits and asks once more; a second refusal is an error like any
other.  The sessions interleave wherever one of them waits: for the breaker, for the remote call,
for its next attempt.
-/

namespace AgenticLocalApp

namespace CircuitBreaker

/-- The breaker is open and its duration is over: the next call it is asked for half-opens it. -/
def Due (config : BreakerConfig) (b : CircuitBreaker) (nowMs : Int) : Prop :=
  b.state = .opened ∧ ¬ nowMs - b.openedAtMs.getD 0 < config.openDurationMs

instance (config : BreakerConfig) (b : CircuitBreaker) (nowMs : Int) :
    Decidable (b.Due config nowMs) := inferInstanceAs (Decidable (_ ∧ _))

variable {config : BreakerConfig} {b : CircuitBreaker} {nowMs : Int}

theorem trial_state : (b.trial config).2.state = b.state := by
  unfold trial
  split <;> rfl

theorem trial_calls : (b.trial config).2.halfOpenCalls =
    b.halfOpenCalls + if (b.trial config).1 then 1 else 0 := by
  unfold trial
  split <;> simp

theorem trial_failures : (b.trial config).2.consecutiveFailures = b.consecutiveFailures := by
  unfold trial
  split <;> rfl

theorem allow_of_due (h : b.Due config nowMs) :
    b.allow config nowMs = trial config { b with halfOpenCalls := 0, state := .halfOpen } := by
  unfold allow
  rw [h.1]
  exact if_neg h.2

theorem allow_of_halfOpen (h : b.state = .halfOpen) : b.allow config nowMs = b.trial config := by
  unfold allow
  rw [h]

/-- An open breaker that is not due refuses, a closed one grants, and neither moves. -/
theorem allow_of_not_due (h : ¬ b.Due config nowMs) (hb : b.state ≠ .halfOpen) :
    b.allow config nowMs = (decide (b.state = .closed), b) := by
  unfold allow
  cases hs : b.state with
  | closed => rfl
  | opened =>
    have : nowMs - b.openedAtMs.getD 0 < config.openDurationMs := by
      by_contra hge
      exact h ⟨hs, hge⟩
    simp [this]
  | halfOpen => exact absurd hs hb

theorem allow_failures :
    (b.allow config nowMs).2.consecutiveFailures = b.consecutiveFailures := by
  by_cases hd : b.Due config nowMs
  · rw [allow_of_due hd, trial_failures]
  · by_cases hb : b.state = .halfOpen
    · rw [allow_of_halfOpen hb, trial_failures]
    · rw [allow_of_not_due hd hb]

/-- Asking the breaker moves it from open to half-open when it is due, and not otherwise. -/
theorem allow_state : (b.allow config nowMs).2.state =
    if b.Due config nowMs then .halfOpen else b.state := by
  by_cases hd : b.Due config nowMs
  · rw [allow_of_due hd, trial_state, if_pos hd]
  · rw [if_neg hd]
    by_cases hb : b.state = .halfOpen
    · rw [allow_of_halfOpen hb, trial_state]
    · rw [allow_of_not_due hd hb]

theorem recordSuccess_state (h : b.state ≠ .opened) : b.recordSuccess.state = .closed := by
  unfold recordSuccess
  cases hs : b.state with
  | closed => rfl
  | opened => exact absurd hs h
  | halfOpen => rfl

theorem recordSuccess_not_halfOpen : b.recordSuccess.state ≠ .halfOpen := by
  unfold recordSuccess
  cases hs : b.state <;> simp [hs]

theorem recordFailure_failures :
    (b.recordFailure config nowMs).consecutiveFailures = b.consecutiveFailures + 1 := by
  unfold recordFailure
  cases b.state with
  | closed =>
    dsimp only
    split <;> rfl
  | opened => rfl
  | halfOpen => rfl

theorem recordFailure_not_halfOpen : (b.recordFailure config nowMs).state ≠ .halfOpen := by
  unfold recordFailure
  cases hs : b.state with
  | closed =>
    dsimp only
    split
    · simp [opens]
    · simp
  | opened => simp
  | halfOpen => simp [opens]

end CircuitBreaker

/-! ## What the failure policy does to the breaker -/

namespace FailureManager

variable (fm : FailureManager)

/-- The kind of the decision about an error, and the breaker after it. -/
def decided (b : CircuitBreaker) (attempt : Nat) (error : NormalizedError) (nowMs : Int) :
    DecisionKind × CircuitBreaker :=
  if error.errorType = .modelContextWindowError then (.rotate, b)
  else if error.errorType = .authnError then (.pause, b)
  else if isPolicyRetryable error then
    if ¬ fm.retry.canRetry attempt then (.fail, b)
    else
      let (allowed, b) := b.allow fm.breaker nowMs
      (if allowed then .retry else .fail, b)
  else if error.errorType = .interrupted then (.abort, b)
  else (.fail, b)

/-- The breaker once a failure is counted, where it speaks of the transport. -/
def counted (b : CircuitBreaker) (error : NormalizedError) (nowMs : Int) : CircuitBreaker :=
  if feedsBreaker error then b.recordFailure fm.breaker nowMs else b

/-- A decision about the failure takes a slot of the breaker for a call that is not made yet. -/
def TakesSlot (b : CircuitBreaker) (attempt : Nat) (error : NormalizedError)
    (failedMs decidedMs : Int) : Prop :=
  feedsBreaker error ∧ fm.retry.canRetry attempt ∧
    (b.recordFailure fm.breaker failedMs).Due fm.breaker decidedMs

instance (b : CircuitBreaker) (attempt : Nat) (error : NormalizedError) (f d : Int) :
    Decidable (fm.TakesSlot b attempt error f d) := inferInstanceAs (Decidable (_ ∧ _ ∧ _))

variable {fm} {b : CircuitBreaker} {attempt : Nat} {error : NormalizedError}

/-- A decision leaves the breaker alone, or asks it for the next attempt. -/
theorem decided_breaker (fm : FailureManager) (b : CircuitBreaker) (attempt : Nat)
    (error : NormalizedError) (nowMs : Int) :
    (fm.decided b attempt error nowMs).2 = b ∨
      isPolicyRetryable error ∧ fm.retry.canRetry attempt ∧
        (fm.decided b attempt error nowMs).2 = (b.allow fm.breaker nowMs).2 := by
  unfold decided
  split
  · exact .inl rfl
  split
  · exact .inl rfl
  split
  · rename_i hr
    split
    · exact .inl rfl
    · rename_i hc
      exact .inr ⟨hr, by simpa using hc, rfl⟩
  split <;> exact .inl rfl

/-- A decision that takes no slot does not move the breaker. -/
theorem decided_counted {failedMs decidedMs : Int}
    (h : ¬ fm.TakesSlot b attempt error failedMs decidedMs) :
    (fm.decided (fm.counted b error failedMs) attempt error decidedMs).2 =
      fm.counted b error failedMs := by
  rcases decided_breaker fm (fm.counted b error failedMs) attempt error decidedMs with
    he | ⟨hr, hc, he⟩
  · exact he
  · have hfeeds : feedsBreaker error := hr
    have hcounted : fm.counted b error failedMs = b.recordFailure fm.breaker failedMs :=
      if_pos hfeeds
    rw [he, hcounted, CircuitBreaker.allow_of_not_due (fun hd => h ⟨hfeeds, hc, hd⟩)
      CircuitBreaker.recordFailure_not_halfOpen]

/-! ### The programs do just this -/

section Rules

open Prog

variable {C : Contract App} {w : World}

theorem wp_breakerAllows (hC : Quiet C) (hguar : ∀ w w', C.guar w w') {Q}
    (h : ∀ nowMs, Q (.ok (w.breaker.allow fm.breaker nowMs).1)
      { w with breaker := (w.breaker.allow fm.breaker nowMs).2 }) :
    wp C fm.breakerAllows Q w := by
  unfold breakerAllows
  rw [wp_bind]
  refine wp_monotonicMs hC fun nowMs => ?_
  exact ⟨hguar _ _, h nowMs⟩

theorem wp_decide (hC : Quiet C) (hguar : ∀ w w', C.guar w w') {Q}
    (h : ∀ nowMs decision, decision.kind = (fm.decided w.breaker attempt error nowMs).1 →
      Q (.ok decision) { w with breaker := (fm.decided w.breaker attempt error nowMs).2 }) :
    wp C (fm.decide error attempt) Q w := by
  have hsame : ∀ (nowMs : Int) {kind} (decision : Decision), decision.kind = kind →
      fm.decided w.breaker attempt error nowMs = (kind, w.breaker) → Q (.ok decision) w := by
    intro nowMs kind decision hkind hd
    have := h nowMs decision (by rw [hkind, hd])
    rwa [hd] at this
  unfold FailureManager.decide
  by_cases hrotate : error.errorType = .modelContextWindowError
  · rw [if_pos hrotate]
    exact hsame 0 _ rfl (by simp [decided, hrotate])
  by_cases hpause : error.errorType = .authnError
  · rw [if_neg hrotate, if_pos hpause]
    exact hsame 0 _ rfl (by simp [decided, hpause])
  rw [if_neg hrotate, if_neg hpause]
  by_cases hretry : isPolicyRetryable error
  · rw [if_pos hretry]
    by_cases hcan : fm.retry.canRetry attempt
    · have hd : ∀ nowMs, fm.decided w.breaker attempt error nowMs =
          (if (w.breaker.allow fm.breaker nowMs).1 then .retry else .fail,
            (w.breaker.allow fm.breaker nowMs).2) := fun nowMs => by
        simp [decided, hrotate, hpause, hretry, hcan]
      rw [if_neg (by simpa using hcan), wp_bind]
      refine wp_breakerAllows hC hguar fun nowMs => ?_
      rw [after_ok]
      have := h nowMs
      rw [hd] at this
      split <;> rename_i hallowed
      · exact this _ (by simp [hallowed])
      · exact this _ (by simp [hallowed])
    · rw [if_pos (by simpa using hcan)]
      exact hsame 0 _ rfl (by simp [decided, hrotate, hpause, hretry, hcan])
  · rw [if_neg hretry]
    by_cases habort : error.errorType = .interrupted
    · rw [if_pos habort]
      exact hsame 0 _ rfl (by simp [decided, hretry, habort])
    · rw [if_neg habort]
      exact hsame 0 _ rfl (by simp [decided, hrotate, hpause, hretry, habort])

/-- `handle` counts the failure and takes the decision, at the times its clock shows. -/
theorem wp_handle_breaker (hC : Quiet C) (hguar : ∀ w w', C.guar w w') {at' : CallContext} :
    wp C (fm.handle error attempt at') (fun r w' => ∃ outcome failedMs decidedMs, r = .ok outcome ∧
      (outcome.2.kind, w'.breaker) =
        fm.decided (fm.counted w.breaker error failedMs) attempt error decidedMs) w := by
  unfold FailureManager.handle
  rw [wp_bind]
  refine wp_recordFailure hC fun _ _ => ⟨hguar _ _, ?_⟩
  rw [after_ok]
  let noted := { error with attempt := attempt, maxAttempts := fm.retry.maxAttempts }
  have hrest : ∀ (w' : World) (failedMs : Int),
      w'.breaker = fm.counted w.breaker error failedMs →
      wp C (do
        let decision ← fm.decide noted attempt
        let _ ← fm.recordDecision decision noted at' attempt
        return (noted, decision)) (fun r w' => ∃ outcome failedMs decidedMs, r = .ok outcome ∧
          (outcome.2.kind, w'.breaker) =
            fm.decided (fm.counted w.breaker error failedMs) attempt error decidedMs) w' := by
    intro w' failedMs hw'
    rw [wp_bind]
    refine wp_decide hC hguar fun decidedMs decision hkind => ?_
    rw [after_ok, wp_bind]
    refine wp_recordDecision hC fun record _ _ => ⟨hguar _ _, ?_⟩
    refine ⟨(noted, decision), failedMs, decidedMs, rfl, ?_⟩
    have hnoted : fm.decided w'.breaker attempt noted decidedMs =
        fm.decided w'.breaker attempt error decidedMs := rfl
    rw [hkind, hnoted, hw']
  dsimp only
  split
  · rename_i hfeeds
    have hfeeds' : feedsBreaker error := hfeeds
    rw [wp_bind]
    refine wp_monotonicMs hC fun failedMs => ?_
    rw [after_ok, wp_bind, wp_update]
    exact ⟨hguar _ _, hrest _ failedMs (by simp [counted, hfeeds'])⟩
  · rename_i hfeeds
    have hfeeds' : ¬ feedsBreaker error := hfeeds
    exact hrest _ 0 (by simp [counted, hfeeds'])

end Rules

end FailureManager

/-! ## The sessions -/

/-- The breaker, and where the remote calls of the sessions stand. -/
structure Shared where
  breaker : CircuitBreaker := {}
  /-- The sessions that the breaker refused once and that wait for it. -/
  waiting : Finset String := ∅
  /-- The sessions whose remote call was granted and has not ended. -/
  inFlight : Finset String := ∅
  /-- The sessions that wait to try again. -/
  backoff : Finset String := ∅
  /-- The attempt that each session is at. -/
  attempts : String → Nat := fun _ => 0
  /-- While the breaker is half-open, the sessions among `inFlight` that it granted their call to
  since it half-opened. -/
  trials : Finset String := ∅

/-- What a session does next; the times are those that the monotonic clock shows to the code. -/
inductive CallEvent where
  /-- An attempt begins: the breaker is asked. -/
  | ask (sid : String) (nowMs : Int)
  /-- The wait for the breaker is over: it is asked once more, and a refusal handled at once. -/
  | awake (sid operation : String) (waitMs nowMs failedMs decidedMs : Int)
  /-- The remote call succeeds. -/
  | returned (sid : String)
  /-- The remote call fails with an error of the transport. -/
  | failed (sid : String) (error : NormalizedError) (failedMs decidedMs : Int)
  /-- The call is given up wherever it stands: interrupted, cancelled, or left by an exception. -/
  | abandoned (sid : String)

/-- The error of a call that the breaker refused. -/
def circuitOpen (operation : String) (waitMs : Int) : NormalizedError :=
  mkError .networkError "CIRCUIT_OPEN" "TransportGateway"
    [("operation", .str operation), ("http_status", .null), ("waited_ms", .int waitMs)]

namespace Shared

variable (fm : FailureManager) (s : Shared)

/-- The breaker moves to `b`; trials last as long as it stays half-open. -/
def setBreaker (b : CircuitBreaker) : Shared :=
  { s with
    breaker := b
    trials := if s.breaker.state = .halfOpen ∧ b.state = .halfOpen then s.trials else ∅ }

/-- The remote call of a session starts. -/
def grant (sid : String) : Shared :=
  { s with
    inFlight := insert sid s.inFlight
    trials := if s.breaker.state = .halfOpen then insert sid s.trials else s.trials }

/-- The remote call of a session is over. -/
def release (sid : String) : Shared :=
  { s with inFlight := s.inFlight.erase sid, trials := s.trials.erase sid }

/-- `handle`, and the wait before the next attempt if there is to be one. -/
def handle (sid : String) (error : NormalizedError) (failedMs decidedMs : Int) : Shared :=
  let s := s.setBreaker (fm.counted s.breaker error failedMs)
  let (kind, b) := fm.decided s.breaker (s.attempts sid) error decidedMs
  let s := s.setBreaker b
  if kind = .retry then { s with backoff := insert sid s.backoff } else s

/-- One event, where it can happen. -/
def step : CallEvent → Option Shared
  | .ask sid nowMs =>
    if sid ∈ s.waiting ∨ sid ∈ s.inFlight then none
    else
      let attempt := if sid ∈ s.backoff then s.attempts sid + 1 else 1
      let s := { s with
        backoff := s.backoff.erase sid, attempts := Function.update s.attempts sid attempt }
      let (allowed, b) := s.breaker.allow fm.breaker nowMs
      let s := s.setBreaker b
      some (if allowed then s.grant sid else { s with waiting := insert sid s.waiting })
  | .awake sid operation waitMs nowMs failedMs decidedMs =>
    if sid ∉ s.waiting then none
    else
      let s := { s with waiting := s.waiting.erase sid }
      let (allowed, b) := s.breaker.allow fm.breaker nowMs
      let s := s.setBreaker b
      some (if allowed then s.grant sid
        else s.handle fm sid (circuitOpen operation waitMs) failedMs decidedMs)
  | .returned sid =>
    if sid ∉ s.inFlight then none
    else some ((s.release sid).setBreaker s.breaker.recordSuccess)
  | .failed sid error failedMs decidedMs =>
    if sid ∉ s.inFlight ∨ error.errorType = .interrupted then none
    else some ((s.release sid).handle fm sid error failedMs decidedMs)
  | .abandoned sid =>
    some { s.release sid with waiting := s.waiting.erase sid, backoff := s.backoff.erase sid }

end Shared

/-- One event of a run, with the states around it. -/
structure SharedStep where
  before : Shared
  event : CallEvent
  after : Shared

/-- The run from `s` through `steps` ends in `s'`. -/
inductive SharedRun (fm : FailureManager) (s : Shared) : List SharedStep → Shared → Prop
  | refl : SharedRun fm s [] s
  | tail {steps : List SharedStep} {s' s'' : Shared} {e : CallEvent} :
    SharedRun fm s steps s' → s'.step fm e = some s'' →
      SharedRun fm s (steps ++ [⟨s', e, s''⟩]) s''

theorem SharedRun.step_of_mem {fm : FailureManager} {s₀ s : Shared} {steps : List SharedStep}
    (hrun : SharedRun fm s₀ steps s) :
    ∀ st ∈ steps, st.before.step fm st.event = some st.after := by
  induction hrun with
  | refl => exact fun st hst => (List.not_mem_nil hst).elim
  | tail _ he ih =>
    intro st hst
    rcases List.mem_append.1 hst with hst | hst
    · exact ih st hst
    · rw [List.mem_singleton.1 hst]
      exact he

/-- What every step that meets `P` preserves holds at the end of a run of such steps. -/
theorem SharedRun.invariant {fm : FailureManager} {I : Shared → Prop}
    {P : Shared → CallEvent → Prop} {s₀ s : Shared} {steps : List SharedStep} (h₀ : I s₀)
    (hstep : ∀ {s : Shared} {e : CallEvent} {s' : Shared},
      I s → P s e → s.step fm e = some s' → I s')
    (hrun : SharedRun fm s₀ steps s) (hP : ∀ st ∈ steps, P st.before st.event) : I s := by
  induction hrun with
  | refl => exact h₀
  | @tail steps s' s'' e _ he ih =>
    have hlast : (⟨s', e, s''⟩ : SharedStep) ∈ steps ++ [⟨s', e, s''⟩] := by simp
    exact hstep (ih fun st hst => hP st (List.mem_append_left _ hst)) (hP _ hlast) he

end AgenticLocalApp
