import AgenticLocalApp.Resilience.TrialSlots

/-!
# What the breaker learns from

The breaker is meant to learn from the remote calls that were attempted, and from its own clock when
it half-opens.  A call that it refuses itself is handled as a failure of the transport too: the
refusal is counted, and reopens a breaker whose trial is still in flight.
-/

namespace AgenticLocalApp

/-- The event is the outcome of a remote call that was attempted. -/
def CallEvent.IsOutcome : CallEvent → Prop
  | .returned _ | .failed _ _ _ _ => True
  | .ask _ _ | .awake _ _ _ _ _ _ | .abandoned _ => False

/-- The event is a call that the breaker refuses for the second time. -/
def CallEvent.Refused (fm : FailureManager) (s : Shared) : CallEvent → Prop
  | .awake _ _ _ nowMs _ _ => (s.breaker.allow fm.breaker nowMs).1 = false
  | _ => False

instance (fm : FailureManager) (s : Shared) : (e : CallEvent) → Decidable (e.Refused fm s)
  | .awake _ _ _ _ _ _ => inferInstanceAs (Decidable (_ = _))
  | .ask _ _ | .returned _ | .failed _ _ _ _ | .abandoned _ => inferInstanceAs (Decidable False)

/-- The breaker counts and changes state on the outcome of an attempted call only, but for an open
breaker that half-opens. -/
def OnEvidence (st : SharedStep) : Prop :=
  ¬ st.event.IsOutcome →
    st.after.breaker.consecutiveFailures = st.before.breaker.consecutiveFailures ∧
    (st.after.breaker.state = st.before.breaker.state ∨
      st.before.breaker.state = .opened ∧ st.after.breaker.state = .halfOpen)

namespace Shared

variable {fm : FailureManager} {s s' : Shared} {e : CallEvent}

@[simp] theorem breaker_setBreaker {b : CircuitBreaker} : (s.setBreaker b).breaker = b := rfl

@[simp] theorem breaker_grant {sid : String} : (s.grant sid).breaker = s.breaker := rfl

/-- Between two outcomes, and where it refuses no one for good, the breaker is at most asked. -/
theorem breaker_step (hstep : s.step fm e = some s') (ho : ¬ e.IsOutcome)
    (hr : ¬ e.Refused fm s) :
    s'.breaker = s.breaker ∨ ∃ nowMs, s'.breaker = (s.breaker.allow fm.breaker nowMs).2 := by
  cases e with
  | ask sid nowMs =>
    simp only [step] at hstep
    split at hstep
    · cases hstep
    · cases hstep
      right
      exact ⟨nowMs, by split <;> rfl⟩
  | awake sid operation waitMs nowMs failedMs decidedMs =>
    simp only [step] at hstep
    split at hstep
    · cases hstep
    · cases hstep
      right
      have hallowed : (s.breaker.allow fm.breaker nowMs).1 = true := Bool.eq_true_of_not_eq_false hr
      exact ⟨nowMs, by rw [if_pos hallowed]; rfl⟩
  | returned sid => exact absurd trivial ho
  | failed sid error failedMs decidedMs => exact absurd trivial ho
  | abandoned sid =>
    cases hstep
    exact .inl rfl

theorem onEvidence_step (hstep : s.step fm e = some s') (hr : ¬ e.Refused fm s) :
    OnEvidence ⟨s, e, s'⟩ := by
  intro ho
  rcases breaker_step hstep ho hr with hb | ⟨nowMs, hb⟩
  · rw [show (SharedStep.mk s e s').after.breaker = s.breaker from hb]
    exact ⟨rfl, .inl rfl⟩
  · rw [show (SharedStep.mk s e s').after.breaker = _ from hb]
    refine ⟨CircuitBreaker.allow_failures, ?_⟩
    rw [CircuitBreaker.allow_state]
    by_cases hd : s.breaker.Due fm.breaker nowMs
    · rw [if_pos hd]
      exact .inr ⟨hd.1, rfl⟩
    · rw [if_neg hd]
      exact .inl rfl

/-- A refusal is counted as a failure of the transport. -/
theorem failures_refused (hstep : s.step fm e = some s') (hr : e.Refused fm s) :
    s'.breaker.consecutiveFailures = s.breaker.consecutiveFailures + 1 := by
  cases e with
  | awake sid operation waitMs nowMs failedMs decidedMs =>
    simp only [step] at hstep
    split at hstep
    · cases hstep
    · cases hstep
      have hrefused : ¬ (s.breaker.allow fm.breaker nowMs).1 = true := by
        rw [show (s.breaker.allow fm.breaker nowMs).1 = false from hr]
        decide
      rw [if_neg hrefused, breaker_handle]
      have hcounted : ∀ b : CircuitBreaker, fm.counted b (circuitOpen operation waitMs) failedMs =
          b.recordFailure fm.breaker failedMs := fun b => rfl
      rw [hcounted, breaker_setBreaker]
      rcases FailureManager.decided_breaker fm
          ((s.breaker.allow fm.breaker nowMs).2.recordFailure fm.breaker failedMs) (s.attempts sid)
          (circuitOpen operation waitMs) decidedMs with he | ⟨-, -, he⟩
      · exact (congrArg _ he).trans (CircuitBreaker.recordFailure_failures.trans
          (congrArg (· + 1) CircuitBreaker.allow_failures))
      · exact (congrArg _ he).trans (CircuitBreaker.allow_failures.trans
          (CircuitBreaker.recordFailure_failures.trans
            (congrArg (· + 1) CircuitBreaker.allow_failures)))
  | ask sid nowMs => cases hr
  | returned sid => cases hr
  | failed sid error failedMs decidedMs => cases hr
  | abandoned sid => cases hr

theorem onEvidence_iff (hstep : s.step fm e = some s') :
    OnEvidence ⟨s, e, s'⟩ ↔ ¬ e.Refused fm s := by
  refine ⟨fun hev hr => ?_, onEvidence_step hstep⟩
  have ho : ¬ e.IsOutcome := by
    cases e with
    | awake => exact id
    | _ => cases hr
  have hsame := (hev ho).1
  have hmore := failures_refused hstep hr
  dsimp only at hsame
  omega

/-- A half-open breaker stays so until the outcome of a call, unless it refuses one for good. -/
theorem halfOpen_step (hstep : s.step fm e = some s') (hs : s.breaker.state = .halfOpen)
    (ho : ¬ e.IsOutcome) (hr : ¬ e.Refused fm s) : s'.breaker.state = .halfOpen := by
  rcases (onEvidence_step hstep hr ho).2 with h | ⟨h, -⟩
  · exact h.trans hs
  · rw [hs] at h
    cases h

theorem returned_closes {sid : String} (hs : s.breaker.state = .halfOpen) (hsid : sid ∈ s.inFlight) :
    ∃ s', s.step fm (.returned sid) = some s' ∧ s'.breaker.state = .closed := by
  refine ⟨_, if_neg (not_not.2 hsid), ?_⟩
  exact CircuitBreaker.recordSuccess_state (by rw [hs]; decide)

end Shared

/-- Every step of a run is on remote evidence just when the breaker refuses no call for good.  Then
a half-open breaker waits for the outcome of a call, and a success closes it. -/
theorem moves_on_evidence_iff (fm : FailureManager) {steps : List SharedStep} {s : Shared}
    (hrun : SharedRun fm {} steps s) :
    ((∀ st ∈ steps, OnEvidence st) ↔ ∀ st ∈ steps, ¬ st.event.Refused fm st.before) ∧
    ∀ {more : List SharedStep} {s' : Shared}, SharedRun fm s more s' →
      s.breaker.state = .halfOpen →
      (∀ st ∈ more, ¬ st.event.Refused fm st.before ∧ ¬ st.event.IsOutcome) →
      s'.breaker.state = .halfOpen ∧ ∀ sid ∈ s'.inFlight, ∃ s'',
        s'.step fm (.returned sid) = some s'' ∧ s''.breaker.state = .closed := by
  refine ⟨?_, fun hmore hs hquiet => ?_⟩
  · have hsteps := hrun.step_of_mem
    exact forall₂_congr fun st hst => Shared.onEvidence_iff (hsteps st hst)
  · have hs' := hmore.invariant (I := fun s => s.breaker.state = .halfOpen)
      (P := fun s e => ¬ e.Refused fm s ∧ ¬ e.IsOutcome) hs
      (fun h he hstep => Shared.halfOpen_step hstep h he.2 he.1) hquiet
    exact ⟨hs', fun sid hsid => Shared.returned_closes hs' hsid⟩

/-! ## A refusal while a trial is in flight -/

/-- The second session holds the trial when the third one is refused. -/
theorem moves_on_evidence_iff_sample : ∃ steps s, SharedRun .sample {} steps s ∧
    s.breaker.state = .halfOpen ∧ (∀ st ∈ steps, OnEvidence st) ∧
    ∃ s', s.step .sample (.returned "second") = some s' ∧ s'.breaker.state = .closed := by
  have hrun : SharedRun .sample {} [] {} := .refl
  have hrun := hrun.tail (e := .ask "first" 0) rfl
  have hrun := hrun.tail (e := .failed "first" networkFailure 0 0) rfl
  have hrun := hrun.tail (e := .ask "second" 30000) rfl
  have hmoves := moves_on_evidence_iff .sample hrun
  exact ⟨_, _, hrun, by decide, hmoves.1.2 (by decide),
    (hmoves.2 .refl (by decide) fun _ hst => (List.not_mem_nil hst).elim).2 "second" (by decide)⟩

/-- The third session is refused twice while the trial is in flight: the refusal reopens the
breaker, and the success of the trial is ignored. -/
theorem refusal_reopens : ∃ steps s s' s'', SharedRun .sample {} steps s ∧
    s.breaker.state = .halfOpen ∧ s.inFlight = {"second"} ∧
    s.step .sample (.awake "third" "POST" 30000 60000 60000 60000) = some s' ∧
    ¬ OnEvidence ⟨s, .awake "third" "POST" 30000 60000 60000 60000, s'⟩ ∧
    s'.breaker.state = .opened ∧
    s'.step .sample (.returned "second") = some s'' ∧ s''.breaker.state = .opened := by
  have hrun : SharedRun .sample {} [] {} := .refl
  have hrun := hrun.tail (e := .ask "first" 0) rfl
  have hrun := hrun.tail (e := .failed "first" networkFailure 0 0) rfl
  have hrun := hrun.tail (e := .ask "second" 30000) rfl
  have hrun := hrun.tail (e := .ask "third" 30000) rfl
  refine ⟨_, _, _, _, hrun, by decide, by decide, rfl, fun hev => ?_, by decide, rfl, by decide⟩
  exact absurd (hev id).1 (by decide)

end AgenticLocalApp
