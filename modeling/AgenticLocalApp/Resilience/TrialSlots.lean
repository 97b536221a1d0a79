import AgenticLocalApp.Resilience.SharedBreaker

/-!
# The trial slots of a half-open breaker

A half-open breaker grants a bounded number of calls.  A slot comes back only when the breaker opens
or closes, so that a trial has to end in one of the two: a call that ends in neither keeps its slot
for good, and so does a slot that was taken for a call not made yet.
-/

namespace AgenticLocalApp

/-- The slots that a half-open breaker has granted are those of the trials in flight. -/
structure SlotsKept (s : Shared) : Prop where
  sub : s.trials ⊆ s.inFlight
  slots : s.breaker.state = .halfOpen → s.breaker.halfOpenCalls = s.trials.card

/-- A session does not wait for the breaker while its call is in flight. -/
def Shared.Apart (s : Shared) : Prop := Disjoint s.waiting s.inFlight

/-- The event loses no slot: a trial ends in a success or in a failure that the breaker counts, and
no decision about a failure takes a slot for the attempt to come. -/
def SlotKeeping (fm : FailureManager) (s : Shared) : CallEvent → Prop
  | .ask _ _ => True
  | .awake sid operation waitMs nowMs failedMs decidedMs =>
    (s.breaker.allow fm.breaker nowMs).1 = false →
      ¬ fm.TakesSlot (s.breaker.allow fm.breaker nowMs).2 (s.attempts sid)
        (circuitOpen operation waitMs) failedMs decidedMs
  | .returned _ => True
  | .failed sid error failedMs decidedMs =>
    (s.breaker.state = .halfOpen → sid ∈ s.trials → FailureManager.feedsBreaker error) ∧
      ¬ fm.TakesSlot s.breaker (s.attempts sid) error failedMs decidedMs
  | .abandoned sid => s.breaker.state = .halfOpen → sid ∉ s.trials

instance (fm : FailureManager) (s : Shared) : (e : CallEvent) → Decidable (SlotKeeping fm s e)
  | .ask _ _ | .returned _ => inferInstanceAs (Decidable True)
  | .awake _ _ _ _ _ _ => inferInstanceAs (Decidable (_ → ¬ _))
  | .failed _ _ _ _ => inferInstanceAs (Decidable ((_ → _ → _) ∧ ¬ _))
  | .abandoned _ => inferInstanceAs (Decidable (_ → ¬ _))

/-- When the event half-opens the breaker, no call is in flight. -/
def NoOlderCall (fm : FailureManager) (s : Shared) : CallEvent → Prop
  | .ask _ nowMs | .awake _ _ _ nowMs _ _ => s.breaker.Due fm.breaker nowMs → s.inFlight = ∅
  | _ => True

instance (fm : FailureManager) (s : Shared) : (e : CallEvent) → Decidable (NoOlderCall fm s e)
  | .ask _ _ | .awake _ _ _ _ _ _ => inferInstanceAs (Decidable (_ → _))
  | .returned _ | .failed _ _ _ _ | .abandoned _ => inferInstanceAs (Decidable True)

namespace Shared

variable {fm : FailureManager} {s : Shared} {sid : String} {error : NormalizedError}
  {nowMs failedMs decidedMs : Int}

theorem trials_setBreaker_sub {b : CircuitBreaker} : (s.setBreaker b).trials ⊆ s.trials := by
  unfold setBreaker
  dsimp only
  split
  · exact Finset.Subset.refl _
  · exact Finset.empty_subset _

theorem trials_setBreaker_of_halfOpen {b : CircuitBreaker} (hs : s.breaker.state = .halfOpen)
    (hb : b.state = .halfOpen) : (s.setBreaker b).trials = s.trials := if_pos ⟨hs, hb⟩

theorem trials_setBreaker_of_not {b : CircuitBreaker} (hs : s.breaker.state ≠ .halfOpen) :
    (s.setBreaker b).trials = ∅ := if_neg fun h => hs h.1

@[simp] theorem inFlight_handle :
    (s.handle fm sid error failedMs decidedMs).inFlight = s.inFlight := by
  unfold handle
  dsimp only
  split <;> rfl

theorem trials_handle : (s.handle fm sid error failedMs decidedMs).trials =
    ((s.setBreaker (fm.counted s.breaker error failedMs)).setBreaker
      (fm.decided (fm.counted s.breaker error failedMs) (s.attempts sid) error
        decidedMs).2).trials := by
  unfold handle
  dsimp only
  split <;> rfl

theorem trials_handle_sub : (s.handle fm sid error failedMs decidedMs).trials ⊆ s.trials := by
  rw [trials_handle]
  exact trials_setBreaker_sub.trans trials_setBreaker_sub

theorem breaker_handle : (s.handle fm sid error failedMs decidedMs).breaker =
    (fm.decided (fm.counted s.breaker error failedMs) (s.attempts sid) error decidedMs).2 := by
  unfold handle
  dsimp only
  split <;> rfl

@[simp] theorem waiting_handle :
    (s.handle fm sid error failedMs decidedMs).waiting = s.waiting := by
  unfold handle
  dsimp only
  split <;> rfl

theorem Apart.grant (h : s.Apart) (hsid : sid ∉ s.waiting) : (s.grant sid).Apart :=
  Finset.disjoint_insert_right.2 ⟨hsid, h⟩

theorem Apart.step {s' : Shared} {e : CallEvent} (h : s.Apart) (hstep : s.step fm e = some s') :
    s'.Apart := by
  cases e with
  | ask sid nowMs =>
    simp only [Shared.step] at hstep
    split at hstep
    · cases hstep
    · rename_i hidle
      rw [not_or] at hidle
      cases hstep
      split
      · exact Apart.grant h hidle.1
      · exact Finset.disjoint_insert_left.2 ⟨hidle.2, h⟩
  | awake sid operation waitMs nowMs failedMs decidedMs =>
    have hleft : Disjoint (s.waiting.erase sid) s.inFlight := h.mono_left (Finset.erase_subset _ _)
    simp only [Shared.step] at hstep
    split at hstep
    · cases hstep
    · cases hstep
      split
      · exact Apart.grant hleft (Finset.notMem_erase _ _)
      · unfold Apart
        rw [waiting_handle, inFlight_handle]
        exact hleft
  | returned sid =>
    simp only [Shared.step] at hstep
    split at hstep
    · cases hstep
    · cases hstep
      exact h.mono_right (Finset.erase_subset _ _)
  | failed sid error failedMs decidedMs =>
    simp only [Shared.step] at hstep
    split at hstep
    · cases hstep
    · cases hstep
      unfold Apart
      rw [waiting_handle, inFlight_handle]
      exact h.mono_right (Finset.erase_subset _ _)
  | abandoned sid =>
    cases hstep
    exact h.mono (Finset.erase_subset _ _) (Finset.erase_subset _ _)

/-- Handling a failure without taking a slot only counts it. -/
theorem breaker_handle_of_no_slot
    (h : ¬ fm.TakesSlot s.breaker (s.attempts sid) error failedMs decidedMs) :
    (s.handle fm sid error failedMs decidedMs).breaker = fm.counted s.breaker error failedMs := by
  rw [breaker_handle]
  exact FailureManager.decided_counted h

end Shared

namespace SlotsKept

open Shared

variable {fm : FailureManager} {s s' : Shared} {sid : String} {error : NormalizedError}
  {nowMs failedMs decidedMs : Int}

theorem of_not_halfOpen (hsub : s.trials ⊆ s.inFlight) (h : s.breaker.state ≠ .halfOpen) :
    SlotsKept s := ⟨hsub, fun hs => absurd hs h⟩

/-- The answer of the breaker counts itself among the slots. -/
theorem slots_allow (h : SlotsKept s)
    (hs : (s.breaker.allow fm.breaker nowMs).2.state = .halfOpen) :
    (s.breaker.allow fm.breaker nowMs).2.halfOpenCalls =
      (s.setBreaker (s.breaker.allow fm.breaker nowMs).2).trials.card +
        if (s.breaker.allow fm.breaker nowMs).1 then 1 else 0 := by
  by_cases hd : s.breaker.Due fm.breaker nowMs
  · rw [trials_setBreaker_of_not (by simp [hd.1]), CircuitBreaker.allow_of_due hd,
      CircuitBreaker.trial_calls]
    rfl
  · by_cases hb : s.breaker.state = .halfOpen
    · rw [trials_setBreaker_of_halfOpen hb hs, CircuitBreaker.allow_of_halfOpen hb,
        CircuitBreaker.trial_calls, h.slots hb]
    · rw [CircuitBreaker.allow_of_not_due hd hb] at hs
      exact absurd hs hb

theorem refused (h : SlotsKept s) (hr : (s.breaker.allow fm.breaker nowMs).1 = false) :
    SlotsKept (s.setBreaker (s.breaker.allow fm.breaker nowMs).2) where
  sub := trials_setBreaker_sub.trans h.sub
  slots hs := by
    have hslots := h.slots_allow hs
    rwa [hr] at hslots

theorem granted (h : SlotsKept s) (hsid : sid ∉ s.inFlight)
    (hg : (s.breaker.allow fm.breaker nowMs).1 = true) :
    SlotsKept ((s.setBreaker (s.breaker.allow fm.breaker nowMs).2).grant sid) where
  sub := by
    unfold grant
    dsimp only
    split
    · exact Finset.insert_subset_insert _ (trials_setBreaker_sub.trans h.sub)
    · exact (trials_setBreaker_sub.trans h.sub).trans (Finset.subset_insert _ _)
  slots hs := by
    have hslots := h.slots_allow hs
    have hnew : sid ∉ (s.setBreaker (s.breaker.allow fm.breaker nowMs).2).trials := fun hmem =>
      hsid (h.sub (trials_setBreaker_sub hmem))
    have htrials : ((s.setBreaker (s.breaker.allow fm.breaker nowMs).2).grant sid).trials =
        insert sid (s.setBreaker (s.breaker.allow fm.breaker nowMs).2).trials := if_pos hs
    rw [htrials, Finset.card_insert_of_notMem hnew]
    rw [hg, if_pos rfl] at hslots
    exact hslots

theorem release (h : SlotsKept s) (hsid : s.breaker.state = .halfOpen → sid ∉ s.trials) :
    SlotsKept (s.release sid) where
  sub := Finset.erase_subset_erase _ h.sub
  slots hs := by
    show _ = (s.trials.erase sid).card
    rw [Finset.erase_eq_of_notMem (hsid hs)]
    exact h.slots hs

/-- A failure that takes no slot leaves the breaker half-open only where it is not counted. -/
theorem handle (hsub : s.trials ⊆ s.inFlight)
    (h : FailureManager.feedsBreaker error = false → SlotsKept s)
    (ht : ¬ fm.TakesSlot s.breaker (s.attempts sid) error failedMs decidedMs) :
    SlotsKept (s.handle fm sid error failedMs decidedMs) := by
  have hsub' : (s.handle fm sid error failedMs decidedMs).trials ⊆
      (s.handle fm sid error failedMs decidedMs).inFlight := by
    rw [inFlight_handle]
    exact trials_handle_sub.trans hsub
  have hbreaker := breaker_handle_of_no_slot ht
  cases hf : FailureManager.feedsBreaker error with
  | true =>
    refine of_not_halfOpen hsub' ?_
    rw [hbreaker, FailureManager.counted, if_pos hf]
    exact CircuitBreaker.recordFailure_not_halfOpen
  | false =>
    have hsame : fm.counted s.breaker error failedMs = s.breaker := if_neg (by simp [hf])
    refine ⟨hsub', fun hs => ?_⟩
    rw [hbreaker, hsame] at hs
    have htrials : (s.handle fm sid error failedMs decidedMs).trials = s.trials := by
      rw [trials_handle, FailureManager.decided_counted ht, hsame,
        trials_setBreaker_of_halfOpen (s := s.setBreaker s.breaker) hs hs,
        trials_setBreaker_of_halfOpen hs hs]
    rw [hbreaker, hsame, htrials]
    exact (h hf).slots hs

theorem step {e : CallEvent} (h : SlotsKept s) (ha : s.Apart) (he : SlotKeeping fm s e)
    (hstep : s.step fm e = some s') : SlotsKept s' := by
  cases e with
  | ask sid nowMs =>
    simp only [Shared.step] at hstep
    split at hstep
    · cases hstep
    · rename_i hidle
      rw [not_or] at hidle
      cases hstep
      have h₀ : SlotsKept { s with
          backoff := s.backoff.erase sid
          attempts := Function.update s.attempts sid
            (if sid ∈ s.backoff then s.attempts sid + 1 else 1) } := ⟨h.sub, h.slots⟩
      split
      · rename_i hg
        exact h₀.granted hidle.2 hg
      · rename_i hr
        have := h₀.refused (by simpa using hr)
        exact ⟨this.sub, this.slots⟩
  | awake sid operation waitMs nowMs failedMs decidedMs =>
    simp only [Shared.step] at hstep
    split at hstep
    · cases hstep
    · rename_i hwaits
      have hsid : sid ∉ s.inFlight := Finset.disjoint_left.1 ha (not_not.1 hwaits)
      cases hstep
      have h₀ : SlotsKept { s with waiting := s.waiting.erase sid } := ⟨h.sub, h.slots⟩
      split
      · rename_i hg
        exact h₀.granted hsid hg
      · rename_i hr
        have hrefused := h₀.refused (by simpa using hr)
        exact handle hrefused.sub (fun _ => hrefused) (he (by simpa using hr))
  | returned sid =>
    simp only [Shared.step] at hstep
    split at hstep
    · cases hstep
    · cases hstep
      exact of_not_halfOpen (trials_setBreaker_sub.trans (Finset.erase_subset_erase _ h.sub))
        CircuitBreaker.recordSuccess_not_halfOpen
  | failed sid error failedMs decidedMs =>
    simp only [Shared.step] at hstep
    split at hstep
    · cases hstep
    · cases hstep
      refine handle (Finset.erase_subset_erase _ h.sub) (fun hf => h.release fun hs hmem => ?_) he.2
      have := he.1 hs hmem
      rw [hf] at this
      cases this
  | abandoned sid =>
    cases hstep
    have := h.release he
    exact ⟨this.sub, this.slots⟩

theorem run {steps : List SharedStep} (hrun : SharedRun fm {} steps s)
    (hkeep : ∀ st ∈ steps, SlotKeeping fm st.before st.event) : SlotsKept s := by
  have hinit : SlotsKept {} ∧ Shared.Apart {} :=
    ⟨⟨Finset.Subset.refl _, nofun⟩, Finset.disjoint_empty_left _⟩
  exact (hrun.invariant (I := fun s => SlotsKept s ∧ s.Apart) hinit
    (fun h he hstep => ⟨h.1.step h.2 he hstep, h.2.step hstep⟩) hkeep).1

/-- A half-open breaker with no trial in flight grants the next call. -/
theorem allow_of_idle (h : SlotsKept s) (hmax : 0 < fm.breaker.halfOpenMaxCalls)
    (hs : s.breaker.state = .halfOpen) (hidle : s.inFlight = ∅) (nowMs : Int) :
    (s.breaker.allow fm.breaker nowMs).1 = true := by
  have htrials : s.trials = ∅ := Finset.subset_empty.1 (hidle ▸ h.sub)
  have hslots := h.slots hs
  rw [htrials, Finset.card_empty] at hslots
  rw [CircuitBreaker.allow_of_halfOpen hs, CircuitBreaker.trial, if_pos (by omega)]

end SlotsKept

/-- While the breaker is half-open, every call in flight is one of its trials. -/
def AllTrials (s : Shared) : Prop := s.breaker.state = .halfOpen → s.trials = s.inFlight

namespace AllTrials

open Shared

variable {fm : FailureManager} {s s' : Shared} {sid : String} {error : NormalizedError}
  {nowMs failedMs decidedMs : Int}

theorem allow (h : AllTrials s) (hno : s.breaker.Due fm.breaker nowMs → s.inFlight = ∅) :
    AllTrials (s.setBreaker (s.breaker.allow fm.breaker nowMs).2) := by
  intro hs
  by_cases hd : s.breaker.Due fm.breaker nowMs
  · rw [trials_setBreaker_of_not (by simp [hd.1])]
    exact (hno hd).symm
  · have hb : s.breaker.state = .halfOpen := by
      have := hs
      rwa [show (s.setBreaker _).breaker = (s.breaker.allow fm.breaker nowMs).2 from rfl,
        CircuitBreaker.allow_state, if_neg hd] at this
    exact (trials_setBreaker_of_halfOpen hb hs).trans (h hb)

theorem grant (h : AllTrials s) : AllTrials (s.grant sid) := by
  intro hs
  have htrials : (s.grant sid).trials = insert sid s.trials := if_pos hs
  rw [htrials, h hs]
  rfl

theorem release (h : AllTrials s) : AllTrials (s.release sid) := fun hs =>
  congrArg (Finset.erase · sid) (h hs)

theorem handle (h : AllTrials s)
    (ht : ¬ fm.TakesSlot s.breaker (s.attempts sid) error failedMs decidedMs) :
    AllTrials (s.handle fm sid error failedMs decidedMs) := by
  intro hs
  have hbreaker := breaker_handle_of_no_slot ht
  rw [hbreaker] at hs
  cases hf : FailureManager.feedsBreaker error with
  | true =>
    rw [FailureManager.counted, if_pos hf] at hs
    exact absurd hs CircuitBreaker.recordFailure_not_halfOpen
  | false =>
    have hsame : fm.counted s.breaker error failedMs = s.breaker := if_neg (by simp [hf])
    rw [hsame] at hs
    rw [trials_handle, FailureManager.decided_counted ht, hsame,
      trials_setBreaker_of_halfOpen (s := s.setBreaker s.breaker) hs hs,
      trials_setBreaker_of_halfOpen hs hs, inFlight_handle]
    exact h hs

theorem step {e : CallEvent} (h : AllTrials s) (he : SlotKeeping fm s e) (hno : NoOlderCall fm s e)
    (hstep : s.step fm e = some s') : AllTrials s' := by
  cases e with
  | ask sid nowMs =>
    simp only [Shared.step] at hstep
    split at hstep
    · cases hstep
    · cases hstep
      have hallow : AllTrials (s.setBreaker (s.breaker.allow fm.breaker nowMs).2) := h.allow hno
      split
      · exact AllTrials.grant hallow
      · exact hallow
  | awake sid operation waitMs nowMs failedMs decidedMs =>
    simp only [Shared.step] at hstep
    split at hstep
    · cases hstep
    · cases hstep
      have h₀ : AllTrials { s with waiting := s.waiting.erase sid } := h
      split
      · exact (h₀.allow hno).grant
      · rename_i hr
        exact (h₀.allow hno).handle (he (by simpa using hr))
  | returned sid =>
    simp only [Shared.step] at hstep
    split at hstep
    · cases hstep
    · cases hstep
      exact fun hs => absurd hs CircuitBreaker.recordSuccess_not_halfOpen
  | failed sid error failedMs decidedMs =>
    simp only [Shared.step] at hstep
    split at hstep
    · cases hstep
    · cases hstep
      exact h.release.handle he.2
  | abandoned sid =>
    cases hstep
    exact h.release

theorem run {steps : List SharedStep} (hrun : SharedRun fm {} steps s)
    (hkeep : ∀ st ∈ steps, SlotKeeping fm st.before st.event)
    (hno : ∀ st ∈ steps, NoOlderCall fm st.before st.event) : AllTrials s := by
  have hinit : AllTrials {} := fun _ => rfl
  exact hrun.invariant (P := fun s e => SlotKeeping fm s e ∧ NoOlderCall fm s e) hinit
    (fun h he hstep => h.step he.1 he.2 hstep) fun st hst => ⟨hkeep st hst, hno st hst⟩

end AllTrials

/-- In a run whose steps lose no slot, the slots granted by a half-open breaker are those of its
trials in flight, so that with no call in flight it grants the next one.  They are all the calls in
flight when the breaker never half-opened while an older call was. -/
theorem half_open_slots_in_flight (fm : FailureManager) (hmax : 0 < fm.breaker.halfOpenMaxCalls)
    {steps : List SharedStep} {s : Shared} (hrun : SharedRun fm {} steps s)
    (hkeep : ∀ st ∈ steps, SlotKeeping fm st.before st.event) :
    (s.breaker.state = .halfOpen →
      s.breaker.halfOpenCalls = s.trials.card ∧ s.trials ⊆ s.inFlight ∧
        (s.inFlight = ∅ → ∀ nowMs, (s.breaker.allow fm.breaker nowMs).1 = true)) ∧
    ((∀ st ∈ steps, NoOlderCall fm st.before st.event) → s.breaker.state = .halfOpen →
      s.breaker.halfOpenCalls = s.inFlight.card) := by
  have hslots := SlotsKept.run hrun hkeep
  refine ⟨fun hs => ⟨hslots.slots hs, hslots.sub, hslots.allow_of_idle hmax hs⟩, fun hno hs => ?_⟩
  rw [hslots.slots hs, AllTrials.run hrun hkeep hno hs]

/-! ## Two sessions and one trial -/

/-- One failure opens the breaker, and one trial is granted. -/
def FailureManager.sample : FailureManager where
  retry := ⟨3, 1000, 8000, by decide⟩
  breaker := ⟨1, 30000, 1⟩

/-- A request that reaches no one. -/
def networkFailure : NormalizedError := mkError .networkError "NETWORK_FAILURE" "TransportGateway" []

/-- A request refused for its token. -/
def unauthorized : NormalizedError := mkError .authnError "HTTP_401" "TransportGateway" []

/-- A call of the first session fails, which opens the breaker; once its duration is over, the
second session is granted the trial. -/
theorem sample_trial_in_flight : ∃ steps s, SharedRun .sample {} steps s ∧
    (∀ st ∈ steps, SlotKeeping .sample st.before st.event) ∧
    (∀ st ∈ steps, NoOlderCall .sample st.before st.event) ∧
    s.breaker = ⟨.halfOpen, 1, some 0, 1⟩ ∧ s.inFlight = {"second"} ∧ s.waiting = ∅ := by
  have hrun : SharedRun .sample {} [] {} := .refl
  have hrun := hrun.tail (e := .ask "first" 0) rfl
  have hrun := hrun.tail (e := .failed "first" networkFailure 0 0) rfl
  have hrun := hrun.tail (e := .ask "second" 30000) rfl
  exact ⟨_, _, hrun, by decide, by decide, by decide, by decide, by decide⟩

theorem half_open_slots_in_flight_sample : ∃ steps s, SharedRun .sample {} steps s ∧
    s.breaker.state = .halfOpen ∧ s.breaker.halfOpenCalls = s.inFlight.card := by
  obtain ⟨steps, s, hrun, hkeep, hno, hs, -⟩ := sample_trial_in_flight
  have hhalf : s.breaker.state = .halfOpen := by rw [hs]
  exact ⟨steps, s, hrun, hhalf,
    (half_open_slots_in_flight .sample (by decide) hrun hkeep).2 hno hhalf⟩

/-- The trial that is answered with a 401 keeps its slot: no call is in flight, and none is
granted any more. -/
theorem unauthorized_trial_loses_slot : ∃ steps s, SharedRun .sample {} steps s ∧
    (∀ st ∈ steps, NoOlderCall .sample st.before st.event) ∧ s.breaker.state = .halfOpen ∧
    s.inFlight = ∅ ∧ s.breaker.halfOpenCalls = 1 ∧
    ∀ nowMs, (s.breaker.allow FailureManager.sample.breaker nowMs).1 = false := by
  have hrun : SharedRun .sample {} [] {} := .refl
  have hrun := hrun.tail (e := .ask "first" 0) rfl
  have hrun := hrun.tail (e := .failed "first" networkFailure 0 0) rfl
  have hrun := hrun.tail (e := .ask "second" 30000) rfl
  have hrun := hrun.tail (e := .failed "second" unauthorized 30100 30100) rfl
  exact ⟨_, _, hrun, by decide, by decide, by decide, by decide, fun _ => rfl⟩

end AgenticLocalApp
