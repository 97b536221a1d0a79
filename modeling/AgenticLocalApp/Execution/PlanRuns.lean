import AgenticLocalApp.Execution.PlanDrain

/-!
# Whole runs of a plan

The loop from one wait to the next: every time round ends a task, and the run is left with the plan
and all of its tasks terminal, unless a task was launched whose worker cannot do its work, or the
collected content is fitted for ever.
-/

namespace AgenticLocalApp

open Prog PlanExecution

/-- How a run ends: the plan and its tasks are terminal, the counters are those of the tasks, and
the result accounts for every task, unless the plan was interrupted; and where nothing cut the run
short, every skipped task names what it waited for. -/
structure EndedWell (mem : PlanExecution) (o : PlanOutcome) : Prop where
  plan : o.plan = mem.plan
  tasks : o.tasks = mem.tasks
  planTerminal : mem.plan.status.terminal
  tasksTerminal : ∀ t ∈ mem.tasks, t.status.terminal
  counters : mem.plan.withCounters (mem.tasks.map TaskRecord.status) = mem.plan
  result : mem.plan.status ≠ .interrupted → ∃ content, o.executionResult = some content ∧
    content.AccountsFor (mem.tasks.map TaskRecord.taskId)
  explained : ¬ mem.Over → Explained mem.tasks

section Rules

variable {r : PlanRunner} {plan : PlanRecord} {tasks : List TaskRecord} {w : World}
  {mem : PlanExecution}

/-- What the run of a plan comes to: its end, or an exception while a task runs whose worker cannot
do its work. -/
def PlanEnds (r : PlanRunner) (plan : PlanRecord) (tasks : List TaskRecord) :
    Except Exc PlanOutcome → World × PlanExecution → Prop :=
  after (fun o s => s.2.Tracks plan tasks s.1.store ∧ EndedWell s.2 o)
    (Failed r plan tasks)

theorem wp_buildResult {Q} (ht : mem.Tracks plan tasks w.store) (hterm : mem.plan.status.terminal)
    (hint : mem.plan.status ≠ .interrupted) (hall : ∀ t ∈ mem.tasks, t.status.terminal)
    (hbad : ∀ e : Exc, e.Uncoded → Unable r plan tasks mem → Q (.error e) (w, mem))
    (h : ∀ content : ExecutionResultContent,
      content.AccountsFor (mem.tasks.map TaskRecord.taskId) → Q (.ok content) (w, mem)) :
    wp (planContract r plan tasks) r.buildResult Q (w, mem) := by
  unfold PlanRunner.buildResult
  rw [wp_bind, wp_mem_get, after_ok, wp_bind, wp_ofExcept]
  obtain ⟨content, hbuild, hfor⟩ | ⟨⟨t, hmem, hunreadable⟩, message, hraises⟩ :=
    ResultCollector.build_cases r.resultCollector mem.outputs mem.chunks hterm hint ht.graph.planIds
      hall ht.graph.sorted
  · rw [hbuild, after_ok]
    cases hfit : PayloadGuard.fitMessage r.payload.maxMessageBytes r.fitRounds content with
    | none => exact ⟨ht, hterm, hall, content, hbuild, hfit⟩
    | some fitted => exact h fitted (PayloadGuard.accountsFor_fitMessage hfit hfor)
  · rw [hraises]
    exact hbad _ (uncoded_valueError message) (.result hterm hmem hunreadable)

/-- The end of a plan that is not interrupted. -/
theorem wp_endPlan {target : PlanState} {stopReason : Option String} {exceeded : Bool}
    (ht : mem.Tracks plan tasks w.store) (hd : Disciplined mem.plan mem.tasks)
    (ha : canTransition planTransitions mem.plan.status target) (hterm : target.terminal)
    (hint : target ≠ .interrupted) (hall : ∀ t ∈ mem.tasks, t.status.terminal)
    (hex : ¬ mem.Over → Explained mem.tasks) :
    wp (planContract r plan tasks)
      (do
        transitionPlan target stopReason
        PlanRunner.outcome (some (← r.buildResult)) false exceeded)
      (PlanEnds r plan tasks) (w, mem) := by
  rw [wp_bind]
  refine wp_transitionPlan ht hd ha fun now w' ht' => ?_
  rw [after_ok, wp_bind]
  refine wp_buildResult ht' ?_ ?_ hall (fun e he hun => ⟨he, ht', hun⟩) fun content hfor => ?_
  · rwa [PlanRecord.status_moveTo]
  · rwa [PlanRecord.status_moveTo]
  · refine ⟨ht', rfl, rfl, ?_, hall, PlanRecord.withCounters_moveTo .., fun _ => ⟨content, rfl, hfor⟩,
      hex⟩
    rwa [PlanRecord.status_moveTo]

theorem wp_completed (ht : mem.Tracks plan tasks w.store) (hs : Steady none mem)
    (hst : mem.plan.status = .running) (hall : ∀ t ∈ mem.tasks, t.status.terminal)
    (hex : Explained mem.tasks) :
    wp (planContract r plan tasks) r.completed (PlanEnds r plan tasks) (w, mem) := by
  unfold PlanRunner.completed
  have hnone : ¬ openTasks mem ≠ [] :=
    not_not.2 (List.filter_eq_nil_iff.2 fun t hmem => by simpa using hall t hmem)
  rw [wp_bind, wp_mem_get, after_ok, if_neg hnone]
  exact wp_endPlan ht hs.disciplined (by rw [hst]; decide) (by decide) (by decide) hall
    fun _ => hex

theorem wp_stopped {target : PlanState} {stopReason : String}
    (ht : mem.Tracks plan tasks w.store) (hs : Steady none mem) (hst : mem.plan.status = .running)
    (htarget : target ∈ [PlanState.shortCircuitedOnSuccess, .stoppedOnFailure]) :
    wp (planContract r plan tasks) (r.stopped target stopReason) (PlanEnds r plan tasks) (w, mem) := by
  unfold PlanRunner.stopped
  rw [wp_bind]
  refine wp_mem_modify ht hs.disciplined rfl rfl (fun _ => .inr (.inr rfl)) ?_
  have hs₁ : Steady none { mem with stopReason := some stopReason } :=
    ⟨hs.disciplined, hs.nodup, hs.running, hs.locks⟩
  rw [after_ok, wp_bind]
  refine wp_drain (ht.of_same rfl rfl rfl rfl) hs₁ (fun e w' mem' herr ht' hun => ⟨herr, ht', hun⟩)
    fun w₂ mem₂ ht₂ hs₂ hc₂ hrun₂ => ?_
  rw [after_ok, wp_bind]
  refine wp_markRemaining ht₂ hs₂ hrun₂ (.inl rfl) fun w₃ f ht₃ hd₃ hall => ?_
  have hst₂ : mem₂.plan.status = .running := by rw [hc₂.plan, hst]
  have hover : (mem₂.withTasks f).Over := by
    refine .inr (.inr ?_)
    rw [show (mem₂.withTasks f).stopReason = some stopReason from hc₂.stopReason]
    rfl
  refine wp_endPlan ht₃ hd₃ ?_ ?_ ?_ hall fun hno => absurd hover hno
  · show canTransition planTransitions mem₂.plan.status target
    rw [hst₂]
    revert htarget
    cases target <;> decide
  · revert htarget
    cases target <;> decide
  · rintro rfl
    exact absurd htarget (by decide)

theorem wp_interrupted (ht : mem.Tracks plan tasks w.store) (hs : Steady none mem)
    (hst : mem.plan.status = .pending ∨ mem.plan.status = .running) :
    wp (planContract r plan tasks) r.interrupted (PlanEnds r plan tasks) (w, mem) := by
  unfold PlanRunner.interrupted
  rw [wp_bind]
  refine wp_mem_modify ht hs.disciplined rfl rfl (fun _ => .inr (.inl rfl)) ?_
  have hs₁ : Steady none { mem with interrupting := true } :=
    ⟨hs.disciplined, hs.nodup, hs.running, hs.locks⟩
  rw [after_ok, wp_bind]
  refine wp_drain (ht.of_same rfl rfl rfl rfl) hs₁ (fun e w' mem' herr ht' hun => ⟨herr, ht', hun⟩)
    fun w₂ mem₂ ht₂ hs₂ hc₂ hrun₂ => ?_
  rw [after_ok, wp_bind]
  refine wp_markRemaining ht₂ hs₂ hrun₂ (.inr rfl) fun w₃ f ht₃ hd₃ hall => ?_
  rw [after_ok, wp_bind]
  refine wp_transitionPlan ht₃ hd₃ ?_ fun now w' ht' => ?_
  · show canTransition planTransitions mem₂.plan.status .interrupted
    rw [hc₂.plan]
    rcases hst with he | he <;> exact he ▸ by decide
  · refine ⟨ht', rfl, rfl, ?_, hall, PlanRecord.withCounters_moveTo .., fun hno => ?_,
      fun hno => absurd (.inr (.inl hc₂.interrupting)) hno⟩
    · rw [PlanRecord.status_moveTo]
      decide
    · rw [PlanRecord.status_moveTo] at hno
      exact absurd rfl hno

theorem wp_budgetFailed (ht : mem.Tracks plan tasks w.store) (hs : Steady none mem)
    (hst : mem.plan.status = .pending ∨ mem.plan.status = .running) (hrun : mem.running = [])
    (hexceeded : mem.budgetExceeded) :
    wp (planContract r plan tasks) r.budgetFailed (PlanEnds r plan tasks) (w, mem) := by
  unfold PlanRunner.budgetFailed
  rw [wp_bind]
  refine wp_markRemaining ht hs hrun (.inl rfl) fun w₃ f ht₃ hd₃ hall => ?_
  refine wp_endPlan ht₃ hd₃ ?_ (by decide) (by decide) hall fun hno =>
    absurd (.inl hexceeded) hno
  show canTransition planTransitions mem.plan.status .failed
  rcases hst with he | he <;> rw [he] <;> decide

/-! ## The loop -/

/-- What holds at the head of the loop. -/
structure Going (started : Bool) (mem : PlanExecution) : Prop where
  fresh : ¬ started → Fresh mem
  status : started → mem.plan.status = .running
  steady : Steady none mem
  flowing : started → ¬ mem.budgetExceeded → Flowing mem.tasks
  interrupting : ¬ mem.interrupting
  stopReason : mem.stopReason = none

/-- What holds once tasks were launched, or the deadline was seen to have passed. -/
structure Scheduled (mem mem' : PlanExecution) : Prop where
  steady : Steady none mem'
  fewer : openCount mem'.tasks ≤ openCount mem.tasks
  status : mem'.plan.status = .pending ∨ mem'.plan.status = .running
  started : mem'.running ≠ [] → mem'.plan.status = .running
  going : ¬ mem'.budgetExceeded → mem'.plan.status = .running ∧ Flowing mem'.tasks ∧
    (mem'.running = [] → ∀ t ∈ mem'.tasks, t.status.terminal)
  interrupting : ¬ mem'.interrupting
  stopReason : mem'.stopReason = none

theorem wp_deadlinePassed {Q}
    (hbad : ∀ e : Exc, e.Uncoded → mem.session.Boundless → Q (.error e) (w, mem))
    (h : ∀ passed, Q (.ok passed) (w, mem)) :
    wp (planContract r plan tasks) PlanRunner.deadlinePassed Q (w, mem) := by
  unfold PlanRunner.deadlinePassed
  rw [wp_bind, wp_mem_get, after_ok]
  cases hstarted : mem.session.startedAt with
  | none => exact h false
  | some started =>
    dsimp only
    rw [wp_ite]
    refine ⟨fun hlimit => ?_, fun _ => ?_⟩
    · exact hbad _ (.inr ⟨_, rfl⟩) ⟨by rw [hstarted]; rfl, hlimit⟩
    · simp only [wp_bind]
      exact wp_run_now fun now => h _

theorem wp_schedule {started : Bool} {Q} (ht : mem.Tracks plan tasks w.store)
    (hg : Going started mem)
    (hbad : ∀ (e : Exc) w' mem', e.Uncoded → mem'.Tracks plan tasks w'.store →
      Unable r plan tasks mem' → Q (.error e) (w', mem'))
    (h : ∀ w' mem', mem'.Tracks plan tasks w'.store → Scheduled mem mem' → Q (.ok ()) (w', mem')) :
    wp (planContract r plan tasks) (r.schedule started) Q (w, mem) := by
  have hstatus : mem.plan.status = .pending ∨ mem.plan.status = .running := by
    cases started with
    | false => exact .inl (hg.fresh (by decide)).status
    | true => exact .inr (hg.status rfl)
  have hstarted : mem.running ≠ [] → mem.plan.status = .running := by
    intro hrun
    cases started with
    | false => exact absurd (hg.fresh (by decide)).running hrun
    | true => exact hg.status rfl
  unfold PlanRunner.schedule
  rw [wp_bind, wp_mem_get, after_ok, wp_ite]
  refine ⟨fun hgo => ?_, fun hexceeded => ?_⟩
  · rw [wp_bind]
    refine wp_deadlinePassed (fun e he hsession => hbad e w mem he ht (.deadline hstatus hsession))
      fun passed => ?_
    rw [after_ok, wp_ite]
    refine ⟨fun _ => ?_, fun _ => ?_⟩
    · refine wp_mem_modify ht hg.steady.disciplined rfl rfl (fun _ => .inl rfl) ?_
      exact h w _ (ht.of_same rfl rfl rfl rfl)
        ⟨⟨hg.steady.disciplined, hg.steady.nodup, hg.steady.running, hg.steady.locks⟩, le_refl _,
          hstatus, hstarted, fun hno => absurd rfl hno, hg.interrupting, hg.stopReason⟩
    · have hlaunch {w₁ : World} {mem₁ : PlanExecution} (ht₁ : mem₁.Tracks plan tasks w₁.store)
          (hs₁ : Steady none mem₁) (hfl₁ : Flowing mem₁.tasks) (hst₁ : mem₁.plan.status = .running)
          (hint₁ : mem₁.interrupting = mem.interrupting)
          (hstop₁ : mem₁.stopReason = mem.stopReason)
          (hex₁ : mem₁.budgetExceeded = mem.budgetExceeded)
          (hle₁ : openCount mem₁.tasks ≤ openCount mem.tasks) :
          wp (planContract r plan tasks) (launchReady r.translator) Q (w₁, mem₁) := by
        have hnot : ¬ mem₁.Over := by
          unfold Over
          rw [hint₁, hstop₁, hex₁, hg.stopReason]
          simp [hgo, hg.interrupting]
        refine wp_launchReady ht₁ hs₁ hfl₁ hnot (fun t message w' mem' ht' hun =>
          hbad _ w' mem' (uncoded_valueError message) ht' (.command hun)) ?_
        intro w₂ mem₂ ht₂ hs₂ hfl₂ hc₂ hle₂ hall₂
        have hst₂ : mem₂.plan.status = .running := by rw [hc₂.plan, hst₁]
        refine h w₂ mem₂ ht₂ ⟨hs₂, hle₂.trans hle₁, .inr hst₂, fun _ => hst₂,
          fun _ => ⟨hst₂, hfl₂, hall₂⟩, ?_, ?_⟩
        · rw [hc₂.interrupting, hint₁]
          exact hg.interrupting
        · rw [hc₂.stopReason, hstop₁]
          exact hg.stopReason
      cases started with
      | true =>
        simp only [not_true_eq_false, if_false]
        exact hlaunch ht hg.steady (hg.flowing rfl hgo) (hg.status rfl) rfl rfl rfl (le_refl _)
      | false =>
        simp only [Bool.false_eq_true, not_false_eq_true, if_true]
        rw [wp_bind]
        refine wp_startPlan ht (hg.fresh (by decide))
          fun w₁ mem₁ ht₁ hs₁ hfl₁ hst₁ _ hstop₁ hint₁ hex₁ hle₁ => ?_
        exact hlaunch ht₁ hs₁ hfl₁ hst₁ hint₁ hstop₁ hex₁ hle₁
  · refine h w mem ht ⟨hg.steady, le_refl _, hstatus, hstarted, fun hno => ?_, hg.interrupting,
      hg.stopReason⟩
    exact absurd hno hexceeded

/-- The workers that came back are those of running tasks, each once, and there is one if anything
came back. -/
theorem finished_spec {σ : Store} {done : List (String × ExecutorOutcome)}
    (ht : mem.Tracks plan tasks w.store) (hs : Steady none mem)
    (hdone : ∀ d ∈ done, d.1 ∈ mem.running) :
    let finished := r.finished σ mem done
    (finished.map Prod.fst).Nodup ∧
      (∀ d ∈ finished, d.1 ∈ mem.running ∧ Served r plan tasks d) ∧
      (done ≠ [] → finished ≠ []) := by
  have hmem {d : String × Except Exc Ended} : d ∈ r.finished σ mem done ↔
      ∃ t ∈ mem.tasks, ∃ outcome, done.lookup t.taskId = some outcome ∧
        (t.taskId, r.execute σ mem.plan t outcome) = d := by
    simp only [PlanRunner.finished, List.mem_filterMap, Option.map_eq_some_iff]
  refine ⟨?_, fun d hd => ?_, fun hne hnil => ?_⟩
  · have hids : (r.finished σ mem done).map Prod.fst =
        (mem.tasks.filter fun t => (done.lookup t.taskId).isSome).map TaskRecord.taskId := by
      unfold PlanRunner.finished
      generalize mem.tasks = us
      induction us with
      | nil => rfl
      | cons t us ih =>
        cases hl : done.lookup t.taskId <;> simp [hl, ih]
    rw [hids]
    exact ht.graph.nodup.sublist ((List.filter_sublist).map _)
  · obtain ⟨t, htm, outcome, hl, rfl⟩ := hmem.1 hd
    have hid : t.taskId ∈ done.map Prod.fst := lookup_isSome_iff.1 (by rw [hl]; rfl)
    obtain ⟨d, hd, he⟩ := List.mem_map.1 hid
    exact ⟨he ▸ hdone d hd, served_execute ht htm outcome⟩
  · obtain ⟨d, hd⟩ := List.exists_mem_of_ne_nil _ hne
    obtain ⟨t, htm, -, hid⟩ := mem_runningIds.1 (hs.running_iff.1 (hdone d hd))
    have hl : (done.lookup t.taskId).isSome :=
      lookup_isSome_iff.2 (hid ▸ List.mem_map_of_mem hd)
    obtain ⟨outcome, hl⟩ := Option.isSome_iff_exists.1 hl
    have hin := hmem.2 ⟨t, htm, outcome, hl, rfl⟩
    rw [hnil] at hin
    exact absurd hin List.not_mem_nil

theorem wp_isCancelled {C : Contract Run} {Q} :
    wp C PlanRunner.isCancelled Q (w, mem) ↔ Q (.ok w.token.isCancelled) (w, mem) := Iff.rfl

/-- Every time round the loop ends a task, or the run was interrupted and the next time is the
last. -/
theorem wp_loop {fuel : Nat} {started : Bool} (ht : mem.Tracks plan tasks w.store)
    (hg : Going started mem)
    (hfuel : openCount mem.tasks + 2 ≤ fuel ∨ w.token.isCancelled ∧ 1 ≤ fuel) :
    wp (planContract r plan tasks) (r.loop fuel started) (PlanEnds r plan tasks) (w, mem) := by
  induction fuel generalizing w mem started with
  | zero => omega
  | succ fuel ih =>
    unfold PlanRunner.loop
    rw [wp_bind, wp_isCancelled, after_ok, wp_ite]
    refine ⟨fun _ => ?_, fun hcan => ?_⟩
    · refine wp_interrupted ht hg.steady ?_
      cases started with
      | false => exact .inl (hg.fresh (by decide)).status
      | true => exact .inr (hg.status rfl)
    have hfuel : openCount mem.tasks + 2 ≤ fuel + 1 := hfuel.resolve_right fun h => hcan h.1
    rw [wp_bind]
    refine wp_schedule ht hg (fun e w' mem' he ht' hun => ⟨he, ht', hun⟩) fun w₁ mem₁ ht₁ hs₁ => ?_
    rw [after_ok, wp_bind, wp_mem_get, after_ok, wp_ite]
    refine ⟨fun hnone => ?_, fun hsome => ?_⟩
    · rw [wp_ite]
      refine ⟨fun hexceeded => wp_budgetFailed ht₁ hs₁.steady hs₁.status hnone hexceeded,
        fun hgo => ?_⟩
      obtain ⟨hst, hfl₁, hall⟩ := hs₁.going hgo
      exact wp_completed ht₁ hs₁.steady hst (hall hnone) hfl₁.explained
    · have hst₁ := hs₁.started hsome
      rw [wp_bind, wp_query]
      refine ⟨trivial, fun answer s' hrely => ?_⟩
      obtain ⟨w₂, mem₂⟩ := s'
      obtain ⟨⟨⟨hspawned, hnodup, hdone⟩, hun, hback⟩, rfl : mem₂ = mem₁⟩ := hrely
      have ht₂ : mem₂.Tracks plan tasks w₂.store := ht₁.undisturbed hun
      rw [after_ok, wp_bind]
      refine wp_persistPids ht₂ hs₁.steady hspawned fun w₃ f htok hf ht₃ hs₃ => ?_
      have hle₃ : openCount (mem₂.tasks.map f) ≤ openCount mem.tasks := by
        refine le_trans (openCount_map_le fun t hmem hterm => ?_) hs₁.fewer
        rwa [(hf t hmem).2.1]
      have hfl₃ : ¬ mem₂.budgetExceeded → Flowing (mem₂.tasks.map f) := fun hgo =>
        (hs₁.going hgo).2.1.map_same fun t hmem => hf t hmem
      rw [after_ok, wp_bind, wp_isCancelled, after_ok, wp_ite]
      refine ⟨fun hcan₃ => ?_, fun hcan₃ => ?_⟩
      · exact ih ht₃ ⟨fun hno => absurd rfl hno, fun _ => hst₁, hs₃, fun _ => hfl₃, hs₁.interrupting,
          hs₁.stopReason⟩ (.inr ⟨hcan₃, by omega⟩)
      · rw [wp_bind]
        refine wp_lift (p := readStore) planContract_local ?_
        rw [wp_readStore, after_ok, wp_bind, wp_mem_get, after_ok, wp_bind]
        obtain ⟨hnd, hserved, hne⟩ := finished_spec (r := r) (σ := w₃.store) ht₃ hs₃ hdone
        have hne := hne (hback.resolve_right fun hcan' => hcan₃ (htok ▸ hcan'))
        refine wp_finishDone ht₃ hs₃ hnd hserved hfl₃ (fun e w' mem' herr ht' hun => ⟨herr, ht', hun⟩)
          (fun w₄ mem₄ stop ht₄ hs₄ hc₄ htarget => ?_) fun w₄ mem₄ ht₄ hs₄ hc₄ hle₄ hfl₄ => ?_
        · exact wp_stopped ht₄ hs₄ (by rw [hc₄.plan]; exact hst₁) htarget
        · have hpos := List.length_pos_of_ne_nil hne
          refine ih ht₄ ⟨fun hno => absurd rfl hno, fun _ => by rw [hc₄.plan]; exact hst₁, hs₄,
            fun _ hgo => hfl₄ (by rwa [hc₄.budgetExceeded] at hgo), ?_, ?_⟩ (.inl ?_)
          · rw [hc₄.interrupting]
            exact hs₁.interrupting
          · rw [hc₄.stopReason]
            exact hs₁.stopReason
          · have hle : openCount mem₄.tasks + _ ≤ openCount (mem₂.tasks.map f) := hle₄
            omega

/-! ## The whole run -/

/-- The records of a plan as they are stored. -/
structure StoredAs (plan : PlanRecord) (tasks : List TaskRecord) (σ : Store) : Prop where
  plan : σ.getPlan plan.sessionId plan.planId = some plan
  tasks : ∀ t ∈ tasks, σ.getTask t.sessionId t.taskId = some t

theorem validateDependencies_ok (h : mem.validateDependencies = .ok ())
    (hnodup : mem.order.Nodup) :
    (∀ t ∈ mem.tasks, ∀ d ∈ t.dependsOn, d ∈ mem.order ∧
      (mem.plan.sequential → mem.order.idxOf d < mem.order.idxOf t.taskId)) ∧
    ∀ P : String → Prop, (∃ t ∈ mem.tasks, P t.taskId) →
      ∃ t ∈ mem.tasks, P t.taskId ∧ ∀ d ∈ t.dependsOn, ¬ P d := by
  unfold validateDependencies at h
  obtain ⟨_, hdeps, hkahn⟩ := bind_eq_ok.1 h
  constructor
  · intro t ht d hd
    have ht := forM_eq_ok_iff.1 hdeps t ht
    have hd := forM_eq_ok_iff.1 ht d hd
    dsimp only at hd
    by_cases hknown : d ∈ mem.order
    · rw [if_neg (not_not.2 hknown)] at hd
      refine ⟨hknown, fun hseq => ?_⟩
      by_contra hle
      rw [if_pos ⟨hseq, not_lt.1 hle⟩] at hd
      cases hd
    · rw [if_pos hknown] at hd
      cases hd
  · intro P hP
    let rows := mem.tasks.map fun t => (t.taskId, t.dependsOn)
    have hall : (Kahn.order rows).1.length = rows.length := by
      by_contra hne
      rw [List.length_map] at hne
      rw [if_pos hne] at hkahn
      cases hkahn
    have hkeys : rows.map Prod.fst = mem.order := by
      simp only [rows, order, List.map_map, Function.comp_def]
    obtain ⟨t, ht, hPt⟩ := hP
    obtain ⟨x, hx, hPx, hfree⟩ := Kahn.exists_source (P := P) (hkeys ▸ hnodup) hall
      ⟨t.taskId, hkeys ▸ List.mem_map_of_mem ht, hPt⟩
    rw [hkeys] at hx
    obtain ⟨u, hu, rfl⟩ := List.mem_map.1 hx
    refine ⟨u, hu, hPx, fun d hd => hfree u.dependsOn ?_ d hd⟩
    exact List.mem_map_of_mem (f := fun t : TaskRecord => (t.taskId, t.dependsOn)) hu

/-- What the checks before the first write have made sure of. -/
theorem accepted {session : SessionRecord}
    (hv : (PlanExecution.create plan tasks session).validate = .ok ()) :
    Fresh (PlanExecution.create plan tasks session) ∧
      Schedulable plan (PlanExecution.create plan tasks session).tasks := by
  let mem := PlanExecution.create plan tasks session
  unfold validate at hv
  obtain ⟨_, hplan, hv⟩ := bind_eq_ok.1 hv
  dsimp only at hv
  have hnodup : mem.order.Nodup := by
    by_contra hno
    rw [if_pos hno] at hv
    cases hv
  rw [if_neg (not_not.2 hnodup)] at hv
  obtain ⟨_, htasks, hdeps⟩ := bind_eq_ok.1 hv
  have htask : ∀ t ∈ mem.tasks, t.planId = plan.planId ∧ t.status = .pending := by
    intro t ht
    have ht := forM_eq_ok_iff.1 htasks t ht
    by_cases hid : t.planId ≠ (PlanExecution.create plan tasks session).plan.planId
    · rw [if_pos hid] at ht
      cases ht
    · rw [if_neg hid] at ht
      refine ⟨not_not.1 hid, ?_⟩
      have := assertTransition_eq_ok_iff.1 ht
      revert this
      cases t.status <;> decide
  obtain ⟨hknown, hsource⟩ := validateDependencies_ok hdeps hnodup
  have hpending : plan.status = .pending := by
    have := assertTransition_eq_ok_iff.1 hplan
    revert this
    show canTransition planTransitions plan.status .running → _
    cases plan.status <;> decide
  refine ⟨⟨hpending, fun t ht => (htask t ht).2, rfl, rfl⟩, hnodup, fun t ht => (htask t ht).1,
    fun t ht d hd => (hknown t ht d hd).1, fun hseq t ht d hd => (hknown t ht d hd).2 hseq, hsource,
    ?_⟩
  have total : ∀ a b : TaskRecord, a.orderIndex ≤ b.orderIndex ∨ b.orderIndex ≤ a.orderIndex :=
    fun a b => le_total _ _
  exact List.pairwise_insertionSort (fun a b : TaskRecord => a.orderIndex ≤ b.orderIndex) tasks

theorem wp_planExecution {session : SessionRecord}
    (hv : (PlanExecution.create plan tasks session).validate = .ok ())
    (hst : StoredAs plan tasks w.store) :
    wp (planContract r plan (PlanExecution.create plan tasks session).tasks) r.planExecution
      (PlanEnds r plan (PlanExecution.create plan tasks session).tasks)
      (w, PlanExecution.create plan tasks session) := by
  obtain ⟨hf, hsched⟩ := accepted hv
  let mem := PlanExecution.create plan tasks session
  have ht : mem.Tracks plan mem.tasks w.store := by
    refine ⟨rfl, rfl, hsched, fun t htm => hst.tasks t ?_, hst.plan⟩
    exact (List.mem_insertionSort _).1 htm
  have hcount : openCount mem.tasks + 2 ≤ mem.tasks.length + 2 :=
    Nat.add_le_add_right List.countP_le_length 2
  unfold PlanRunner.planExecution
  rw [wp_bind, wp_mem_get, after_ok, wp_bind, wp_ofExcept]
  rw [show (PlanExecution.create plan tasks session).validate = .ok () from hv, after_ok, wp_ensure]
  have hgoing : Going false mem :=
    ⟨fun _ => hf, fun h => absurd h (by decide), hf.steady, fun h => absurd h (by decide),
      Bool.false_ne_true, rfl⟩
  refine wp_mono (wp_loop ht hgoing (.inl hcount)) fun result s hends => ?_
  obtain ⟨w', mem'⟩ := s
  unfold PlanRunner.settle
  rw [wp_bind, wp_mem_get, after_ok, wp_bind, wp_query]
  refine ⟨trivial, fun a s' hrely => ?_⟩
  obtain ⟨w'', mem''⟩ := s'
  obtain ⟨⟨-, hun⟩, rfl : mem'' = mem'⟩ := hrely
  cases result with
  | ok o => exact ⟨hends.1.undisturbed hun, hends.2⟩
  | error e => exact ⟨hends.1, hends.2.1.undisturbed hun, hends.2.2⟩

end Rules

end AgenticLocalApp
