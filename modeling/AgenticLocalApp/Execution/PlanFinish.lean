import AgenticLocalApp.Execution.PlanEnds

/-!
# The tasks that ended

What a worker comes back with is written down as the end of its task, whether the plan goes on or
is being drained.
-/

namespace AgenticLocalApp

open Prog PlanExecution

/-- The worker of the task can do its work: there is an environment to run in, a command to run and
time to run it, and its output has a budget. -/
structure Runnable (r : PlanRunner) (plan : PlanRecord) (task : TaskRecord) : Prop where
  environment : task.type = .cmd → r.environment task.taskId = .ok ()
  command : task.type = .cmd → isBlank (r.executedCmd task) = false
  timeout : task.type = .cmd → 0 < r.timeoutMs task
  budget : task.type = .cmd → 0 ≤ r.budget plan task

theorem Runnable.congr {r : PlanRunner} {plan plan' : PlanRecord} {task task' : TaskRecord}
    (h : Runnable r plan task) (hp : plan'.declared = plan.declared)
    (ht : task'.declared = task.declared) : Runnable r plan' task' := by
  have htype : task'.type = task.type := TaskRecord.of_declared TaskRecord.type ht
  have hcmd : r.executedCmd task' = r.executedCmd task := TaskRecord.of_declared r.executedCmd ht
  have htime : r.timeoutMs task' = r.timeoutMs task := TaskRecord.of_declared r.timeoutMs ht
  have hbudget : r.budget plan' task' = r.budget plan task :=
    (PlanRecord.of_declared (fun p => r.budget p task') hp).trans
      (TaskRecord.of_declared (r.budget plan) ht)
  have hid : task'.taskId = task.taskId := TaskRecord.of_declared TaskRecord.taskId ht
  exact ⟨fun h' => hid ▸ h.environment (htype ▸ h'), fun h' => hcmd ▸ h.command (htype ▸ h'), fun h' => htime ▸ h.timeout (htype ▸ h'),
    fun h' => hbudget ▸ h.budget (htype ▸ h')⟩

/-- What the worker of the task can come back with. -/
def EndsOf (r : PlanRunner) (plan : PlanRecord) (task : TaskRecord) : Ended → Prop
  | .raw _ => 0 ≤ r.budget plan task
  | _ => True

theorem execute_ok {r : PlanRunner} {σ : Store} {plan : PlanRecord} {task : TaskRecord}
    (h : Runnable r plan task) (outcome : ExecutorOutcome) :
    ∃ ended, r.execute σ plan task outcome = .ok ended ∧ EndsOf r plan task ended := by
  unfold PlanRunner.execute
  cases htype : task.type with
  | chunkRequest => exact ⟨_, rfl, trivial⟩
  | cmd =>
    dsimp only
    rw [h.environment htype, CommandSpec.create_ok (h.command htype) (h.timeout htype)]
    cases outcome with
    | raw execution => exact ⟨_, rfl, h.budget htype⟩
    | taskExecutionError error => exact ⟨_, rfl, trivial⟩

theorem cancelledState_mem (mem : PlanExecution) :
    (PlanRunner.cancelledState mem).1 ∈ taskTransitions .running := by
  unfold PlanRunner.cancelledState
  split
  · decide
  · split <;> exact (by decide : TaskState.cancelled ∈ taskTransitions .running)

theorem rawState_mem (mem : PlanExecution) (raw : RawExecution) :
    (PlanRunner.rawState mem raw).1 ∈ taskTransitions .running := by
  unfold PlanRunner.rawState
  split
  · exact cancelledState_mem mem
  · split
    · decide
    · rename_i hc _
      have := raw.outcome_cases
      simp only [List.mem_cons, List.not_mem_nil, or_false] at this
      rcases this with h | h | h | h <;> rw [h] <;> first | exact absurd h hc | decide

section Rules

variable {r : PlanRunner} {plan : PlanRecord} {tasks : List TaskRecord} {w : World}
  {mem : PlanExecution}

/-- How a task ends is allowed to a running one, and declares nothing anew.  Without a budget for
its output nothing is written. -/
theorem wp_ending {task : TaskRecord} {now : Instant} {ended : Ended} {Q}
    (hfit : EndsOf r mem.plan task ended ∨ ∀ m, Q (.error (.valueError m)) (w, mem))
    (ht : mem.Tracks plan tasks w.store)
    (hd : Disciplined mem.plan mem.tasks)
    (h : ∀ outputs chunks (e : PlanRunner.Ending), e.target ∈ taskTransitions .running →
      (∀ t, (e.fields t).declared = t.declared) →
      ({ mem with outputs := outputs, chunks := chunks } : PlanExecution).Tracks plan tasks w.store →
      Q (.ok e) (w, { mem with outputs := outputs, chunks := chunks })) :
    wp (planContract r plan tasks) (r.ending task now ended) Q (w, mem) := by
  have hend (outputs : Outputs TruncatedOutput) (chunks : Outputs ChunkResult)
      (e : PlanRunner.Ending) (hmem : e.target ∈ taskTransitions .running)
      (hfields : ∀ t, (e.fields t).declared = t.declared) :
      Q (.ok e) (w, { mem with outputs := outputs, chunks := chunks }) :=
    h _ _ e hmem hfields (ht.of_same rfl rfl rfl rfl)
  cases ended with
  | chunk served =>
    cases served with
    | ok chunk =>
      unfold PlanRunner.ending
      rw [wp_bind]
      refine wp_mem_modify ht hd rfl rfl id ?_
      exact hend mem.outputs _ { target := .completed } (by decide) fun _ => rfl
    | error e => exact hend mem.outputs mem.chunks _ (by decide : TaskState.failed ∈ _) fun _ => rfl
  | error e => exact hend mem.outputs mem.chunks _ (by decide : TaskState.failed ∈ _) fun _ => rfl
  | forced => exact hend mem.outputs mem.chunks _ (cancelledState_mem mem) fun _ => rfl
  | raw raw =>
    unfold PlanRunner.ending PlanRunner.rawEnding
    simp only [wp_bind]
    rw [wp_mem_get, after_ok]
    refine wp_run_newId fun stdoutId => ?_
    rw [after_ok]
    refine wp_run_newId fun stderrId => ?_
    rw [after_ok, wp_ofExcept, PayloadGuard.apply]
    by_cases hbudget : r.budget mem.plan task < 0
    · rw [if_pos hbudget]
      exact hfit.resolve_left (not_le.2 hbudget) _
    · rw [if_neg hbudget, after_ok]
      refine wp_mem_modify ht hd rfl rfl id ?_
      exact hend _ mem.chunks _ (rawState_mem mem raw) fun _ => rfl

/-- What the end of a task leaves behind. -/
structure EndedTask (propagate : Bool) (mem mem' : PlanExecution) : Prop where
  course : SameCourse mem mem'
  steady : Steady none mem'
  fewer : openCount mem'.tasks < openCount mem.tasks
  flowing : propagate → Flowing mem.tasks → Flowing mem'.tasks

/-- The memory once the task is marked as ended and its lock is free. -/
theorem steady_ended {f : TaskRecord → TaskRecord} {t : TaskRecord} (locks : List String)
    (ht : mem.Tracks plan tasks w.store) (hs : Steady (some t.taskId) mem) (htm : t ∈ mem.tasks)
    (hrun : t.status = .running) (hd : ∀ u ∈ mem.tasks, (f u).declared = u.declared)
    (hother : ∀ u ∈ mem.tasks, u.taskId ≠ t.taskId → f u = u)
    (hself : (f t).status ∈ taskTransitions .running)
    (hlocks : ∀ lock, lock ∈ locks ↔ lock ∈ mem.heldLocks ∧ t.resourceLock ≠ some lock) :
    Steady none { mem.withTasks f with heldLocks := locks } := by
  have hnot : (f t).status ≠ .running := by
    intro h
    rw [h] at hself
    exact absurd hself (by decide)
  have hst : ∀ u ∈ mem.tasks, (f u).status = .running ↔ u.status = .running ∧ u.taskId ≠ t.taskId := by
    intro u hu
    by_cases he : u.taskId = t.taskId
    · obtain rfl := ht.inj hu htm he
      simp [hnot]
    · rw [hother u hu he]
      simp [he]
  have hid : ∀ u ∈ mem.tasks, (f u).taskId = u.taskId := fun u hu =>
    TaskRecord.of_declared TaskRecord.taskId (hd u hu)
  have hlock : ∀ u ∈ mem.tasks, (f u).resourceLock = u.resourceLock := fun u hu =>
    TaskRecord.of_declared TaskRecord.resourceLock (hd u hu)
  refine ⟨hs.disciplined.of_fewer hd fun u hu h => ((hst u hu).1 h).1, hs.nodup, fun id => ?_,
    fun lock => ?_⟩
  · refine (hs.running id).trans ?_
    simp only [mem_runningIds, List.mem_map, ne_eq, reduceCtorEq, not_false_eq_true, and_true]
    constructor
    · rintro ⟨⟨u, hu, hr, rfl⟩, hne⟩
      have hne' : u.taskId ≠ t.taskId := fun he => hne (by rw [he])
      exact ⟨f u, ⟨u, hu, rfl⟩, (hst u hu).2 ⟨hr, hne'⟩, hid u hu⟩
    · rintro ⟨u', ⟨u, hu, rfl⟩, hr, rfl⟩
      obtain ⟨hr, hne⟩ := (hst u hu).1 hr
      refine ⟨⟨u, hu, hr, (hid u hu).symm⟩, ?_⟩
      rw [hid u hu]
      simpa using hne
  · refine (hlocks lock).trans ?_
    rw [hs.locks lock]
    constructor
    · rintro ⟨⟨u, hu, hr, hl⟩, hne⟩
      have hne' : u.taskId ≠ t.taskId := fun he => hne (by rw [← ht.inj hu htm he, hl])
      exact ⟨f u, List.mem_map_of_mem hu, (hst u hu).2 ⟨hr, hne'⟩, (hlock u hu).trans hl⟩
    · rintro ⟨u', hu', hr, hl⟩
      obtain ⟨u, hu, rfl⟩ := List.mem_map.1 hu'
      obtain ⟨hr, hne⟩ := (hst u hu).1 hr
      rw [hlock u hu] at hl
      refine ⟨⟨u, hu, hr, hl⟩, fun hl' => hne ?_⟩
      exact hs.disciplined.locks u hu t htm hr hrun lock hl hl'

/-- When a running task completes, what waits is still unblocked; when it ends otherwise, what
waits for it is all that is blocked. -/
theorem unblocked_ended {tasks : List TaskRecord} {f : TaskRecord → TaskRecord} {t : TaskRecord}
    (hfl : Flowing tasks) (hrun : t.status = .running)
    (hinj : ∀ u ∈ tasks, u.taskId = t.taskId → u = t)
    (hd : ∀ u ∈ tasks, (f u).declared = u.declared)
    (hother : ∀ u ∈ tasks, u.taskId ≠ t.taskId → f u = u)
    (hself : (f t).status ∈ taskTransitions .running) {except : String → Prop}
    (hexcept : (f t).status = .completed ∨ except t.taskId) : Unblocked except (tasks.map f) := by
  intro x' hx' hst u' hu' hmem hterm hne
  obtain ⟨x, hx, rfl⟩ := List.mem_map.1 hx'
  obtain ⟨u, hu, rfl⟩ := List.mem_map.1 hu'
  rw [TaskRecord.of_declared TaskRecord.taskId (hd u hu),
    TaskRecord.of_declared TaskRecord.dependsOn (hd x hx)] at hmem
  have hxt : x.taskId ≠ t.taskId := by
    intro he
    obtain rfl := hinj x hx he
    revert hself hst
    cases (f x).status <;> decide
  rw [hother x hx hxt] at hst
  by_cases he : u.taskId = t.taskId
  · obtain rfl := hinj u hu he
    rcases hexcept with hc | hex
    · exact hc
    · rw [TaskRecord.of_declared TaskRecord.taskId (hd u hu)] at hne
      exact absurd hex hne
  · rw [hother u hu he] at hterm ⊢
    exact hfl.unblocked x hx hst u hu hmem hterm id

/-- The end of a task that was taken off the running ones. -/
theorem wp_finish {t : TaskRecord} {ended : Ended} {propagate : Bool} {Q}
    (ht : mem.Tracks plan tasks w.store) (hs : Steady (some t.taskId) mem) (htm : t ∈ mem.tasks)
    (hrun : t.status = .running)
    (hfit : EndsOf r mem.plan t ended ∨ ∀ m, Q (.error (.valueError m)) (w, mem))
    (hfl : propagate → Flowing mem.tasks)
    (h : ∀ w' mem' state, mem'.Tracks plan tasks w'.store → EndedTask propagate mem mem' →
      mem'.running = mem.running → Q (.ok state) (w', mem')) :
    wp (planContract r plan tasks) (r.finish t.taskId ended propagate) Q (w, mem) := by
  unfold PlanRunner.finish
  rw [wp_bind, wp_mem_get, after_ok, ht.task?_of_mem htm]
  simp only [wp_bind]
  refine wp_run_now fun now => ?_
  rw [after_ok]
  refine wp_run_monotonicMs fun monotonic => ?_
  rw [after_ok]
  refine wp_ending hfit ht hs.disciplined fun outputs chunks e htarget hfields ht₁ => ?_
  rw [after_ok]
  let mem₁ : PlanExecution := { mem with outputs := outputs, chunks := chunks }
  let changes : Changes := fun u =>
    if u.taskId = t.taskId then
      some { target := e.target
             reason := e.reason
             fields := fun u =>
               { e.fields u with durationMs := some (monotonic - mem.startedMonotonic t.taskId) }
             endedAt := some now }
    else none
  have hsome {u : TaskRecord} {change : Change} (hc : changes u = some change) :
      u.taskId = t.taskId ∧ change.target = e.target ∧ (change.fields u).declared = u.declared := by
    by_cases he : u.taskId = t.taskId
    · simp only [changes, if_pos he, Option.some.injEq] at hc
      subst hc
      exact ⟨he, rfl, hfields u⟩
    · simp [changes, if_neg he] at hc
  have hkeep : changes.KeepDeclared mem.tasks := fun u _ change hc => (hsome hc).2.2
  refine wp_applyChanges_fewer changes ht₁ hs.disciplined hkeep (fun u hu change hc => ?_)
    (fun u _ change hc => ?_) fun at_ w₂ ht₂ hd₂ => ?_
  · rw [(hsome hc).2.1, ht.inj hu htm (hsome hc).1, hrun]
    simpa [canTransition] using htarget
  · rw [(hsome hc).2.1]
    rintro he
    rw [he] at htarget
    exact absurd htarget (by decide)
  rw [after_ok]
  let f := changes.applied at_
  have hdecl : ∀ u ∈ mem.tasks, (f u).declared = u.declared := hkeep.applied at_
  have hother : ∀ u ∈ mem.tasks, u.taskId ≠ t.taskId → f u = u := fun u _ hne =>
    Changes.applied_none (by simp [changes, hne])
  have htar : (f t).status = e.target := by simp [f, Changes.status_applied, changes]
  have hself : (f t).status ∈ taskTransitions .running := htar ▸ htarget
  refine wp_mem_modify ht₂ hd₂ rfl rfl id ?_
  rw [after_ok]
  let mem₂ : PlanExecution :=
    { mem₁.withTasks f with
      heldLocks := mem.heldLocks.filter fun lock => t.resourceLock ≠ some lock }
  have ht₂' : mem₂.Tracks plan tasks w₂.store := ht₂.of_same rfl rfl rfl rfl
  have hs₂ : Steady none mem₂ := by
    have := steady_ended mem₂.heldLocks ht hs htm hrun hdecl hother hself
      fun lock => by simp [mem₂]
    exact ⟨this.disciplined, this.nodup, this.running, this.locks⟩
  have hfewer : openCount mem₂.tasks < openCount mem.tasks := by
    refine openCount_map_lt (fun u hu hterm => ?_) htm (by rw [hrun]; decide) ?_
    · rw [hother u hu fun he => ?_]
      · exact hterm
      · rw [ht.inj hu htm he, hrun] at hterm
        exact absurd hterm (by decide)
    · revert hself
      cases (f t).status <;> decide
  have hcourse : SameCourse mem mem₂ := ⟨rfl, rfl, rfl, rfl, rfl⟩
  refine wp_recordTaskFailure ht₂' hs₂.disciplined fun w₃ ht₃ => ?_
  rw [after_ok]
  cases propagate with
  | false => exact h w₃ mem₂ _ ht₃ ⟨hcourse, hs₂, hfewer, fun hp => absurd hp (by decide)⟩ rfl
  | true =>
    have hfl := hfl rfl
    have hinj : ∀ u ∈ mem.tasks, u.taskId = t.taskId → u = t := fun u hu => ht.inj hu htm
    have hlast {w' : World} {g : TaskRecord → TaskRecord}
        (hg : (mem₂.withTasks g).Tracks plan tasks w'.store) (hgs : Steady none (mem₂.withTasks g))
        (hle : openCount (mem₂.tasks.map g) ≤ openCount mem₂.tasks)
        (hgf : Flowing (mem₂.tasks.map g)) : Q (.ok e.target) (w', mem₂.withTasks g) :=
      h w' _ _ hg ⟨hcourse.trans ⟨rfl, rfl, rfl, rfl, rfl⟩, hgs, lt_of_le_of_lt hle hfewer,
        fun _ _ => hgf⟩ rfl
    have hex : Explained mem₂.tasks := by
      refine hfl.explained.map hdecl (fun u hu hst => ?_) fun u hu hterm => ?_
      · by_cases he : u.taskId = t.taskId
        · rw [hinj u hu he] at hst
          rw [hst] at hself
          exact absurd hself (by decide)
        · rw [hother u hu he] at hst ⊢
          exact ⟨hst, rfl⟩
      · by_cases he : u.taskId = t.taskId
        · rw [hinj u hu he, hrun] at hterm
          exact absurd hterm (by decide)
        · rw [hother u hu he]
    by_cases hc : e.target = .completed
    · simp only [if_true, if_pos hc, wp_bind]
      have hu : Unblocked (fun _ => False) mem₂.tasks :=
        unblocked_ended hfl hrun hinj hdecl hother hself (.inl (htar.trans hc))
      exact wp_releaseDependants ht₃ hs₂ hu hex fun w' g hg hgs hle hgf => hlast hg hgs hle hgf
    · simp only [if_true, if_neg hc, wp_bind]
      have hu : Unblocked (fun id => id = t.taskId) mem₂.tasks :=
        unblocked_ended hfl hrun hinj hdecl hother hself (.inr rfl)
      have hroot : ∃ u ∈ mem₂.tasks, u.taskId = t.taskId ∧ u.status = e.target ∧
          u.status.terminal ∧ u.status ≠ .completed := by
        refine ⟨f t, List.mem_map_of_mem htm, TaskRecord.of_declared TaskRecord.taskId (hdecl t htm),
          htar, ?_, fun hdone => hc (htar.symm.trans hdone)⟩
        revert hself
        cases (f t).status <;> decide
      refine wp_skipDependants ht₃ hs₂ hu hex hroot (fun x' hx' hst => ?_)
        fun w' g hg hgs hle hgf => hlast hg hgs hle hgf
      obtain ⟨x, hx, rfl⟩ := List.mem_map.1 hx'
      have hst : (f x).status = .waitingDependency := hst
      have hcompleted : ∀ u ∈ mem.tasks, (f u).status = .completed → u.status = .completed := by
        intro u hu hdone
        by_cases he : u.taskId = t.taskId
        · rw [hinj u hu he, htar] at hdone
          exact absurd hdone hc
        · rwa [hother u hu he] at hdone
      apply not_dependenciesDone_map hdecl hcompleted hx
      by_cases he : x.taskId = t.taskId
      · rw [hinj x hx he, htar] at hst
        rw [hst] at htarget
        exact absurd htarget (by decide)
      · rw [hother x hx he] at hst
        exact hfl.waiting x hx hst

end Rules

end AgenticLocalApp
