import AgenticLocalApp.Execution.PlanFinish
import AgenticLocalApp.Execution.PlanLaunch

/-!
# The workers that came back

The ends that one wait brings, and the drain after which no worker is left: every task that could
still run is then given an end as well.
-/

namespace AgenticLocalApp

open Prog PlanExecution

section Rules

variable {r : PlanRunner} {plan : PlanRecord} {tasks : List TaskRecord} {w : World}
  {mem : PlanExecution}

theorem PlanExecution.Tracks.nodup (h : mem.Tracks plan tasks w.store) :
    (tasks.map TaskRecord.taskId).Nodup := by
  have hids : mem.tasks.map TaskRecord.taskId = tasks.map TaskRecord.taskId :=
    h.same.map_eq fun _ => rfl
  exact hids ▸ h.graph.nodup

/-- A task declares what it was given. -/
theorem PlanExecution.Tracks.declared_eq (h : mem.Tracks plan tasks w.store) {t t' : TaskRecord}
    (ht : t ∈ tasks) (ht' : t' ∈ mem.tasks) (hid : t'.taskId = t.taskId) :
    t'.declared = t.declared := by
  obtain ⟨u, hu, he⟩ := h.same.mem ht'
  have hut : u.taskId = t.taskId := (TaskRecord.of_declared TaskRecord.taskId he).trans hid
  rw [← he, List.inj_on_of_nodup_map h.nodup hu ht hut]

/-- The deadline of the session is too far away to be computed. -/
def SessionRecord.Boundless (session : SessionRecord) : Prop :=
  session.startedAt.isSome ∧ PlanRunner.timedeltaLimitMs ≤ session.budget.maxTotalDurationMs

/-- Why a run cannot go on. -/
inductive Unable (r : PlanRunner) (plan : PlanRecord) (tasks : List TaskRecord)
    (mem : PlanExecution) : Prop
  /-- A task runs whose worker cannot do its work. -/
  | worker {t : TaskRecord} (ht : t ∈ tasks) (hno : ¬ Runnable r plan t)
    (hrun : t.taskId ∈ runningIds mem.tasks)
  /-- A task is to be launched, and the dialect dictionary raises an exception over its command. -/
  | command {t : TaskRecord} (h : Unlaunchable r mem t)
  /-- A plan is to go on in a session whose deadline cannot be computed. -/
  | deadline (hopen : mem.plan.status = .pending ∨ mem.plan.status = .running)
    (hsession : mem.session.Boundless)
  /-- A task is to be reported, and the dictionary of the collector raises an exception over its
  command. -/
  | result {t : TaskRecord} (hterm : mem.plan.status.terminal) (ht : t ∈ mem.tasks)
    (hraises : r.resultCollector.Unreadable t)

/-- An exception of the language, which has no error code. -/
def Exc.Uncoded (e : Exc) : Prop :=
  (∃ message, e = .valueError message) ∨ ∃ message, e = .runtimeError message

theorem uncoded_valueError (message : String) : (Exc.valueError message).Uncoded :=
  .inl ⟨message, rfl⟩

/-- The run ends with an exception, and could not go on. -/
def Failed (r : PlanRunner) (plan : PlanRecord) (tasks : List TaskRecord) (e : Exc)
    (s : World × PlanExecution) : Prop :=
  e.Uncoded ∧ s.2.Tracks plan tasks s.1.store ∧ Unable r plan tasks s.2

theorem create_error {taskId command : String} {timeoutMs : Int} {e : Exc}
    (h : CommandSpec.create taskId command timeoutMs = .error e) : e.Uncoded := by
  unfold CommandSpec.create at h
  by_cases hc : isBlank command = true
  · rw [dif_pos hc] at h
    exact .inl ⟨_, (Except.error.inj h).symm⟩
  · rw [dif_neg hc] at h
    by_cases htime : 0 < timeoutMs
    · rw [dif_pos htime] at h
      cases h
    · rw [dif_neg htime] at h
      exact .inl ⟨_, (Except.error.inj h).symm⟩

theorem execute_error {σ : Store} {task : TaskRecord} {outcome : ExecutorOutcome} {e : Exc}
    (h : r.execute σ plan task outcome = .error e) : e.Uncoded := by
  unfold PlanRunner.execute at h
  cases htype : task.type with
  | chunkRequest =>
    rw [htype] at h
    cases h
  | cmd =>
    rw [htype] at h
    cases henv : r.environment task.taskId with
    | error failure =>
      rw [henv] at h
      obtain rfl := Except.error.inj h
      cases failure with
      | unnamed message => exact uncoded_valueError message
      | unmade => exact .inr ⟨_, rfl⟩
    | ok _ =>
      rw [henv] at h
      cases hcreate : CommandSpec.create task.taskId (r.executedCmd task) (r.timeoutMs task) with
      | error raised =>
        rw [hcreate] at h
        obtain rfl := Except.error.inj h
        exact create_error hcreate
      | ok _ =>
        rw [hcreate] at h
        cases outcome <;> cases h

/-- What the worker of a task came back with can be written down, unless the worker could not do
its work. -/
def Served (r : PlanRunner) (plan : PlanRecord) (tasks : List TaskRecord)
    (served : String × Except Exc Ended) : Prop :=
  ∃ t ∈ tasks, t.taskId = served.1 ∧
    (¬ Runnable r plan t ∧ (∀ e, served.2 = .error e → e.Uncoded) ∨
      ∃ ended, served.2 = .ok ended ∧ EndsOf r plan t ended)

theorem EndsOf.congr {plan' : PlanRecord} {t t' : TaskRecord} {ended : Ended}
    (h : EndsOf r plan t ended) (hp : plan'.declared = plan.declared)
    (hd : t'.declared = t.declared) : EndsOf r plan' t' ended := by
  have hbudget : r.budget plan' t' = r.budget plan t :=
    (PlanRecord.of_declared (fun p => r.budget p t') hp).trans
      (TaskRecord.of_declared (r.budget plan) hd)
  cases ended with
  | raw raw =>
    show 0 ≤ r.budget plan' t'
    rw [hbudget]
    exact h
  | _ => trivial

theorem served_execute {σ : Store} (ht : mem.Tracks plan tasks w.store) {t' : TaskRecord}
    (hmem : t' ∈ mem.tasks) (outcome : ExecutorOutcome) :
    Served r plan tasks (t'.taskId, r.execute σ mem.plan t' outcome) := by
  obtain ⟨t, htm, hd⟩ := ht.same.mem hmem
  refine ⟨t, htm, TaskRecord.of_declared TaskRecord.taskId hd, ?_⟩
  by_cases hrun : Runnable r plan t
  · obtain ⟨ended, he, hfit⟩ := execute_ok (σ := σ) (hrun.congr ht.planSame hd.symm) outcome
    exact .inr ⟨ended, he, hfit.congr ht.planSame.symm hd⟩
  · exact .inl ⟨hrun, fun e he => execute_error he⟩

/-- The running tasks once one of them is taken off. -/
theorem Steady.pop {t : TaskRecord} (hs : Steady none mem) :
    Steady (some t.taskId)
      { mem with running := mem.running.filter fun id => id ≠ t.taskId } where
  disciplined := hs.disciplined
  nodup := hs.nodup.filter _
  running id := by
    have := hs.running id
    simp only [ne_eq, reduceCtorEq, not_false_eq_true, and_true] at this
    simp [this]
  locks := hs.locks

theorem Steady.running_iff (hs : Steady none mem) {id : String} :
    id ∈ mem.running ↔ id ∈ runningIds mem.tasks := by simpa using hs.running id

theorem Served.unable {id : String} {e : Exc} (h : Served r plan tasks (id, .error e))
    (hid : id ∈ runningIds mem.tasks) : e.Uncoded ∧ Unable r plan tasks mem := by
  obtain ⟨t, ht, rfl, ⟨hno, herr⟩ | ⟨_, he, -⟩⟩ := h
  · exact ⟨herr e rfl, .worker ht hno hid⟩
  · cases he

/-- The end of a task that was taken off the running ones, from what its worker came back with. -/
theorem wp_finish_served {id : String} {ended : Ended} {propagate : Bool} {Q}
    (ht : mem.Tracks plan tasks w.store) (hs : Steady (some id) mem)
    (hid : id ∈ runningIds mem.tasks) (hserved : Served r plan tasks (id, .ok ended))
    (hfl : propagate → Flowing mem.tasks)
    (hbad : ∀ e : Exc, e.Uncoded → Unable r plan tasks mem → Q (.error e) (w, mem))
    (h : ∀ w' mem' state, mem'.Tracks plan tasks w'.store → EndedTask propagate mem mem' →
      mem'.running = mem.running → Q (.ok state) (w', mem')) :
    wp (planContract r plan tasks) (r.finish id ended propagate) Q (w, mem) := by
  obtain ⟨t', hmem, hrun, rfl⟩ := mem_runningIds.1 hid
  obtain ⟨t, htm, htid, hcan⟩ := hserved
  refine wp_finish ht hs hmem hrun ?_ hfl h
  rcases hcan with ⟨hno, -⟩ | ⟨ended', he, hfit⟩
  · exact .inr fun m => hbad _ (uncoded_valueError m) (.worker htm hno (htid ▸ hid))
  · obtain rfl : ended = ended' := Except.ok.inj he
    exact .inl (hfit.congr ht.planSame (ht.declared_eq htm hmem htid.symm))

theorem wp_pop {t : TaskRecord} {Q} (ht : mem.Tracks plan tasks w.store) (hs : Steady none mem)
    (h : ∀ mem', mem' = { mem with running := mem.running.filter fun id => id ≠ t.taskId } →
      mem'.Tracks plan tasks w.store → Steady (some t.taskId) mem' → Q (.ok ()) (w, mem')) :
    wp (planContract r plan tasks) (PlanRunner.pop t.taskId) Q (w, mem) :=
  wp_mem_modify ht hs.disciplined rfl rfl id (h _ rfl (ht.of_same rfl rfl rfl rfl) hs.pop)

/-- The ends that one wait brought, up to a stop condition. -/
theorem wp_finishDone {done : List (String × Except Exc Ended)} {Q}
    (ht : mem.Tracks plan tasks w.store) (hs : Steady none mem)
    (hnodup : (done.map Prod.fst).Nodup)
    (hdone : ∀ d ∈ done, d.1 ∈ mem.running ∧ Served r plan tasks d)
    (hfl : ¬ mem.budgetExceeded → Flowing mem.tasks)
    (hbad : ∀ (e : Exc) w' mem', e.Uncoded → mem'.Tracks plan tasks w'.store →
      Unable r plan tasks mem' → Q (.error e) (w', mem'))
    (hstop : ∀ w' mem' stop, mem'.Tracks plan tasks w'.store → Steady none mem' →
      SameCourse mem mem' → stop.1 ∈ [PlanState.shortCircuitedOnSuccess, .stoppedOnFailure] →
      Q (.ok (some stop)) (w', mem'))
    (hgo : ∀ w' mem', mem'.Tracks plan tasks w'.store → Steady none mem' → SameCourse mem mem' →
      openCount mem'.tasks + done.length ≤ openCount mem.tasks →
      (¬ mem.budgetExceeded → Flowing mem'.tasks) → Q (.ok none) (w', mem')) :
    wp (planContract r plan tasks) (r.finishDone done) Q (w, mem) := by
  induction done generalizing w mem with
  | nil => exact hgo w mem ht hs (.refl mem) (le_refl _) hfl
  | cons d rest ih =>
    obtain ⟨id, served⟩ := d
    obtain ⟨hid, hserved⟩ := hdone _ List.mem_cons_self
    obtain ⟨hnot, hrestNodup⟩ := List.nodup_cons.1 hnodup
    have hrunning := hs.running_iff.1 hid
    obtain ⟨t, hmem, hrun, rfl⟩ := mem_runningIds.1 hrunning
    unfold PlanRunner.finishDone
    rw [wp_bind]
    refine wp_pop ht hs fun mem₁ he ht₁ hs₁ => ?_
    have hrunning₁ : t.taskId ∈ runningIds mem₁.tasks := by
      rw [he]
      exact hrunning
    have hcourse₁ : SameCourse mem mem₁ := by
      rw [he]
      exact ⟨rfl, rfl, rfl, rfl, rfl⟩
    rw [after_ok, wp_bind, wp_ofExcept]
    cases served with
    | error e =>
      rw [after_error]
      obtain ⟨herr, hun⟩ := hserved.unable hrunning₁
      exact hbad e w mem₁ herr ht₁ hun
    | ok ended =>
      rw [after_ok, wp_bind, wp_mem_get, after_ok, wp_bind]
      refine wp_finish_served ht₁ hs₁ hrunning₁ hserved (fun hp => ?_)
        (fun e herr hun => hbad e w mem₁ herr ht₁ hun) fun w₂ mem₂ state ht₂ hend hrun₂ => ?_
      · rw [he] at hp ⊢
        exact hfl (by simpa using hp)
      · have hcourse : SameCourse mem mem₂ := hcourse₁.trans hend.course
        have hfewer : openCount mem₂.tasks < openCount mem.tasks := by
          have := hend.fewer
          rwa [show mem₁.tasks = mem.tasks by rw [he]] at this
        have hfl₂ : ¬ mem.budgetExceeded → Flowing mem₂.tasks := by
          intro hno
          apply hend.flowing
          · rw [hcourse₁.budgetExceeded]
            simpa using hno
          · rw [show mem₁.tasks = mem.tasks by rw [he]]
            exact hfl hno
        have hrest : wp (planContract r plan tasks) (r.finishDone rest) Q (w₂, mem₂) := by
          refine ih ht₂ hend.steady hrestNodup (fun d hd => ?_)
            (fun hno => hfl₂ (by rwa [hcourse.budgetExceeded] at hno))
            (fun w' mem' stop ht' hs' hc hm => hstop w' mem' stop ht' hs' (hcourse.trans hc) hm)
            fun w' mem' ht' hs' hc hle hf => ?_
          · obtain ⟨hd', hsd⟩ := hdone d (List.mem_cons_of_mem _ hd)
            refine ⟨?_, hsd⟩
            rw [hrun₂, he]
            refine List.mem_filter.2 ⟨hd', ?_⟩
            simp only [decide_eq_true_eq]
            intro hdt
            have hmem := List.mem_map_of_mem (f := Prod.fst) hd
            rw [hdt] at hmem
            exact hnot hmem
          · refine hgo w' mem' ht' hs' (hcourse.trans hc) ?_ fun hno => ?_
            · rw [List.length_cons]
              omega
            · apply hf
              rwa [hcourse.budgetExceeded]
        rw [after_ok, wp_ite]
        refine ⟨fun _ => hrest, fun _ => ?_⟩
        rw [wp_bind, wp_mem_get, after_ok]
        cases hcase : (mem₂.task? t.taskId).bind fun task => r.stopCondition task state with
        | none => exact hrest
        | some stop =>
          refine hstop w₂ mem₂ stop ht₂ hend.steady hcourse ?_
          obtain ⟨task, -, hstop⟩ := Option.bind_eq_some_iff.1 hcase
          revert hstop
          unfold PlanRunner.stopCondition
          split
          · rintro ⟨⟩
            exact List.mem_cons_self
          · split
            · split
              · rintro ⟨⟩
              · rintro ⟨⟩
                exact List.mem_cons_of_mem _ List.mem_cons_self
            · rintro ⟨⟩

/-! ## No worker is left -/

/-- Processes are written down: which tasks there are and how they stand does not change. -/
theorem wp_persistPids {spawned : List Spawned} {Q} (ht : mem.Tracks plan tasks w.store)
    (hs : Steady none mem) (hspawned : ∀ s ∈ spawned, s.taskId ∈ mem.running)
    (h : ∀ w' f, w'.token = w.token →
      (∀ t ∈ mem.tasks, (f t).declared = t.declared ∧ (f t).status = t.status ∧
        (f t).reason = t.reason) →
      (mem.withTasks f).Tracks plan tasks w'.store → Steady none (mem.withTasks f) →
      Q (.ok ()) (w', mem.withTasks f)) :
    wp (planContract r plan tasks) (forM spawned persistPid) Q (w, mem) := by
  induction spawned generalizing w mem with
  | nil =>
    have hid : mem.withTasks id = mem := by simp [withTasks]
    have := h w id rfl (fun _ _ => ⟨rfl, rfl, rfl⟩) (hid.symm ▸ ht) (hid.symm ▸ hs)
    rwa [hid] at this
  | cons s rest ih =>
    rw [List.forM_cons, wp_bind]
    obtain ⟨t, hmem, -, hid⟩ := mem_runningIds.1
      (hs.running_iff.1 (hspawned s List.mem_cons_self))
    refine wp_persistPid ht hs.disciplined ⟨t, hmem, hid⟩ fun w₁ f htok hf ht₁ _ => ?_
    rw [after_ok]
    have hs₁ : Steady none (mem.withTasks f) :=
      hs.map (fun t ht => (hf t ht).1) fun t ht => by rw [(hf t ht).2.1]
    refine ih ht₁ hs₁ (fun s' hs' => hspawned s' (List.mem_cons_of_mem _ hs'))
      fun w₂ g htok' hg ht₂ hs₂ => ?_
    have hcomp : (mem.withTasks f).withTasks g = mem.withTasks (g ∘ f) := by simp [withTasks]
    rw [hcomp] at ht₂ hs₂ ⊢
    refine h w₂ _ (htok'.trans htok) (fun t ht => ?_) ht₂ hs₂
    have hg' := hg (f t) (List.mem_map_of_mem ht)
    exact ⟨hg'.1.trans (hf t ht).1, hg'.2.1.trans (hf t ht).2.1, hg'.2.2.trans (hf t ht).2.2⟩

/-- After a drain no task runs. -/
theorem wp_drain {tokenReason : String} {timeoutMs : Nat} {Q} (ht : mem.Tracks plan tasks w.store)
    (hs : Steady none mem)
    (hbad : ∀ (e : Exc) w' mem', e.Uncoded → mem'.Tracks plan tasks w'.store →
      Unable r plan tasks mem' → Q (.error e) (w', mem'))
    (h : ∀ w' mem', mem'.Tracks plan tasks w'.store → Steady none mem' → SameCourse mem mem' →
      mem'.running = [] → Q (.ok ()) (w', mem')) :
    wp (planContract r plan tasks) (r.drain tokenReason timeoutMs) Q (w, mem) := by
  unfold PlanRunner.drain
  rw [wp_bind, wp_mem_get, after_ok, wp_ite]
  refine ⟨fun hnone => h w mem ht hs (.refl mem) hnone, fun _ => ?_⟩
  rw [wp_bind, wp_query]
  refine ⟨trivial, fun answer s' hrely => ?_⟩
  obtain ⟨w₁, mem₁⟩ := s'
  obtain ⟨⟨⟨hspawned, hnodup, hdone⟩, hun⟩, rfl : mem₁ = mem⟩ := hrely
  have ht₁ : mem₁.Tracks plan tasks w₁.store := ht.undisturbed hun
  rw [after_ok, wp_bind]
  refine wp_persistPids ht₁ hs hspawned fun w₂ f _ hf ht₂ hs₂ => ?_
  rw [after_ok, wp_bind]
  refine wp_lift (p := readStore) planContract_local ?_
  rw [wp_readStore, after_ok]
  let mem₂ := mem₁.withTasks f
  -- what is left to record is what still runs
  let I : List String → World × PlanExecution → Prop := fun rest s =>
    s.2.Tracks plan tasks s.1.store ∧ Steady none s.2 ∧ SameCourse mem₁ s.2 ∧ rest.Nodup ∧
      ∀ id, id ∈ s.2.running ↔ id ∈ rest
  have hloop : wp (planContract r plan tasks)
      (forM (mem₁.order.filter fun id => id ∈ mem₁.running) (r.finishDrained w₂.store answer.done))
      (after (fun _ => I []) (Failed r plan tasks)) (w₂, mem₂) :=
    wp_forM (C := planContract r plan tasks) (I := I) (E := Failed r plan tasks) ?_ ?_
  · refine wp_mono hloop fun result s hresult => ?_
    obtain ⟨w', mem'⟩ := s
    cases result with
    | error e => exact hbad e w' mem' hresult.1 hresult.2.1 hresult.2.2
    | ok _ =>
      obtain ⟨ht', hs', hc', -, hrun⟩ := hresult
      refine h w' mem' ht' hs' hc' ?_
      rw [List.eq_nil_iff_forall_not_mem]
      intro id hid
      exact absurd ((hrun id).1 hid) List.not_mem_nil
  · rintro id rest ⟨w', mem'⟩ ⟨ht', hs', hc', hnd, hrun⟩
    obtain ⟨hnot, hrestNodup⟩ := List.nodup_cons.1 hnd
    have hrunning := hs'.running_iff.1 ((hrun id).2 List.mem_cons_self)
    obtain ⟨t, hmem, hst, rfl⟩ := mem_runningIds.1 hrunning
    unfold PlanRunner.finishDrained
    rw [wp_bind, wp_mem_get, after_ok, wp_bind]
    refine wp_pop ht' hs' fun mem₃ he ht₃ hs₃ => ?_
    have hrunning₃ : t.taskId ∈ runningIds mem₃.tasks := by
      rw [he]
      exact hrunning
    have hrest {served : Except Exc Ended} (hserved : Served r plan tasks (t.taskId, served)) :
        wp (planContract r plan tasks)
          (do let ended ← .ofExcept served; let _ ← r.finish t.taskId ended false)
          (after (fun _ => I rest) (Failed r plan tasks))
          (w', mem₃) := by
      rw [wp_bind, wp_ofExcept]
      cases served with
      | error e =>
        obtain ⟨herr, hun⟩ := hserved.unable hrunning₃
        exact ⟨herr, ht₃, hun⟩
      | ok ended =>
        rw [after_ok, wp_bind]
        refine wp_finish_served ht₃ hs₃ hrunning₃ hserved (fun hp => absurd hp (by decide))
          (fun e herr hun => ⟨herr, ht₃, hun⟩) fun w₄ mem₄ state ht₄ hend hrun₄ => ?_
        have hcourse : SameCourse mem' mem₃ := by
          rw [he]
          exact ⟨rfl, rfl, rfl, rfl, rfl⟩
        refine ⟨ht₄, hend.steady, (hc'.trans hcourse).trans hend.course, hrestNodup,
          fun id => ?_⟩
        rw [hrun₄, he]
        simp only [List.mem_filter, hrun, List.mem_cons, decide_eq_true_eq]
        constructor
        · rintro ⟨hid | hid, hne⟩
          · exact absurd hid hne
          · exact hid
        · intro hid
          refine ⟨.inr hid, ?_⟩
          rintro rfl
          exact hnot hid
    rw [after_ok, ht'.task?_of_mem hmem]
    cases hl : answer.done.lookup t.taskId with
    | some outcome => exact hrest (served_execute ht' hmem outcome)
    | none =>
      obtain ⟨u, hu, hd⟩ := ht'.same.mem hmem
      exact hrest ⟨u, hu, TaskRecord.of_declared TaskRecord.taskId hd, .inr ⟨.forced, rfl, trivial⟩⟩
  · refine ⟨ht₂, hs₂, ⟨rfl, rfl, rfl, rfl, rfl⟩, ht.graph.nodup.filter _, fun id => ?_⟩
    show id ∈ mem₁.running ↔ _
    rw [List.mem_filter, decide_eq_true_eq, iff_and_self]
    intro hid
    obtain ⟨t, hmem, -, rfl⟩ := mem_runningIds.1 (hs.running_iff.1 hid)
    exact List.mem_map_of_mem hmem

/-- Where no task runs, what is left of the plan is marked: every task is then terminal. -/
theorem wp_markRemaining {target : TaskState} {reason : String} {Q}
    (ht : mem.Tracks plan tasks w.store) (hs : Steady none mem) (hrun : mem.running = [])
    (htarget : target = .skipped ∨ target = .interrupted)
    (h : ∀ w' f, (mem.withTasks f).Tracks plan tasks w'.store →
      Disciplined mem.plan (mem.tasks.map f) → (∀ t ∈ mem.tasks.map f, t.status.terminal) →
      Q (.ok ()) (w', mem.withTasks f)) :
    wp (planContract r plan tasks) (PlanRunner.markRemaining target reason) Q (w, mem) := by
  unfold PlanRunner.markRemaining
  let changes : Changes := fun t =>
    if t.status ∈ schedulableStates then some { target := target, reason := some reason } else none
  have hsome {t : TaskRecord} {change : Change} (hc : changes t = some change) :
      t.status ∈ schedulableStates ∧ change = { target := target, reason := some reason } := by
    by_cases hst : t.status ∈ schedulableStates
    · simp only [changes, if_pos hst, Option.some.injEq] at hc
      exact ⟨hst, hc.symm⟩
    · simp [changes, if_neg hst] at hc
  have hnorun : ∀ t ∈ mem.tasks, t.status ≠ .running := by
    intro t hmem hst
    have := hs.running_iff.2 (mem_runningIds.2 ⟨t, hmem, hst, rfl⟩)
    rw [hrun] at this
    exact absurd this List.not_mem_nil
  refine wp_applyChanges_fewer changes ht hs.disciplined
    (fun t _ change hc => by rw [(hsome hc).2]; rfl) (fun t _ change hc => ?_)
    (fun t _ change hc => ?_) fun now w' ht' hd => ?_
  · obtain ⟨hst, rfl⟩ := hsome hc
    show canTransition taskTransitions t.status target
    revert hst
    rcases htarget with rfl | rfl <;> cases t.status <;> decide
  · rw [(hsome hc).2]
    show target ≠ .running
    rcases htarget with rfl | rfl <;> decide
  · refine h w' _ ht' hd fun t' ht' => ?_
    obtain ⟨t, hmem, rfl⟩ := List.mem_map.1 ht'
    rw [Changes.status_applied]
    by_cases hst : t.status ∈ schedulableStates
    · simp only [changes, if_pos hst, Option.map_some, Option.getD_some]
      rcases htarget with rfl | rfl <;> decide
    · simp only [changes, if_neg hst, Option.map_none, Option.getD_none]
      have := hnorun t hmem
      revert hst this
      cases t.status <;> decide

end Rules

end AgenticLocalApp
