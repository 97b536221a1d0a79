import AgenticLocalApp.Orchestration.Resumability

/-!
# The passes of the recovery

Each pass of the recovery takes the entities it is about where the policy sends them.  A pass works
through a list of records read before its first write; what carries its proof is that the records
still to come are in the store as they were read.
-/

namespace AgenticLocalApp

open Prog

/-- Nobody else touches the world while the program runs. -/
def alone : Rely App := fun op w a w' => w' = w ∧ op.Answers w.store a

/-- The contract of a program that runs alone and whose writes satisfy `keeps`. -/
def during (keeps : Store → Store → Prop) : Contract App where
  rely := alone
  guar w w' := keeps w.store w'.store
  wait _ _ := True
  stuck _ := False

theorem quiet_during (keeps : Store → Store → Prop) : Quiet (during keeps) where
  now _ _ _ h := h.1
  monotonicMs _ _ _ h := h.1
  newId _ _ _ _ h := h
  wait_now _ := trivial
  wait_monotonicMs _ := trivial
  wait_newId _ _ := trivial

/-- The postcondition of a program that must not raise. -/
abbrev returns {α : Type} (Q : α → World → Prop) : Except Exc α → World → Prop :=
  after Q fun _ _ => False

namespace Recovery

variable {R : List String} {ordered : Prop} {w : World}

/-- What every write of the recovery owes: the policy stays, and so do the conversations that
wait for their reply, provided that rotations are `ordered`. -/
structure Progress (R : List String) (ordered : Prop) (σ σ' : Store) : Prop where
  policy : policy R σ' = policy R σ
  resumable : ordered → ResumableAre R σ → ResumableAre R σ'

theorem Progress.of_policy {σ σ' : Store} (h : Recovery.policy R σ' = Recovery.policy R σ)
    (hc : σ'.conversations = σ.conversations) (hs : σ'.sessions = σ.sessions)
    (hm : σ'.messages = σ.messages) : Progress R ordered σ σ' :=
  ⟨h, fun _ hr => hr.congr hc hs hm⟩

/-! ## Tasks -/

theorem canTransition_taskInterrupted {status : TaskState}
    (h : status = .running ∨ status ∈ openTaskStates) :
    canTransition taskTransitions status .interrupted := by
  rcases h with rfl | h
  · rfl
  · cases status <;> first | rfl | exact absurd h (by decide)

theorem wp_interruptTask {task : TaskRecord} {Q} (ht : task ∈ w.store.tasks.rows)
    (hs : task.status = .running ∨ task.status ∈ openTaskStates ∧ PlanOpen w.store task)
    (h : ∀ now, policy R (w.store.saveTask (interruptedTask task now)) = policy R w.store →
      Q (.ok ()) { w with store := w.store.saveTask (interruptedTask task now) }) :
    wp (during (Progress R ordered)) (interruptTask task) Q w := by
  unfold interruptTask
  rw [wp_bind]
  refine wp_checkTransition (canTransition_taskInterrupted (hs.imp_right And.left)) ?_
  rw [after_ok, wp_bind]
  refine wp_now (quiet_during _) fun now => ?_
  have hp : policy R (w.store.saveTask (interruptedTask task now)) = policy R w.store :=
    policy_interruptTask ht (taskAfter_eq_interrupted_iff.2 (hs.imp_right .inl))
  exact ⟨.of_policy hp rfl rfl rfl, h now hp⟩

theorem wp_terminateOrphan {hasPlatform : Bool} {task : TaskRecord} {Q} (h : Q (.ok ()) w) :
    wp (during (Progress R ordered)) (terminateOrphan hasPlatform task) Q w := by
  unfold terminateOrphan
  split
  · refine ⟨trivial, fun a w' hw => ?_⟩
    obtain rfl : w' = w := hw.1
    exact h
  · exact h

/-- No task is running, and only tasks have changed. -/
structure TasksStopped (R : List String) (σ σ' : Store) : Prop where
  frame : ∃ tasks, σ' = { σ with tasks := tasks }
  policy : policy R σ' = policy R σ
  stopped : ∀ task ∈ σ'.tasks.rows, task.status ≠ .running

theorem interruptRunningTasks_spec (hasPlatform : Bool) (w : World) :
    wp (during (Progress R ordered)) (interruptRunningTasks hasPlatform)
      (returns fun _ w' => TasksStopped R w.store w'.store) w := by
  unfold interruptRunningTasks
  simp only [wp_bind, wp_readStore, after_ok]
  let I (rest : List TaskRecord) (w' : World) : Prop :=
    (∃ tasks, w'.store = { w.store with tasks := tasks }) ∧ policy R w'.store = policy R w.store ∧
      w'.store.tasks.ToDo rest (fun t => t.status = .running) ∧ ∀ t ∈ rest, t.status = .running
  have step : ∀ task rest w', I (task :: rest) w' →
      wp (during (Progress R ordered)) (do terminateOrphan hasPlatform task; interruptTask task)
        (returns fun _ => I rest) w' := by
    rintro task rest w' ⟨⟨tasks, hw⟩, hp, htodo, hrun⟩
    rw [wp_bind]
    refine wp_terminateOrphan ?_
    rw [after_ok]
    refine wp_interruptTask htodo.head (.inl (hrun task List.mem_cons_self)) fun now hp' => ?_
    exact ⟨⟨_, by rw [hw]; rfl⟩, hp'.trans hp, htodo.save (interruptedTask_key task now) (by simp),
      fun t ht => hrun t (List.mem_cons_of_mem _ ht)⟩
  have init : I (w.store.findTasksInStates [.running]) w := by
    refine ⟨⟨_, rfl⟩, rfl, .of_perm_filter (List.perm_insertionSort _ _) ?_, fun t ht => ?_⟩
    · exact fun t _ ht => by simp [ht]
    · simpa using (Store.mem_findTasksInStates.1 ht).2
  refine wp_mono (wp_forM step init) ?_
  rintro (e | _) w' h
  · exact h
  · exact ⟨h.1, h.2.1, fun t ht => h.2.2.1.done ht⟩

/-! ## Plans -/

/-- The task belongs to the plan. -/
def OfPlan (plan : PlanRecord) (task : TaskRecord) : Prop :=
  plan.sessionId = task.sessionId ∧ plan.planId = task.planId

/-- No task of an open plan is open. -/
def NoOpenTask (σ : Store) : Prop :=
  ∀ task ∈ σ.tasks.rows, task.status ∈ openTaskStates → ¬ PlanOpen σ task

theorem interruptPendingTasks_spec {plan : PlanRecord} (hp : plan ∈ w.store.plans.rows)
    (ho : plan.status ∈ openPlanStates) :
    wp (during (Progress R ordered)) (interruptPendingTasks plan)
      (returns fun _ w' => (∃ tasks, w'.store = { w.store with tasks := tasks }) ∧
        policy R w'.store = policy R w.store ∧
        ∀ task ∈ w'.store.tasks.rows, task.status = .interrupted ∨
          task ∈ w.store.tasks.rows ∧ (task.status ∈ openTaskStates → ¬ OfPlan plan task)) w := by
  unfold interruptPendingTasks
  simp only [wp_bind, wp_readStore, after_ok]
  let I (rest : List TaskRecord) (w' : World) : Prop :=
    (∃ tasks, w'.store = { w.store with tasks := tasks }) ∧ policy R w'.store = policy R w.store ∧
      w'.store.tasks.ToDo rest (fun t => t.status ∈ openTaskStates ∧ OfPlan plan t) ∧
      (∀ t ∈ rest, OfPlan plan t) ∧
      ∀ t ∈ w'.store.tasks.rows, t.status = .interrupted ∨ t ∈ w.store.tasks.rows
  have step : ∀ task rest w', I (task :: rest) w' →
      wp (during (Progress R ordered))
        (if task.status ∈ openTaskStates then interruptTask task else pure ())
        (returns fun _ => I rest) w' := by
    rintro task rest w' ⟨⟨tasks, hw⟩, hpol, htodo, hof, hsub⟩
    have hof' : ∀ t ∈ rest, OfPlan plan t := fun t ht => hof t (List.mem_cons_of_mem _ ht)
    rw [wp_ite]
    refine ⟨fun hs => ?_, fun hs => ?_⟩
    · have hopen : PlanOpen w'.store task := by
        obtain ⟨h1, h2⟩ := hof task List.mem_cons_self
        exact ⟨plan, by rw [hw]; exact hp, h1, h2, ho⟩
      refine wp_interruptTask htodo.head (.inr ⟨hs, hopen⟩) fun now hpol' => ?_
      refine ⟨⟨_, by rw [hw]; rfl⟩, hpol'.trans hpol,
        htodo.save (interruptedTask_key task now) (by simp [openTaskStates]), hof', ?_⟩
      intro t ht
      rcases (Table.mem_save_over htodo.head (interruptedTask_key task now)).1 ht with rfl | ⟨ht, _⟩
      · exact .inl rfl
      · exact hsub t ht
    · exact ⟨⟨_, hw⟩, hpol, htodo.skip fun h => hs h.1, hof', hsub⟩
  have init : I (w.store.listTasks plan.sessionId plan.planId) w := by
    refine ⟨⟨_, rfl⟩, rfl, .of_perm_filter (List.perm_insertionSort _ _) ?_, fun t ht => ?_,
      fun t ht => .inr ht⟩
    · exact fun t _ ht => by simp [← ht.2.1, ← ht.2.2]
    · obtain ⟨_, h1, h2⟩ := Store.mem_listTasks.1 ht
      exact ⟨h1.symm, h2.symm⟩
  refine wp_mono (wp_forM step init) ?_
  rintro (e | _) w' ⟨hw, hpol, htodo, _, hsub⟩
  exact ⟨hw, hpol, fun t ht => (hsub t ht).imp_right fun h =>
    ⟨h, fun hs hof => htodo.done ht ⟨hs, hof⟩⟩⟩

theorem canTransition_planInterrupted {status : PlanState} (h : status ∈ openPlanStates) :
    canTransition planTransitions status .interrupted := by
  cases status <;> first | rfl | exact absurd h (by decide)

theorem wp_interruptPlan {plan : PlanRecord} {Q} (hp : plan ∈ w.store.plans.rows)
    (ho : plan.status ∈ openPlanStates)
    (ht : ∀ task ∈ w.store.tasks.rows, OfPlan plan task → task.status ∉ openTaskStates)
    (h : ∀ tasks now,
      policy R (w.store.savePlan (interruptedPlan plan tasks now)) = policy R w.store →
      Q (.ok ()) { w with store := w.store.savePlan (interruptedPlan plan tasks now) }) :
    wp (during (Progress R ordered)) (interruptPlan plan) Q w := by
  have hget : w.store.getPlan plan.sessionId plan.planId = some plan := Table.find_of_mem hp
  unfold interruptPlan
  simp only [wp_bind, wp_readStore, after_ok, hget, Option.getD_some]
  refine wp_checkTransition (canTransition_planInterrupted ho) ?_
  rw [after_ok]
  refine wp_now (quiet_during _) fun now => ?_
  let tasks := w.store.listTasks plan.sessionId plan.planId
  have hpol : policy R (w.store.savePlan (interruptedPlan plan tasks now)) = policy R w.store :=
    policy_interruptPlan hp ho fun t htm h1 h2 => ht t htm ⟨h1, h2⟩
  exact ⟨.of_policy hpol rfl rfl rfl, h _ now hpol⟩

/-- No task is running or open in an open plan, no plan is open, and only tasks and plans have
changed. -/
structure PlansStopped (R : List String) (σ σ' : Store) : Prop where
  frame : ∃ tasks plans, σ' = { σ with tasks := tasks, plans := plans }
  policy : policy R σ' = policy R σ
  stopped : ∀ task ∈ σ'.tasks.rows, task.status ≠ .running
  closed : ∀ plan ∈ σ'.plans.rows, plan.status ∉ openPlanStates

/-- The first half of the pass: the pending tasks of the plans listed. -/
theorem interruptPendingTasks_all_spec {σ : Store} (h : TasksStopped R σ w.store) :
    wp (during (Progress R ordered))
      (forM (w.store.findPlansInStates openPlanStates) interruptPendingTasks)
      (returns fun _ w' => TasksStopped R σ w'.store ∧ w'.store.plans = w.store.plans ∧
        NoOpenTask w'.store) w := by
  let I (rest : List PlanRecord) (w' : World) : Prop :=
    TasksStopped R σ w'.store ∧ w'.store.plans = w.store.plans ∧
      (∀ plan ∈ rest, plan ∈ w.store.plans.rows ∧ plan.status ∈ openPlanStates) ∧
      ∀ task ∈ w'.store.tasks.rows, task.status ∈ openTaskStates →
        ∀ plan ∈ w.store.plans.rows, plan.status ∈ openPlanStates → OfPlan plan task → plan ∈ rest
  have step : ∀ plan rest w', I (plan :: rest) w' →
      wp (during (Progress R ordered)) (interruptPendingTasks plan) (returns fun _ => I rest) w' := by
    rintro plan rest w' ⟨hstop, hplans, hrest, hall⟩
    obtain ⟨hp, ho⟩ := hrest plan List.mem_cons_self
    refine wp_mono (interruptPendingTasks_spec (hplans ▸ hp) ho) ?_
    rintro (e | _) w'' hw
    · exact hw
    · obtain ⟨⟨tasks, hs⟩, hpol, hsub⟩ := hw
      obtain ⟨⟨ts, hf⟩, hpol', hrun⟩ := hstop
      refine ⟨⟨⟨tasks, by rw [hs, hf]⟩, hpol.trans hpol', fun t ht hr => ?_⟩, by rw [hs, ← hplans],
        fun q hq => hrest q (List.mem_cons_of_mem _ hq), fun t ht hto q hq hqo hof => ?_⟩
      · rcases hsub t ht with hi | ⟨htm, _⟩
        · exact absurd (hi.symm.trans hr) (by decide)
        · exact hrun t htm hr
      · rcases hsub t ht with hi | ⟨htm, hnot⟩
        · exact absurd (hi ▸ hto) (by decide)
        · refine (List.mem_cons.1 (hall t htm hto q hq hqo hof)).resolve_left ?_
          rintro rfl
          exact hnot hto hof
  have init : I (w.store.findPlansInStates openPlanStates) w :=
    ⟨h, rfl, fun p hp => Store.mem_findPlansInStates.1 hp,
      fun _ _ _ p hp ho _ => Store.mem_findPlansInStates.2 ⟨hp, ho⟩⟩
  refine wp_mono (wp_forM step init) ?_
  rintro (e | _) w' ⟨hstop, hplans, _, hall⟩
  refine ⟨hstop, hplans, ?_⟩
  rintro t ht hto ⟨p, hp, h1, h2, ho⟩
  simpa using hall t ht hto p (hplans ▸ hp) ho ⟨h1, h2⟩

/-- The second half of the pass: the plans listed. -/
theorem interruptPlans_spec {σ : Store} (h : TasksStopped R σ w.store)
    (hno : NoOpenTask w.store) {plans : List PlanRecord}
    (hplans : plans = w.store.findPlansInStates openPlanStates) :
    wp (during (Progress R ordered)) (forM plans interruptPlan)
      (returns fun _ w' => PlansStopped R σ w'.store) w := by
  let I (rest : List PlanRecord) (w' : World) : Prop :=
    (∃ ps, w'.store = { w.store with plans := ps }) ∧ policy R w'.store = policy R w.store ∧
      w'.store.plans.ToDo rest (fun p => p.status ∈ openPlanStates) ∧
      ∀ p ∈ rest, p ∈ w.store.plans.rows ∧ p.status ∈ openPlanStates
  have step : ∀ plan rest w', I (plan :: rest) w' →
      wp (during (Progress R ordered)) (interruptPlan plan) (returns fun _ => I rest) w' := by
    rintro plan rest w' ⟨⟨ps, hw⟩, hpol, htodo, hrest⟩
    obtain ⟨hp, ho⟩ := hrest plan List.mem_cons_self
    refine wp_interruptPlan htodo.head ho (fun t ht hof hto => ?_) fun tasks now hpol' => ?_
    · exact hno t (by rw [hw] at ht; exact ht) hto ⟨plan, hp, hof.1, hof.2, ho⟩
    · exact ⟨⟨_, by rw [hw]; rfl⟩, hpol'.trans hpol,
        htodo.save (interruptedPlan_key plan tasks now) (by simp [openPlanStates]),
        fun q hq => hrest q (List.mem_cons_of_mem _ hq)⟩
  have init : I plans w := by
    refine ⟨⟨_, rfl⟩, rfl, hplans ▸ .of_perm_filter (List.Perm.refl _) fun p _ ho => by simpa using ho,
      fun p hp => Store.mem_findPlansInStates.1 (hplans ▸ hp)⟩
  refine wp_mono (wp_forM step init) ?_
  rintro (e | _) w' ⟨⟨ps, hw⟩, hpol, htodo, _⟩
  obtain ⟨⟨ts, hf⟩, hpol', hrun⟩ := h
  exact ⟨⟨ts, ps, by rw [hw, hf]⟩, hpol.trans hpol', by rw [hw]; exact hrun,
    fun p hp => htodo.done hp⟩

theorem interruptPendingTasksAndPlans_spec {σ : Store} (h : TasksStopped R σ w.store) :
    wp (during (Progress R ordered)) interruptPendingTasksAndPlans
      (returns fun _ w' => PlansStopped R σ w'.store) w := by
  unfold interruptPendingTasksAndPlans
  simp only [wp_bind, wp_readStore, after_ok]
  refine wp_mono (interruptPendingTasks_all_spec h) ?_
  rintro (e | _) w' ⟨hstop, hplans, hno⟩
  refine interruptPlans_spec hstop hno ?_
  simp only [Store.findPlansInStates, hplans]

end Recovery

end AgenticLocalApp
