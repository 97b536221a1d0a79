import AgenticLocalApp.Execution.PlanResult

/-!
# The state of a plan run

What the memory of a run has to do with the store, what one write may change, and the rules of the
writes.  A run owns the records of its plan: its memory holds them as they are stored, and nobody
else writes them.
-/

namespace AgenticLocalApp

open Prog

/-! ## What is declared -/

/-- The record of a task without what its execution writes down. -/
def TaskRecord.declared (task : TaskRecord) : TaskRecord :=
  { task with
    status := .pending, attemptCount := 0, exitCode := none, timedOut := false
    stdoutRef := none, stderrRef := none, truncated := false, originalSizeBytes := none
    stdoutTotal := none, stderrTotal := none, stdoutRange := none, stderrRange := none
    reason := none, pid := none, processGroupId := none
    startedAt := none, endedAt := none, durationMs := none, updatedAt := 0 }

/-- The record of a plan without what its execution writes down. -/
def PlanRecord.declared (plan : PlanRecord) : PlanRecord :=
  { plan.withCounters [] with
    status := .pending, stopReason := none, startedAt := none, endedAt := none, updatedAt := 0 }

/-- What is declared is read alike from two records that declare the same. -/
theorem TaskRecord.of_declared {γ : Type} (f : TaskRecord → γ) {task task' : TaskRecord}
    (h : task'.declared = task.declared) (hf : ∀ t, f t.declared = f t := by exact fun _ => rfl) :
    f task' = f task := by
  rw [← hf task', h, hf task]

theorem PlanRecord.of_declared {γ : Type} (f : PlanRecord → γ) {plan plan' : PlanRecord}
    (h : plan'.declared = plan.declared) (hf : ∀ p, f p.declared = f p := by exact fun _ => rfl) :
    f plan' = f plan := by
  rw [← hf plan', h, hf plan]

/-- The tasks are the same but for their execution. -/
abbrev SameTasks (tasks tasks' : List TaskRecord) : Prop :=
  tasks'.map TaskRecord.declared = tasks.map TaskRecord.declared

section SameTasks

variable {tasks tasks' : List TaskRecord}

/-- What is declared of tasks is the same in both lists. -/
theorem SameTasks.map_eq {γ : Type} (h : SameTasks tasks tasks') {f : TaskRecord → γ}
    (hf : ∀ t, f t.declared = f t) : tasks'.map f = tasks.map f := by
  have := congrArg (List.map f) h
  simpa only [List.map_map, Function.comp_def, hf] using this

theorem SameTasks.mem (h : SameTasks tasks tasks') {t : TaskRecord} (ht : t ∈ tasks') :
    ∃ u ∈ tasks, u.declared = t.declared := by
  have := List.mem_map_of_mem (f := TaskRecord.declared) ht
  rw [h] at this
  exact List.mem_map.1 this

theorem SameTasks.symm (h : SameTasks tasks tasks') : SameTasks tasks' tasks := Eq.symm h

theorem sameTasks_map {f : TaskRecord → TaskRecord} (h : ∀ t ∈ tasks, (f t).declared = t.declared) :
    SameTasks tasks (tasks.map f) := by
  unfold SameTasks
  rw [List.map_map]
  exact List.map_congr_left h

end SameTasks

/-- A plan that can be scheduled: what `validate` has checked of the declarations. -/
structure Schedulable (plan : PlanRecord) (tasks : List TaskRecord) : Prop where
  nodup : (tasks.map TaskRecord.taskId).Nodup
  planIds : ∀ t ∈ tasks, t.planId = plan.planId
  known : ∀ t ∈ tasks, ∀ d ∈ t.dependsOn, d ∈ tasks.map TaskRecord.taskId
  backward : plan.sequential → ∀ t ∈ tasks, ∀ d ∈ t.dependsOn,
    (tasks.map TaskRecord.taskId).idxOf d < (tasks.map TaskRecord.taskId).idxOf t.taskId
  source : ∀ P : String → Prop, (∃ t ∈ tasks, P t.taskId) →
    ∃ t ∈ tasks, P t.taskId ∧ ∀ d ∈ t.dependsOn, ¬ P d
  sorted : tasks.Pairwise fun a b => a.orderIndex ≤ b.orderIndex

theorem Schedulable.congr {plan plan' : PlanRecord} {tasks tasks' : List TaskRecord}
    (h : Schedulable plan tasks) (hp : plan'.declared = plan.declared) (ht : SameTasks tasks tasks') :
    Schedulable plan' tasks' := by
  have hplanId : plan'.planId = plan.planId := PlanRecord.of_declared PlanRecord.planId hp
  have hseq : plan'.sequential = plan.sequential := PlanRecord.of_declared PlanRecord.sequential hp
  have hids : tasks'.map TaskRecord.taskId = tasks.map TaskRecord.taskId := ht.map_eq fun _ => rfl
  refine ⟨hids ▸ h.nodup, fun t hmem => ?_, fun t hmem d hd => ?_, fun hs t hmem d hd => ?_,
    fun P hP => ?_, ?_⟩
  · obtain ⟨u, hu, he⟩ := ht.mem hmem
    exact (TaskRecord.of_declared TaskRecord.planId he).symm.trans ((h.planIds u hu).trans hplanId.symm)
  · obtain ⟨u, hu, he⟩ := ht.mem hmem
    have hdeps : u.dependsOn = t.dependsOn := TaskRecord.of_declared TaskRecord.dependsOn he
    exact hids ▸ h.known u hu d (hdeps ▸ hd)
  · obtain ⟨u, hu, he⟩ := ht.mem hmem
    have hdeps : u.dependsOn = t.dependsOn := TaskRecord.of_declared TaskRecord.dependsOn he
    have hid : u.taskId = t.taskId := TaskRecord.of_declared TaskRecord.taskId he
    rw [hids, ← hid]
    exact h.backward (hseq ▸ hs) u hu d (hdeps ▸ hd)
  · obtain ⟨t, hmem, hPt⟩ := hP
    obtain ⟨u, hu, he⟩ := ht.mem hmem
    have hid : u.taskId = t.taskId := TaskRecord.of_declared TaskRecord.taskId he
    obtain ⟨v, hv, hPv, hfree⟩ := h.source P ⟨u, hu, hid.symm ▸ hPt⟩
    obtain ⟨v', hv', he'⟩ := ht.symm.mem hv
    refine ⟨v', hv', ?_, fun d hd => hfree d ?_⟩
    · rwa [show v'.taskId = v.taskId from TaskRecord.of_declared TaskRecord.taskId he']
    · rwa [show v.dependsOn = v'.dependsOn from (TaskRecord.of_declared TaskRecord.dependsOn he').symm]
  · have horder : tasks'.map TaskRecord.orderIndex = tasks.map TaskRecord.orderIndex :=
      ht.map_eq fun _ => rfl
    have := List.pairwise_map.2 h.sorted
    rw [← horder] at this
    exact List.pairwise_map.1 this

/-! ## Running tasks -/

/-- The running tasks, by name. -/
def runningIds (tasks : List TaskRecord) : List String :=
  (tasks.filter fun t => t.status = .running).map TaskRecord.taskId

/-- No more tasks run than there are workers, and no two of them under the same lock. -/
structure Disciplined (plan : PlanRecord) (tasks : List TaskRecord) : Prop where
  slots : (runningIds tasks).length ≤ plan.workers
  locks : ∀ t ∈ tasks, ∀ u ∈ tasks, t.status = .running → u.status = .running → ∀ lock,
    t.resourceLock = some lock → u.resourceLock = some lock → t.taskId = u.taskId

theorem mem_runningIds {tasks : List TaskRecord} {id : String} :
    id ∈ runningIds tasks ↔ ∃ t ∈ tasks, t.status = .running ∧ t.taskId = id := by
  simp [runningIds, and_assoc]

theorem runningIds_nodup {tasks : List TaskRecord} (h : (tasks.map TaskRecord.taskId).Nodup) :
    (runningIds tasks).Nodup := h.sublist ((List.filter_sublist).map _)

/-- Where no other task starts to run, the discipline is kept. -/
theorem Disciplined.of_fewer {plan : PlanRecord} {tasks : List TaskRecord}
    (h : Disciplined plan tasks) {f : TaskRecord → TaskRecord}
    (hd : ∀ t ∈ tasks, (f t).declared = t.declared)
    (hf : ∀ t ∈ tasks, (f t).status = .running → t.status = .running) :
    Disciplined plan (tasks.map f) where
  slots := by
    refine le_trans ?_ h.slots
    simp only [runningIds, List.filter_map, List.length_map, ← List.countP_eq_length_filter]
    exact List.countP_mono_left fun t ht hr => by simpa using hf t ht (by simpa using hr)
  locks := by
    intro t' ht' u' hu' hrt hru lock hlt hlu
    obtain ⟨t, ht, rfl⟩ := List.mem_map.1 ht'
    obtain ⟨u, hu, rfl⟩ := List.mem_map.1 hu'
    have hlock (v : TaskRecord) (hv : v ∈ tasks) : (f v).resourceLock = v.resourceLock :=
      TaskRecord.of_declared TaskRecord.resourceLock (hd v hv)
    have hid (v : TaskRecord) (hv : v ∈ tasks) : (f v).taskId = v.taskId :=
      TaskRecord.of_declared TaskRecord.taskId (hd v hv)
    rw [hid t ht, hid u hu]
    exact h.locks t ht u hu (hf t ht hrt) (hf u hu hru) lock (hlock t ht ▸ hlt) (hlock u hu ▸ hlu)

/-- Every dependency of the task is complete. -/
def DependenciesDone (tasks : List TaskRecord) (task : TaskRecord) : Prop :=
  ∀ u ∈ tasks, u.taskId ∈ task.dependsOn → u.status = .completed

/-! ## Memory and store -/

namespace PlanExecution

/-- The loop has seen the deadline passed, an interruption or a stop condition. -/
def Over (mem : PlanExecution) : Prop :=
  mem.budgetExceeded ∨ mem.interrupting ∨ mem.stopReason.isSome

/-- The memory holds the records of the plan as they are stored. -/
structure Tracks (mem : PlanExecution) (plan : PlanRecord) (tasks : List TaskRecord) (σ : Store) :
    Prop where
  same : SameTasks tasks mem.tasks
  planSame : mem.plan.declared = plan.declared
  graph : Schedulable mem.plan mem.tasks
  stored : ∀ t ∈ mem.tasks, σ.getTask t.sessionId t.taskId = some t
  planStored : σ.getPlan mem.plan.sessionId mem.plan.planId = some mem.plan

/-- A task may be launched: its dependencies are complete, the run is not over, and in a sequential
plan it is alone and every task before it is terminal. -/
structure MayLaunch (mem : PlanExecution) (task : TaskRecord) : Prop where
  going : ¬ mem.Over
  dependencies : DependenciesDone mem.tasks task
  alone : mem.plan.sequential → runningIds mem.tasks = []
  inOrder : mem.plan.sequential → ∀ before after, mem.tasks = before ++ task :: after →
    ∀ u ∈ before, u.status.terminal

/-- What one write may do to a task. -/
structure TaskStep (mem : PlanExecution) (task task' : TaskRecord) : Prop where
  declared : task'.declared = task.declared
  status : task'.status = task.status ∨ canTransition taskTransitions task.status task'.status
  launch : task.status ≠ .running → task'.status = .running → mem.MayLaunch task

/-- What one write may do. -/
structure Step (mem mem' : PlanExecution) : Prop where
  tasks : ∃ f : TaskRecord → TaskRecord, mem'.tasks = mem.tasks.map f ∧
    ∀ t ∈ mem.tasks, mem.TaskStep t (f t)
  planDeclared : mem'.plan.declared = mem.plan.declared
  planStatus : mem'.plan.status = mem.plan.status ∨
    canTransition planTransitions mem.plan.status mem'.plan.status
  disciplined : Disciplined mem'.plan mem'.tasks
  staysOver : mem.Over → mem'.Over

section Reading

variable {mem : PlanExecution} {plan : PlanRecord} {tasks : List TaskRecord} {σ : Store}

theorem Tracks.task?_eq_some (h : mem.Tracks plan tasks σ) {id : String} {t : TaskRecord} :
    mem.task? id = some t ↔ t ∈ mem.tasks ∧ t.taskId = id := by
  unfold task?
  constructor
  · intro hf
    exact ⟨List.mem_of_find?_eq_some hf, by simpa using List.find?_some hf⟩
  · rintro ⟨ht, rfl⟩
    obtain ⟨u, hu⟩ : ∃ u, mem.tasks.find? (fun u => decide (u.taskId = t.taskId)) = some u := by
      rw [← Option.isSome_iff_exists, List.find?_isSome]
      exact ⟨t, ht, by simp⟩
    have hut : u.taskId = t.taskId := by simpa using List.find?_some hu
    rw [hu, List.inj_on_of_nodup_map h.graph.nodup (List.mem_of_find?_eq_some hu) ht hut]

theorem Tracks.task?_of_mem (h : mem.Tracks plan tasks σ) {t : TaskRecord} (ht : t ∈ mem.tasks) :
    mem.task? t.taskId = some t := h.task?_eq_some.2 ⟨ht, rfl⟩

theorem Tracks.inj (h : mem.Tracks plan tasks σ) {t u : TaskRecord} (ht : t ∈ mem.tasks) (hu : u ∈ mem.tasks)
    (he : t.taskId = u.taskId) : t = u := List.inj_on_of_nodup_map h.graph.nodup ht hu he

theorem dependenciesCompleted_iff (h : mem.Tracks plan tasks σ) {t : TaskRecord} (ht : t ∈ mem.tasks) :
    mem.dependenciesCompleted t ↔ DependenciesDone mem.tasks t := by
  unfold dependenciesCompleted DependenciesDone
  simp only [List.all_eq_true, decide_eq_true_eq, Option.map_eq_some_iff]
  constructor
  · intro hall u hu hd
    obtain ⟨v, hv, hdone⟩ := hall u.taskId hd
    obtain ⟨hv, hid⟩ := h.task?_eq_some.1 hv
    exact h.inj hu hv hid.symm ▸ hdone
  · intro hall d hd
    obtain ⟨u, hu, rfl⟩ := List.mem_map.1 (h.graph.known t ht d hd)
    exact ⟨u, h.task?_of_mem hu, hall u hu hd⟩

theorem Step.of_same {mem' : PlanExecution} (hd : Disciplined mem.plan mem.tasks)
    (htasks : mem'.tasks = mem.tasks) (hplan : mem'.plan = mem.plan)
    (hover : mem.Over → mem'.Over) : mem.Step mem' where
  tasks := ⟨id, by rw [List.map_id, htasks], fun _ _ => ⟨rfl, .inl rfl, fun hn hr => absurd hr hn⟩⟩
  planDeclared := by rw [hplan]
  planStatus := .inl (by rw [hplan])
  disciplined := by rwa [htasks, hplan]
  staysOver := hover

theorem Tracks.of_same {mem' : PlanExecution} {σ' : Store} (h : mem.Tracks plan tasks σ)
    (htasks : mem'.tasks = mem.tasks) (hplan : mem'.plan = mem.plan) (ht : σ'.tasks = σ.tasks)
    (hp : σ'.plans = σ.plans) : mem'.Tracks plan tasks σ' where
  same := htasks ▸ h.same
  planSame := hplan ▸ h.planSame
  graph := by
    rw [htasks, hplan]
    exact h.graph
  stored := by
    unfold Store.getTask
    rw [htasks, ht]
    exact h.stored
  planStored := by
    unfold Store.getPlan
    rw [hplan, hp]
    exact h.planStored

end Reading

end PlanExecution

end AgenticLocalApp
