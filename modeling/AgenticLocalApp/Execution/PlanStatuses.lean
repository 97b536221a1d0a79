import AgenticLocalApp.Execution.PlanOutcomes

/-!
# The statuses that a plan ends with

A run that nothing cuts short gives every task the status that the graph and the outcomes of the
tasks determine: a task is skipped when something it depends on did not complete, and otherwise has
its own outcome.  The order of the ends and the number of workers play no part.
-/

namespace AgenticLocalApp

open Prog

/-- The ways in which a task ends that has run, an interruption apart. -/
def outcomeStates : List TaskState := [.completed, .failed, .timedOut, .cancelled]

/-- The dependencies of every task that runs or has run are complete. -/
def Worked (tasks : List TaskRecord) : Prop :=
  ∀ t ∈ tasks, t.status ∈ TaskState.running :: outcomeStates → DependenciesDone tasks t

theorem Worked.step {mem mem' : PlanExecution} (h : Worked mem.tasks) (hs : mem.Step mem') :
    Worked mem'.tasks := by
  obtain ⟨f, hf, hstep⟩ := hs.tasks
  have hdone : ∀ t ∈ mem.tasks, DependenciesDone mem.tasks t →
      DependenciesDone (mem.tasks.map f) (f t) := by
    intro t ht hdone u' hu' hmem
    obtain ⟨u, hu, rfl⟩ := List.mem_map.1 hu'
    rw [TaskRecord.of_declared TaskRecord.taskId (hstep u hu).declared,
      TaskRecord.of_declared TaskRecord.dependsOn (hstep t ht).declared] at hmem
    have hc := hdone u hu hmem
    rcases (hstep u hu).status with he | hmove
    · rw [he, hc]
    · -- nothing follows completion
      rw [hc] at hmove
      revert hmove
      cases (f u).status <;> decide
  rw [hf]
  intro t' ht' hst
  obtain ⟨t, ht, rfl⟩ := List.mem_map.1 ht'
  apply hdone t ht
  rcases (hstep t ht).status with he | hmove
  · exact h t ht (he ▸ hst)
  · by_cases hrun : t.status = .running
    · apply h t ht
      rw [hrun]
      exact List.mem_cons_self
    · have hlaunched : (f t).status = .running := by
        revert hmove hst hrun
        cases t.status <;> cases (f t).status <;> decide
      exact ((hstep t ht).launch hrun hlaunched).dependencies

/-- The tasks that have run ended as it was fixed for them. -/
def FollowsOutcomes (outcome : String → TaskState) (tasks : List TaskRecord) : Prop :=
  ∀ t ∈ tasks, t.status ≠ .skipped → t.status = outcome t.taskId

/-- A task is skipped just when something it depends on did not complete. -/
theorem skipped_iff {tasks : List TaskRecord} {outcome : String → TaskState}
    (houtcome : ∀ id, outcome id ∈ outcomeStates) (hworked : Worked tasks)
    (hexplained : Explained tasks) (hfollows : FollowsOutcomes outcome tasks) {t : TaskRecord}
    (ht : t ∈ tasks) :
    t.status = .skipped ↔ ∃ u ∈ tasks, u.taskId ∈ t.dependsOn ∧ u.status ≠ .completed := by
  constructor
  · intro hst
    obtain ⟨u, hu, hmem, -, hnot, -⟩ := hexplained t ht hst
    exact ⟨u, hu, hmem, hnot⟩
  · rintro ⟨u, hu, hmem, hnot⟩
    by_contra hst
    have hran : t.status ∈ TaskState.running :: outcomeStates := by
      rw [hfollows t ht hst]
      exact List.mem_cons_of_mem _ (houtcome _)
    exact hnot (hworked t ht hran u hu hmem)

/-- The graph and the outcomes determine the statuses. -/
theorem status_unique {plan : PlanRecord} {tasks us us' : List TaskRecord}
    {outcome : String → TaskState} (hgraph : Schedulable plan tasks) (hs : SameTasks tasks us)
    (hs' : SameTasks tasks us') (hf : FollowsOutcomes outcome us)
    (hf' : FollowsOutcomes outcome us')
    (hskip : ∀ t ∈ us, t.status = .skipped ↔
      ∃ u ∈ us, u.taskId ∈ t.dependsOn ∧ u.status ≠ .completed)
    (hskip' : ∀ t ∈ us', t.status = .skipped ↔
      ∃ u ∈ us', u.taskId ∈ t.dependsOn ∧ u.status ≠ .completed)
    {t t' : TaskRecord} (ht : t ∈ us) (ht' : t' ∈ us') (hid : t.taskId = t'.taskId) :
    t.status = t'.status := by
  by_contra hne
  -- the first task that the two runs disagree on, along the graph
  let Differ (id : String) : Prop := ∃ t ∈ us, ∃ t' ∈ us', t.taskId = id ∧ t'.taskId = id ∧
    t.status ≠ t'.status
  obtain ⟨x₀, hx₀, he₀⟩ := hs.mem ht
  have hstart : ∃ x ∈ tasks, Differ x.taskId := by
    have hid₀ : x₀.taskId = t.taskId := (TaskRecord.of_declared TaskRecord.taskId he₀)
    exact ⟨x₀, hx₀, t, ht, t', ht', hid₀.symm, (hid₀.trans hid).symm, hne⟩
  obtain ⟨x, hx, ⟨a, ha, b, hb, hax, hbx, hab⟩, hfirst⟩ := hgraph.source Differ hstart
  have hdeclared {us : List TaskRecord} (hs : SameTasks tasks us) {c : TaskRecord} (hc : c ∈ us)
      (hcx : c.taskId = x.taskId) : c.dependsOn = x.dependsOn := by
    obtain ⟨y, hy, he⟩ := hs.mem hc
    have hyx : y.taskId = x.taskId := (TaskRecord.of_declared TaskRecord.taskId he).trans hcx
    rw [← List.inj_on_of_nodup_map hgraph.nodup hy hx hyx]
    exact (TaskRecord.of_declared TaskRecord.dependsOn he).symm
  have hdepsa := hdeclared hs ha hax
  have hdepsb := hdeclared hs' hb hbx
  have hpartner {us us' : List TaskRecord} (hs : SameTasks tasks us) (hs' : SameTasks tasks us')
      {u : TaskRecord} (hu : u ∈ us) : ∃ u' ∈ us', u'.taskId = u.taskId := by
    have hids : us'.map TaskRecord.taskId = us.map TaskRecord.taskId :=
      (hs'.map_eq fun _ => rfl).trans (hs.map_eq fun _ => rfl).symm
    have hmem := List.mem_map_of_mem (f := TaskRecord.taskId) hu
    rw [← hids] at hmem
    exact List.mem_map.1 hmem
  have hsame : a.status = .skipped ↔ b.status = .skipped := by
    rw [hskip a ha, hskip' b hb, hdepsa, hdepsb]
    constructor
    · rintro ⟨u, hu, hmem, hnot⟩
      obtain ⟨u', hu', hid'⟩ := hpartner hs hs' hu
      refine ⟨u', hu', hid' ▸ hmem, fun hc => hfirst u.taskId hmem ⟨u, hu, u', hu', rfl, hid', ?_⟩⟩
      rw [hc]
      exact hnot
    · rintro ⟨u', hu', hmem, hnot⟩
      obtain ⟨u, hu, hid'⟩ := hpartner hs' hs hu'
      refine ⟨u, hu, hid' ▸ hmem,
        fun hc => hfirst u'.taskId hmem ⟨u, hu, u', hu', hid', rfl, ?_⟩⟩
      rw [hc]
      exact fun he => hnot he.symm
  by_cases hst : a.status = .skipped
  · exact hab (hst.trans (hsame.1 hst).symm)
  · have hst' : b.status ≠ .skipped := fun h => hst (hsame.2 h)
    exact hab ((hf a ha hst).trans ((hax.trans hbx.symm) ▸ (hf' b hb hst').symm))

namespace PlanRunner

section Runs

variable {r r' : PlanRunner} {plan plan' : PlanRecord} {tasks : List TaskRecord}
  {session session' : SessionRecord} {w w' : World}

theorem worked_reached (h : Accepted plan tasks session w.store) {c : Config Run PlanOutcome}
    (hr : Reaches (runRely plan tasks) (r.start plan tasks session w) c) : Worked c.2.2.tasks := by
  induction hr with
  | refl =>
    intro t ht hst
    rw [(accepted h.valid).1.pending t ht] at hst
    exact absurd hst (by decide)
  | tail hr hs ih =>
    rcases step_reached h hr hs with he | hstep
    · rw [he]
      exact ih
    · exact ih.step hstep

/-- What is known of the tasks once a run has ended. -/
theorem ended_tasks (h : Accepted plan tasks session w.store) {c : Config Run PlanOutcome}
    (hr : Reaches (runRely plan tasks) (r.start plan tasks session w) c) {o : PlanOutcome}
    (ho : c.1 = .ret (.ok o)) (hover : ¬ c.2.2.Over) :
    SameTasks (declared tasks) o.tasks ∧ Worked o.tasks ∧ Explained o.tasks := by
  have hends := wp_reached h hr
  rw [ho, wp_ret] at hends
  obtain ⟨ht, hend⟩ := hends
  rw [hend.tasks]
  exact ⟨ht.same, worked_reached h hr, hend.explained hover⟩

/-- Two runs of the same tasks that nothing cuts short, whatever their workers and whatever the order
of the ends, end with the same statuses when every task has the same outcome; and a task is skipped
just when something it depends on did not complete, which its reason names. -/
theorem plan_order_independent (outcome : String → TaskState)
    (houtcome : ∀ id, outcome id ∈ outcomeStates)
    (h : Accepted plan tasks session w.store) (h' : Accepted plan' tasks session' w'.store)
    {c c' : Config Run PlanOutcome} {o o' : PlanOutcome}
    (hr : Reaches (runRely plan tasks) (r.start plan tasks session w) c)
    (hr' : Reaches (runRely plan' tasks) (r'.start plan' tasks session' w') c')
    (ho : c.1 = .ret (.ok o)) (ho' : c'.1 = .ret (.ok o'))
    (hover : ¬ c.2.2.Over) (hover' : ¬ c'.2.2.Over)
    (hf : FollowsOutcomes outcome o.tasks) (hf' : FollowsOutcomes outcome o'.tasks) :
    o.tasks.map (fun t => (t.taskId, t.status)) = o'.tasks.map (fun t => (t.taskId, t.status)) ∧
    ∀ t ∈ o.tasks,
      (t.status = .skipped ↔
        ∃ u ∈ o.tasks, u.taskId ∈ t.dependsOn ∧ u.status ≠ .completed) ∧
      (t.status = .skipped → ∃ u ∈ o.tasks, u.taskId ∈ t.dependsOn ∧ u.status ≠ .completed ∧
        t.reason = some s!"{dependencyLabel u.status}:{u.taskId}") := by
  obtain ⟨hs, hworked, hexplained⟩ := ended_tasks h hr ho hover
  obtain ⟨hs', hworked', hexplained'⟩ := ended_tasks h' hr' ho' hover'
  have hskip : ∀ t ∈ o.tasks, _ := fun t ht => skipped_iff houtcome hworked hexplained hf ht
  have hskip' : ∀ t ∈ o'.tasks, _ := fun t ht => skipped_iff houtcome hworked' hexplained' hf' ht
  refine ⟨?_, fun t ht => ⟨hskip t ht, fun hst => ?_⟩⟩
  · have hids : o.tasks.map TaskRecord.taskId = o'.tasks.map TaskRecord.taskId :=
      (hs.map_eq fun _ => rfl).trans (hs'.map_eq fun _ => rfl).symm
    have hlen : o.tasks.length = o'.tasks.length := by simpa using congrArg List.length hids
    refine List.ext_getElem (by simpa using hlen) fun i hi hi' => ?_
    rw [List.length_map] at hi hi'
    have hid : o.tasks[i].taskId = o'.tasks[i].taskId := by
      have := List.getElem_of_eq hids (i := i) (by simpa using hi)
      simpa using this
    have hstatus := status_unique (accepted h.valid).2 hs hs' hf hf' hskip hskip'
      (List.getElem_mem hi) (List.getElem_mem hi') hid
    simp only [List.getElem_map, hid, hstatus]
  · obtain ⟨u, hu, hmem, -, hnot, hname⟩ := hexplained t ht hst
    exact ⟨u, hu, hmem, hnot, hname⟩

end Runs

/-! ## A failed chunk request and the command that waits for it -/

/-- A plan that goes on after failures, with so many workers. -/
def pairPlan (workers : Int) : PlanRecord :=
  { lonePlan with executionPolicy := .parallel, maxParallelWorkers := workers }

/-- A request for a chunk of a task that does not exist, and a command that depends on it. -/
def pairTasks : List TaskRecord :=
  [{ loneTask none with
      taskId := "chunk", type := .chunkRequest, refTaskId := some "nobody"
      stopsPlanOnFailure := false },
    { loneTask (some "ls") with taskId := "list", orderIndex := 1, dependsOn := ["chunk"] }]

def pairWorld (workers : Int) : World where
  store := { plans := .ofRows [pairPlan workers], tasks := .ofRows pairTasks }

theorem pair_accepted (workers : Int) :
    Accepted (pairPlan workers) pairTasks loneSession (pairWorld workers).store where
  valid := rfl
  stored := by
    refine ⟨rfl, fun t ht => ?_⟩
    simp only [pairTasks, List.mem_cons, List.not_mem_nil, or_false] at ht
    rcases ht with rfl | rfl <;> rfl

/-- A run of the two tasks, with so many workers. -/
def pairEnd (workers : Int) : Config Run PlanOutcome :=
  drive promptScript 200 0 (loneRunner.start (pairPlan workers) pairTasks loneSession
    (pairWorld workers))

/-- What a run came to, if it has ended well. -/
def outcomeOf (c : Config Run PlanOutcome) : Option PlanOutcome :=
  match c.1 with
  | .ret (.ok o) => some o
  | _ => none

theorem eq_of_outcomeOf {c : Config Run PlanOutcome} {o : PlanOutcome} (h : outcomeOf c = some o) :
    c.1 = .ret (.ok o) := by
  unfold outcomeOf at h
  split at h
  · rename_i hc
    rw [hc, Option.some.inj h]
  · cases h

/-- With one worker and with two, the chunk request fails and the command is skipped. -/
theorem pair_order_independent : ∃ o o' : PlanOutcome,
    (pairEnd 1).1 = .ret (.ok o) ∧ (pairEnd 2).1 = .ret (.ok o') ∧
    o.tasks.map (fun t => (t.taskId, t.status)) = o'.tasks.map (fun t => (t.taskId, t.status)) ∧
    o.tasks.map TaskRecord.status = [.failed, .skipped] := by
  have hrun (workers : Int) : Reaches (runRely (pairPlan workers) pairTasks) _ (pairEnd workers) :=
    drive_reaches (promptScript_honest (pairPlan workers) pairTasks) 200 0 _
  have hfinal : ∀ workers ∈ [(1 : Int), 2], ∃ o, outcomeOf (pairEnd workers) = some o ∧
      o.tasks.map TaskRecord.status = [.failed, .skipped] ∧
      FollowsOutcomes (fun _ => .failed) o.tasks := by
    intro workers hworkers
    have hstatuses : (outcomeOf (pairEnd workers)).map (fun o => o.tasks.map TaskRecord.status) =
        some [.failed, .skipped] := by
      revert workers
      decide +kernel
    obtain ⟨o, ho, hst⟩ := Option.map_eq_some_iff.1 hstatuses
    refine ⟨o, ho, hst, fun t ht hskip => ?_⟩
    have hmem := List.mem_map_of_mem (f := TaskRecord.status) ht
    rw [hst] at hmem
    simpa [hskip] using hmem
  have hover : ∀ workers ∈ [(1 : Int), 2], ¬ (pairEnd workers).2.2.Over := by
    unfold PlanExecution.Over
    decide +kernel
  obtain ⟨o, ho, hst, hf⟩ := hfinal 1 (by decide)
  obtain ⟨o', ho', -, hf'⟩ := hfinal 2 (by decide)
  have hsame := plan_order_independent (fun _ => .failed) (fun _ => by decide) (pair_accepted 1)
    (pair_accepted 2) (hrun 1) (hrun 2) (eq_of_outcomeOf ho) (eq_of_outcomeOf ho')
    (hover 1 (by decide)) (hover 2 (by decide)) hf hf'
  exact ⟨o, o', eq_of_outcomeOf ho, eq_of_outcomeOf ho', hsame.1, hst⟩

end PlanRunner

end AgenticLocalApp
