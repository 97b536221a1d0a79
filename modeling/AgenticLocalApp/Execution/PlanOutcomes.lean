import AgenticLocalApp.Execution.PlanRuns

/-!
# What a plan run guarantees

How a run ends, and which tasks run at a time, whatever the workers come back with, in whatever
order, and whenever the deadline passes or the run is interrupted.
-/

namespace AgenticLocalApp

open Prog

namespace PlanRunner

/-- A run at its start. -/
def start (r : PlanRunner) (plan : PlanRecord) (tasks : List TaskRecord) (session : SessionRecord)
    (w : World) : Config Run PlanOutcome :=
  (r.planExecution, (w, PlanExecution.create plan tasks session))

/-- The tasks in declaration order. -/
def declared (tasks : List TaskRecord) : List TaskRecord :=
  tasks.insertionSort fun a b => a.orderIndex ≤ b.orderIndex

/-- What a run is started with: a plan that passes the checks, stored as it is. -/
structure Accepted (plan : PlanRecord) (tasks : List TaskRecord) (session : SessionRecord)
    (σ : Store) : Prop where
  valid : (PlanExecution.create plan tasks session).validate = .ok ()
  stored : StoredAs plan tasks σ

theorem mem_declared {tasks : List TaskRecord} {t : TaskRecord} : t ∈ declared tasks ↔ t ∈ tasks :=
  List.mem_insertionSort _

theorem runRely_declared (plan : PlanRecord) (tasks : List TaskRecord) :
    runRely plan (declared tasks) = runRely plan tasks := by
  have hun (σ σ' : Store) : Undisturbed plan (declared tasks) σ σ' ↔ Undisturbed plan tasks σ σ' :=
    ⟨fun h => ⟨fun t ht => h.tasks t (mem_declared.2 ht), h.plan⟩,
      fun h => ⟨fun t ht => h.tasks t (mem_declared.1 ht), h.plan⟩⟩
  funext op s a s'
  unfold runRely planRely
  cases op <;> simp only [hun]

section Runs

variable {r : PlanRunner} {plan : PlanRecord} {tasks : List TaskRecord} {session : SessionRecord}
  {w : World}

theorem wp_start (h : Accepted plan tasks session w.store) :
    wp (planContract r plan (declared tasks)) (r.start plan tasks session w).1
      (PlanEnds r plan (declared tasks)) (r.start plan tasks session w).2 :=
  wp_planExecution h.valid h.stored

theorem wp_reached (h : Accepted plan tasks session w.store) {c : Config Run PlanOutcome}
    (hr : Reaches (runRely plan tasks) (r.start plan tasks session w) c) :
    wp (planContract r plan (declared tasks)) c.1 (PlanEnds r plan (declared tasks)) c.2 := by
  rw [← runRely_declared] at hr
  exact wp_reaches (wp_start h) hr

/-- Wherever a run has come to, its memory holds the records of the plan as they are stored, and no
more tasks run than may. -/
theorem tracks_reached (h : Accepted plan tasks session w.store) {c : Config Run PlanOutcome}
    (hr : Reaches (runRely plan tasks) (r.start plan tasks session w) c) :
    c.2.2.Tracks plan (declared tasks) c.2.1.store ∧ Disciplined c.2.2.plan c.2.2.tasks := by
  obtain ⟨hf, hsched⟩ := accepted h.valid
  rw [← runRely_declared] at hr
  let I (s : World × PlanExecution) : Prop :=
    s.2.Tracks plan (declared tasks) s.1.store ∧ Disciplined s.2.plan s.2.tasks
  have hinit : I (r.start plan tasks session w).2 :=
    ⟨⟨rfl, rfl, hsched, fun t ht => h.stored.tasks t (mem_declared.1 ht), h.stored.plan⟩,
      hf.steady.disciplined⟩
  refine invariant_reaches (wp_start h) hr (I := I) hinit ?_ ?_
  · exact fun s s' _ hg => ⟨hg.1, hg.2.disciplined⟩
  · rintro op ⟨w₁, mem₁⟩ a ⟨w₂, mem₂⟩ ⟨ht, hd⟩ ⟨hrely, rfl : mem₂ = mem₁⟩
    refine ⟨?_, hd⟩
    unfold planRely at hrely
    cases op with
    | now | monotonicMs | newId => exact hrely.2 ▸ ht
    | wait => exact ht.undisturbed hrely.2.1
    | _ => exact ht.undisturbed hrely.2

/-- What one step does: nothing to the memory, or one write. -/
theorem step_reached (h : Accepted plan tasks session w.store) {c c' : Config Run PlanOutcome}
    (hr : Reaches (runRely plan tasks) (r.start plan tasks session w) c)
    (hs : Prog.Step (runRely plan tasks) c c') : c'.2.2 = c.2.2 ∨ c.2.2.Step c'.2.2 := by
  have hw := wp_reached h hr
  cases hs with
  | get => exact .inl rfl
  | modify => exact .inr hw.1.2
  | ask hrely => exact .inl hrely.2

/-- The surroundings always have an answer. -/
theorem answered (plan : PlanRecord) (tasks : List TaskRecord) (op : Op) (s : World × PlanExecution) :
    ∃ a s', runRely plan tasks op s a s' := by
  have hsame : Undisturbed plan tasks s.1.store s.1.store := ⟨fun _ _ => rfl, rfl⟩
  obtain ⟨w, mem⟩ := s
  let cancelled : World := { w with token := w.token.cancel "" }
  have hans := op.answers_answer w.store
  cases op with
  | now | monotonicMs | newId => exact ⟨_, (w, mem), ⟨hans, rfl⟩, rfl⟩
  | wait => exact ⟨_, (cancelled, mem), ⟨hans, hsame, .inr rfl⟩, rfl⟩
  | _ => exact ⟨_, (w, mem), ⟨hans, hsame⟩, rfl⟩

/-! ## How a run ends -/

/-- The end of a run: in the store, the plan and all of its tasks are terminal, and the counters of
the plan are those of its tasks; the result accounts for every task in declaration order, unless the
plan was interrupted. -/
structure Settled (plan : PlanRecord) (tasks : List TaskRecord) (σ : Store) (o : PlanOutcome) :
    Prop where
  same : SameTasks (declared tasks) o.tasks
  planStored : σ.getPlan plan.sessionId plan.planId = some o.plan
  tasksStored : ∀ t ∈ o.tasks, σ.getTask t.sessionId t.taskId = some t
  planTerminal : o.plan.status.terminal
  tasksTerminal : ∀ t ∈ o.tasks, t.status.terminal
  counters : o.plan.withCounters (o.tasks.map TaskRecord.status) = o.plan
  result : o.plan.status ≠ .interrupted → ∃ content, o.executionResult = some content ∧
    content.AccountsFor ((declared tasks).map TaskRecord.taskId)

/-- One step by which a task starts to run. -/
def Launches (c c' : Config Run PlanOutcome) (taskId : String) : Prop :=
  ∃ t ∈ c.2.2.tasks, ∃ t' ∈ c'.2.2.tasks, t.taskId = taskId ∧ t'.taskId = taskId ∧
    t.status ≠ .running ∧ t'.status = .running

/-- What is asked of the launches of a plan: at any time no more tasks run than there are workers,
and no two of them under one lock; a task starts to run when its dependencies are complete and the
run is not over, in a sequential plan alone; and a sequential plan launches in declaration order. -/
structure LaunchesWell (r : PlanRunner) (plan : PlanRecord) (tasks : List TaskRecord)
    (session : SessionRecord) (w : World) : Prop where
  stored : ∀ c, Reaches (runRely plan tasks) (r.start plan tasks session w) c →
    c.2.2.Tracks plan (declared tasks) c.2.1.store
  disciplined : ∀ c, Reaches (runRely plan tasks) (r.start plan tasks session w) c →
    Disciplined plan c.2.2.tasks
  launched : ∀ c c' taskId, Reaches (runRely plan tasks) (r.start plan tasks session w) c →
    Prog.Step (runRely plan tasks) c c' → Launches c c' taskId →
    ∃ t ∈ c.2.2.tasks, t.taskId = taskId ∧ c.2.2.MayLaunch t
  stays : ∀ c c', Reaches (runRely plan tasks) (r.start plan tasks session w) c →
    Reaches (runRely plan tasks) c c' → c.2.2.Over → c'.2.2.Over
  ordered : plan.sequential → ∀ c₁ c₁' c₂ c₂' taskId₁ taskId₂,
    Reaches (runRely plan tasks) (r.start plan tasks session w) c₁ →
    Prog.Step (runRely plan tasks) c₁ c₁' → Launches c₁ c₁' taskId₁ →
    Reaches (runRely plan tasks) c₁' c₂ → Prog.Step (runRely plan tasks) c₂ c₂' →
    Launches c₂ c₂' taskId₂ →
    [taskId₁, taskId₂].Sublist ((declared tasks).map TaskRecord.taskId)

theorem disciplined_congr {p p' : PlanRecord} {us : List TaskRecord} (h : Disciplined p' us)
    (hp : p'.declared = p.declared) : Disciplined p us :=
  ⟨PlanRecord.of_declared PlanRecord.workers hp ▸ h.slots, h.locks⟩

theorem launched_mayLaunch (h : Accepted plan tasks session w.store)
    {c c' : Config Run PlanOutcome} {taskId : String}
    (hr : Reaches (runRely plan tasks) (r.start plan tasks session w) c)
    (hs : Prog.Step (runRely plan tasks) c c') (hl : Launches c c' taskId) :
    ∃ t ∈ c.2.2.tasks, t.taskId = taskId ∧ t.status = .pending ∧ c.2.2.MayLaunch t := by
  obtain ⟨t, ht, t', ht', hid, hid', hnot, hrun⟩ := hl
  obtain ⟨htr, -⟩ := tracks_reached h hr
  rcases step_reached h hr hs with he | hstep
  · rw [he] at ht'
    rw [htr.inj ht' ht (hid'.trans hid.symm)] at hrun
    exact absurd hrun hnot
  · obtain ⟨f, hf, hstep⟩ := hstep.tasks
    rw [hf] at ht'
    obtain ⟨u, hu, rfl⟩ := List.mem_map.1 ht'
    obtain ⟨hd, hst, hlaunch⟩ := hstep u hu
    obtain rfl := htr.inj hu ht
      ((TaskRecord.of_declared TaskRecord.taskId hd).symm.trans (hid'.trans hid.symm))
    refine ⟨u, hu, hid, ?_, hlaunch hnot hrun⟩
    have hst := hst.resolve_left fun he => hnot (he ▸ hrun)
    rw [hrun] at hst
    revert hst
    cases u.status <;> decide

/-- A task that has been launched is never launched again, and one that is terminal never is. -/
def launchedBy (taskId : String) (c : Config Run PlanOutcome) : Prop :=
  ∀ t ∈ c.2.2.tasks, t.taskId = taskId → t.status = .running ∨ t.status.terminal

theorem launchedBy_reaches (h : Accepted plan tasks session w.store)
    {c c' : Config Run PlanOutcome} {taskId : String}
    (hr : Reaches (runRely plan tasks) (r.start plan tasks session w) c)
    (hr' : Reaches (runRely plan tasks) c c') (hl : launchedBy taskId c) : launchedBy taskId c' := by
  induction hr' with
  | refl => exact hl
  | tail hr' hs ih =>
    rcases step_reached h (hr.trans hr') hs with he | hstep
    · unfold launchedBy
      rw [he]
      exact ih
    · obtain ⟨f, hf, hstep⟩ := hstep.tasks
      intro t' ht' hid
      rw [hf] at ht'
      obtain ⟨t, ht, rfl⟩ := List.mem_map.1 ht'
      obtain ⟨hd, hst, -⟩ := hstep t ht
      have ho := ih t ht ((TaskRecord.of_declared TaskRecord.taskId hd).symm.trans hid)
      rcases hst with he | hst
      · rwa [he]
      · revert ho hst
        cases t.status <;> cases (f t).status <;> decide

/-- Every accepted plan is launched under its discipline, whatever happens. -/
theorem plan_launches_well (h : Accepted plan tasks session w.store) :
    LaunchesWell r plan tasks session w where
  stored c hr := (tracks_reached h hr).1
  disciplined c hr := by
    obtain ⟨htr, hd⟩ := tracks_reached h hr
    exact disciplined_congr hd htr.planSame
  launched c c' taskId hr hs hl := by
    obtain ⟨t, ht, hid, -, hmay⟩ := launched_mayLaunch h hr hs hl
    exact ⟨t, ht, hid, hmay⟩
  stays c c' hr hr' hover := by
    induction hr' with
    | refl => exact hover
    | tail hr' hs ih =>
      rcases step_reached h (hr.trans hr') hs with he | hstep
      · exact he ▸ ih
      · exact hstep.staysOver ih
  ordered hseq c₁ c₁' c₂ c₂' taskId₁ taskId₂ hr₁ hs₁ hl₁ hr₂ hs₂ hl₂ := by
    have hr₁' : Reaches (runRely plan tasks) (r.start plan tasks session w) c₁' := hr₁.tail hs₁
    obtain ⟨htr₁, -⟩ := tracks_reached h hr₁
    obtain ⟨htr₁', -⟩ := tracks_reached h hr₁'
    obtain ⟨htr₂, -⟩ := tracks_reached h (hr₁'.trans hr₂)
    obtain ⟨t₁, ht₁, rfl, -, hmay⟩ := launched_mayLaunch h hr₁ hs₁ hl₁
    obtain ⟨t₂, ht₂, rfl, hpend, -⟩ := launched_mayLaunch h (hr₁'.trans hr₂) hs₂ hl₂
    -- a task that was launched or closed before is not launched now
    have hnew {c : Config Run PlanOutcome}
        (hr : Reaches (runRely plan tasks) (r.start plan tasks session w) c)
        (hr' : Reaches (runRely plan tasks) c c₂) : ¬ launchedBy t₂.taskId c := by
      intro hl
      have := launchedBy_reaches h hr hr' hl t₂ ht₂ rfl
      rw [hpend] at this
      exact absurd this (by decide)
    have hids : c₂.2.2.tasks.map TaskRecord.taskId = c₁.2.2.tasks.map TaskRecord.taskId :=
      (htr₂.same.map_eq fun _ => rfl).trans (htr₁.same.map_eq fun _ => rfl).symm
    have hseq₁ : c₁.2.2.plan.sequential :=
      (PlanRecord.of_declared PlanRecord.sequential htr₁.planSame).trans hseq
    obtain ⟨before, rest, he⟩ := List.append_of_mem ht₁
    have hmem : t₂.taskId ∈ c₁.2.2.tasks.map TaskRecord.taskId := hids ▸ List.mem_map_of_mem ht₂
    have hlist : (declared tasks).map TaskRecord.taskId =
        before.map TaskRecord.taskId ++ t₁.taskId :: rest.map TaskRecord.taskId := by
      rw [← List.map_cons (f := TaskRecord.taskId), ← List.map_append, ← he]
      exact (htr₁.same.map_eq fun _ => rfl).symm
    rw [he, List.map_append, List.map_cons, List.mem_append, List.mem_cons] at hmem
    rw [hlist]
    rcases hmem with hbefore | hsame | hafter
    · obtain ⟨u, hu, hid⟩ := List.mem_map.1 hbefore
      have hum : u ∈ c₁.2.2.tasks := he ▸ List.mem_append_left _ hu
      refine absurd (fun v hv hvid => .inr ?_) (hnew hr₁ (.head hs₁ hr₂))
      rw [htr₁.inj hv hum (hvid.trans hid.symm)]
      exact hmay.inOrder hseq₁ before rest he u hu
    · obtain ⟨_, _, t', ht', _, hid', _, hrun⟩ := hl₁
      refine absurd (fun v hv hvid => .inl ?_) (hnew hr₁' hr₂)
      rw [htr₁'.inj hv ht' (hvid.trans (hsame.trans hid'.symm))]
      exact hrun
    · refine List.Sublist.trans ?_ (List.sublist_append_right _ _)
      exact (List.singleton_sublist.2 hafter).cons_cons _

end Runs

/-! ## A plan of one command -/

def loneSession : SessionRecord where
  sessionId := "s"
  status := .running
  goal := ""
  userMessage := ""
  userId := ""
  autoCloseOnFinalAnswer := true
  budget := ⟨1, 1, 1, by decide, by decide, by decide⟩
  createdAt := 0
  updatedAt := 0

def lonePlan : PlanRecord where
  planId := "p"
  sessionId := "s"
  conversationId := "c"
  cycleId := "y"
  planType := .executionPlan
  objective := ""
  executionPolicy := .sequential
  status := .pending
  createdAt := 0
  updatedAt := 0

/-- The task of the plan, given its command. -/
def loneTask (cmd : Option String) : TaskRecord where
  taskId := "t"
  planId := "p"
  sessionId := "s"
  conversationId := "c"
  orderIndex := 0
  type := .cmd
  cmd := cmd
  status := .pending
  createdAt := 0
  updatedAt := 0

def loneRunner : PlanRunner where
  execution := ⟨60000, 60000, 1000, 1000⟩
  payload := ⟨64, 64, 64, by decide, by decide, by decide⟩
  verdictPrograms := ⟨fun _ => false⟩
  translator := ⟨.posix, fun _ => .ok none⟩
  environment := fun _ => .ok ()
  resultCollector := ⟨⟨fun _ => false⟩, ⟨.posix, fun _ => .ok none⟩⟩
  recordsFailures := false
  fitRounds := 1000

/-- Two workers. -/
def lockedPlan : PlanRecord := { lonePlan with executionPolicy := .parallel, maxParallelWorkers := 2 }

/-- Two commands under one lock, and a third that waits for both of them. -/
def lockedTasks : List TaskRecord :=
  [{ loneTask (some "make") with taskId := "make", resourceLock := some "tree" },
    { loneTask (some "make test") with
      taskId := "test", orderIndex := 1, resourceLock := some "tree" },
    { loneTask (some "ls") with
      taskId := "list", orderIndex := 2, dependsOn := ["make", "test"] }]

def lockedWorld : World where
  store := { plans := .ofRows [lockedPlan], tasks := .ofRows lockedTasks }

theorem locked_accepted : Accepted lockedPlan lockedTasks loneSession lockedWorld.store where
  valid := rfl
  stored := by
    refine ⟨rfl, fun t ht => ?_⟩
    simp only [lockedTasks, List.mem_cons, List.not_mem_nil, or_false] at ht
    rcases ht with rfl | rfl | rfl <;> rfl

theorem locked_launches_well :
    LaunchesWell loneRunner lockedPlan lockedTasks loneSession lockedWorld :=
  plan_launches_well locked_accepted

/-- A command that wrote nothing and exited with zero. -/
def silentExecution : RawExecution where
  stdout := []
  stderr := []
  exitCode := some 0
  timedOut := false
  cancelled := false
  spawnError := none
  pid := none
  processGroupId := none

/-- Surroundings in which the first running task comes back at every wait. -/
def promptScript : Script Run := fun _ op s =>
  match op with
  | .wait (id :: _) => (⟨[], [(id, .raw silentExecution)]⟩, s)
  | .wait [] => (⟨[], []⟩, ({ s.1 with token := s.1.token.cancel "" }, s.2))
  | op => (op.answer s.1.store, s)

theorem promptScript_honest (plan : PlanRecord) (tasks : List TaskRecord) (n : Nat) (op : Op)
    (s : World × PlanExecution) :
    runRely plan tasks op s (promptScript n op s).1 (promptScript n op s).2 := by
  have hsame : Undisturbed plan tasks s.1.store s.1.store := ⟨fun _ _ => rfl, rfl⟩
  have hans := op.answers_answer s.1.store
  cases op with
  | wait running =>
    cases running with
    | nil => exact ⟨⟨hans, hsame, .inr rfl⟩, rfl⟩
    | cons id rest =>
      refine ⟨⟨⟨fun _ h => absurd h List.not_mem_nil, List.nodup_singleton _, fun d hd => ?_⟩, hsame,
        .inl (List.cons_ne_nil _ _)⟩, rfl⟩
      rw [List.mem_singleton.1 hd]
      exact List.mem_cons_self
  | now | monotonicMs | newId => exact ⟨⟨hans, rfl⟩, rfl⟩
  | _ => exact ⟨⟨hans, hsame⟩, rfl⟩

end PlanRunner

end AgenticLocalApp
