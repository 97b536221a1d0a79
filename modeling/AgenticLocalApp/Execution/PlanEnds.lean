import AgenticLocalApp.Execution.PlanWrites

/-!
# The end of a task

How a task ends and what follows for the tasks that depend on it: released when all they wait for
is complete, skipped, and all who depend on them in turn, when something they wait for is not.
-/

namespace AgenticLocalApp

open Prog PlanExecution

/-! ## The tasks to skip -/

namespace PlanRunner

section Skipped

variable {tasks : List TaskRecord}

/-- Every task that could still run and depends on `x` has been found. -/
def Closed (tasks : List TaskRecord) (found : List (String × String)) (x : String) : Prop :=
  ∀ t ∈ tasks, t.status ∈ schedulableStates → x ∈ t.dependsOn → t.taskId ∈ found.map Prod.fst

theorem Closed.mono {found found' : List (String × String)} {x : String}
    (h : Closed tasks found x) (hsub : found.map Prod.fst ⊆ found'.map Prod.fst) :
    Closed tasks found' x := fun t ht hs hd => hsub (h t ht hs hd)

/-- How many tasks may yet be found. -/
def unfound (tasks : List TaskRecord) (found : List (String × String)) : Nat :=
  tasks.countP fun t => t.taskId ∉ found.map Prod.fst ∧ t.status ∈ schedulableStates

theorem countP_add_countP_le {α : Type} {p q s : α → Bool} {xs : List α}
    (hp : ∀ x ∈ xs, p x → s x ∧ ¬ q x) (hq : ∀ x ∈ xs, q x → s x) :
    xs.countP p + xs.countP q ≤ xs.countP s := by
  induction xs with
  | nil => exact le_refl _
  | cons x xs ih =>
    have ih := ih (fun y hy => hp y (List.mem_cons_of_mem _ hy))
      fun y hy => hq y (List.mem_cons_of_mem _ hy)
    have hpx := hp x List.mem_cons_self
    have hqx := hq x List.mem_cons_self
    simp only [List.countP_cons]
    cases hp' : p x <;> cases hq' : q x <;> cases hs' : s x <;> simp_all <;> omega

theorem skipped_spec {fuel : Nat} {found : List (String × String)}
    {worklist : List (String × TaskState)} {root : String}
    (hfuel : worklist.length + unfound tasks found ≤ fuel)
    (hfound : ∀ x ∈ found.map Prod.fst, ∃ t ∈ tasks, t.taskId = x ∧ t.status ∈ schedulableStates)
    (hopen : ∀ x ∈ root :: found.map Prod.fst, x ∈ worklist.map Prod.fst ∨ Closed tasks found x) :
    let out := skipped tasks fuel found worklist
    (∀ x ∈ out.map Prod.fst, ∃ t ∈ tasks, t.taskId = x ∧ t.status ∈ schedulableStates) ∧
      ∀ x ∈ root :: out.map Prod.fst, Closed tasks out x := by
  induction fuel generalizing found worklist with
  | zero =>
    obtain rfl : worklist = [] := List.eq_nil_of_length_eq_zero (by omega)
    exact ⟨hfound, fun x hx => (hopen x hx).resolve_left List.not_mem_nil⟩
  | succ fuel ih =>
    match worklist with
    | [] => exact ⟨hfound, fun x hx => (hopen x hx).resolve_left List.not_mem_nil⟩
    | (dependency, state) :: rest =>
      let hit := dependants tasks found dependency
      let reason := s!"{dependencyLabel state}:{dependency}"
      let found' := found ++ hit.map fun t => (t.taskId, reason)
      have mem_hit {t : TaskRecord} : t ∈ hit ↔ t ∈ tasks ∧ t.taskId ∉ found.map Prod.fst ∧
          t.status ∈ schedulableStates ∧ dependency ∈ t.dependsOn := by
        simp only [hit, dependants, List.mem_filter, decide_eq_true_eq]
      have hids : found'.map Prod.fst = found.map Prod.fst ++ hit.map TaskRecord.taskId := by
        simp [found', Function.comp_def]
      have hsub : found.map Prod.fst ⊆ found'.map Prod.fst := by
        rw [hids]
        exact List.subset_append_left _ _
      have hless : hit.length + unfound tasks found' ≤ unfound tasks found := by
        rw [show hit.length = tasks.countP _ from (List.countP_eq_length_filter ..).symm]
        refine countP_add_countP_le (fun t ht hp => ?_) fun t ht hq => ?_
        · simp only [decide_eq_true_eq] at hp ⊢
          have hmem : t.taskId ∈ found'.map Prod.fst := by
            rw [hids]
            exact List.mem_append_right _ (List.mem_map_of_mem (mem_hit.2 ⟨ht, hp⟩))
          exact ⟨⟨hp.1, hp.2.1⟩, fun hq => hq.1 hmem⟩
        · simp only [decide_eq_true_eq] at hq ⊢
          exact ⟨fun h => hq.1 (hsub h), hq.2⟩
      refine ih ?_ ?_ ?_
      · change (rest ++ hit.map fun t => (t.taskId, TaskState.skipped)).length +
          unfound tasks found' ≤ fuel
        rw [List.length_append, List.length_map]
        rw [List.length_cons] at hfuel
        omega
      · intro x hx
        rcases List.mem_append.1 (hids ▸ hx) with hx | hx
        · exact hfound x hx
        · obtain ⟨t, ht, rfl⟩ := List.mem_map.1 hx
          obtain ⟨hmem, -, hs, -⟩ := mem_hit.1 ht
          exact ⟨t, hmem, rfl, hs⟩
      · intro x hx
        have hx' : x ∈ root :: found.map Prod.fst ∨ x ∈ hit.map TaskRecord.taskId := by
          rw [hids, ← List.cons_append] at hx
          exact List.mem_append.1 hx
        rcases hx' with hx | hx
        · rcases hopen x hx with hw | hc
          · rw [List.map_cons] at hw
            rcases List.mem_cons.1 hw with rfl | hw
            · refine .inr fun t ht hs hd => ?_
              by_cases hf : t.taskId ∈ found.map Prod.fst
              · exact hsub hf
              · rw [hids]
                exact List.mem_append_right _ (List.mem_map_of_mem (mem_hit.2 ⟨ht, hf, hs, hd⟩))
            · exact .inl (by simp [hw])
          · exact .inr (hc.mono hsub)
        · obtain ⟨t, ht, rfl⟩ := List.mem_map.1 hx
          exact .inl (by simpa using .inr ⟨t, ht, rfl⟩)

/-- The tasks that are skipped when `root` did not complete. -/
theorem skipped_root {root : String} {state : TaskState} :
    let out := skipped tasks (tasks.length + 1) [] [(root, state)]
    (∀ x ∈ out.map Prod.fst, ∃ t ∈ tasks, t.taskId = x ∧ t.status ∈ schedulableStates) ∧
      ∀ x ∈ root :: out.map Prod.fst, Closed tasks out x := by
  refine skipped_spec ?_ (fun _ hx => absurd hx List.not_mem_nil) fun x hx => ?_
  · have : unfound tasks [] ≤ tasks.length := List.countP_le_length
    simp only [List.length_singleton]
    omega
  · exact .inl (by simpa using hx)

/-- The entry names a dependency that holds the task back: the root, or a task that was found. -/
def Named (tasks : List TaskRecord) (root : String × TaskState) (found : List (String × String))
    (entry : String × String) : Prop :=
  ∃ t ∈ tasks, t.taskId = entry.1 ∧ ∃ d ∈ t.dependsOn, ∃ state,
    entry.2 = s!"{dependencyLabel state}:{d}" ∧
      ((d, state) = root ∨ d ∈ found.map Prod.fst ∧ state = .skipped)

theorem Named.mono {root : String × TaskState} {found found' : List (String × String)}
    {entry : String × String} (h : Named tasks root found entry)
    (hsub : found.map Prod.fst ⊆ found'.map Prod.fst) : Named tasks root found' entry := by
  obtain ⟨t, ht, hid, d, hd, state, hreason, hcause⟩ := h
  exact ⟨t, ht, hid, d, hd, state, hreason, hcause.imp id (And.imp_left fun h => hsub h)⟩

theorem skipped_named {fuel : Nat} {found : List (String × String)}
    {worklist : List (String × TaskState)} {root : String × TaskState}
    (hfound : ∀ entry ∈ found, Named tasks root found entry)
    (hwork : ∀ p ∈ worklist, p = root ∨ p.1 ∈ found.map Prod.fst ∧ p.2 = .skipped) :
    ∀ entry ∈ skipped tasks fuel found worklist,
      Named tasks root (skipped tasks fuel found worklist) entry := by
  induction fuel generalizing found worklist with
  | zero => exact hfound
  | succ fuel ih =>
    match worklist with
    | [] => exact hfound
    | (dependency, state) :: rest =>
      let hit := dependants tasks found dependency
      let reason := s!"{dependencyLabel state}:{dependency}"
      let found' := found ++ hit.map fun t => (t.taskId, reason)
      have hsub : found.map Prod.fst ⊆ found'.map Prod.fst := by
        rw [List.map_append]
        exact List.subset_append_left _ _
      have hcause := (hwork _ List.mem_cons_self).imp id (And.imp_left fun h => hsub h)
      refine ih (fun entry hentry => ?_) fun p hp => ?_
      · rcases List.mem_append.1 hentry with hentry | hentry
        · exact (hfound entry hentry).mono hsub
        · obtain ⟨t, ht, rfl⟩ := List.mem_map.1 hentry
          have ht := List.mem_filter.1 ht
          simp only [decide_eq_true_eq] at ht
          exact ⟨t, ht.1, rfl, dependency, ht.2.2.2, state, rfl, hcause⟩
      · rcases List.mem_append.1 hp with hp | hp
        · exact (hwork p (List.mem_cons_of_mem _ hp)).imp id (And.imp_left fun h => hsub h)
        · obtain ⟨t, ht, rfl⟩ := List.mem_map.1 hp
          refine .inr ⟨?_, rfl⟩
          rw [List.map_append, List.mem_append]
          exact .inr (List.mem_map.2 ⟨_, List.mem_map_of_mem ht, rfl⟩)

end Skipped

end PlanRunner

/-! ## What holds between two writes -/

theorem Changes.status_applied (changes : Changes) (now : Instant) (t : TaskRecord) :
    (changes.applied now t).status = ((changes t).map Change.target).getD t.status := by
  unfold Changes.applied
  cases changes t <;> rfl

theorem runningIds_map {tasks : List TaskRecord} {f : TaskRecord → TaskRecord}
    (hd : ∀ t ∈ tasks, (f t).declared = t.declared)
    (hs : ∀ t ∈ tasks, (f t).status = .running ↔ t.status = .running) :
    runningIds (tasks.map f) = runningIds tasks := by
  induction tasks with
  | nil => rfl
  | cons t tasks ih =>
    have ih := ih (fun u hu => hd u (List.mem_cons_of_mem _ hu))
      fun u hu => hs u (List.mem_cons_of_mem _ hu)
    have hid : (f t).taskId = t.taskId :=
      TaskRecord.of_declared TaskRecord.taskId (hd t List.mem_cons_self)
    have hrun := hs t List.mem_cons_self
    unfold runningIds at ih ⊢
    by_cases h : t.status = .running
    · simp [h, hrun.2 h, hid, ih]
    · simp [h, mt hrun.1 h, ih]

/-- How many tasks are not terminal. -/
def openCount (tasks : List TaskRecord) : Nat := tasks.countP fun t => ¬ t.status.terminal

theorem openCount_map_le {tasks : List TaskRecord} {f : TaskRecord → TaskRecord}
    (h : ∀ t ∈ tasks, t.status.terminal → (f t).status.terminal) :
    openCount (tasks.map f) ≤ openCount tasks := by
  unfold openCount
  rw [List.countP_map]
  refine List.countP_mono_left fun t ht ho => ?_
  simp only [Function.comp_apply, decide_eq_true_eq] at ho ⊢
  exact fun hterm => ho (h t ht hterm)

theorem openCount_map_lt {tasks : List TaskRecord} {f : TaskRecord → TaskRecord}
    (h : ∀ t ∈ tasks, t.status.terminal → (f t).status.terminal) {t : TaskRecord} (ht : t ∈ tasks)
    (ho : ¬ t.status.terminal) (hf : (f t).status.terminal) :
    openCount (tasks.map f) < openCount tasks := by
  unfold openCount
  rw [List.countP_map]
  let ends (u : TaskRecord) : Bool := ¬ u.status.terminal ∧ (f u).status.terminal
  have hpos : 0 < tasks.countP ends := List.countP_pos_iff.2 ⟨t, ht, by simp [ends, ho, hf]⟩
  have hle : tasks.countP ((fun t => decide (¬ t.status.terminal)) ∘ f) + tasks.countP ends ≤
      tasks.countP fun t : TaskRecord => decide (¬ t.status.terminal) :=
    PlanRunner.countP_add_countP_le (fun u hu hp => ?_) fun u _ hq => ?_
  · omega
  · simp only [Function.comp_apply, decide_eq_true_eq] at hp ⊢
    exact ⟨fun hterm => hp (h u hu hterm), fun hq => hp (by simp [ends] at hq; exact hq.2)⟩
  · simp only [ends, decide_eq_true_eq] at hq ⊢
    exact hq.1

/-- The memory says which tasks run, but for one that was just taken off, and which locks they
hold. -/
structure Steady (popped : Option String) (mem : PlanExecution) : Prop where
  disciplined : Disciplined mem.plan mem.tasks
  nodup : mem.running.Nodup
  running : ∀ id, id ∈ mem.running ↔ id ∈ runningIds mem.tasks ∧ some id ≠ popped
  locks : ∀ lock, lock ∈ mem.heldLocks ↔
    ∃ t ∈ mem.tasks, t.status = .running ∧ t.resourceLock = some lock

/-- Changes by which no task starts or ceases to run. -/
theorem Steady.map {popped : Option String} {mem : PlanExecution} {f : TaskRecord → TaskRecord}
    (h : Steady popped mem) (hd : ∀ t ∈ mem.tasks, (f t).declared = t.declared)
    (hs : ∀ t ∈ mem.tasks, (f t).status = .running ↔ t.status = .running) :
    Steady popped (mem.withTasks f) where
  disciplined := h.disciplined.of_fewer hd fun t ht => (hs t ht).1
  nodup := h.nodup
  running id := by
    rw [show (mem.withTasks f).tasks = mem.tasks.map f from rfl, runningIds_map hd hs]
    exact h.running id
  locks lock := by
    have hlock : ∀ t ∈ mem.tasks, (f t).resourceLock = t.resourceLock := fun t ht =>
      TaskRecord.of_declared TaskRecord.resourceLock (hd t ht)
    refine (h.locks lock).trans ⟨?_, ?_⟩
    · rintro ⟨t, ht, hr, hl⟩
      exact ⟨f t, List.mem_map_of_mem ht, (hs t ht).2 hr, (hlock t ht).trans hl⟩
    · rintro ⟨t', ht', hr, hl⟩
      obtain ⟨t, ht, rfl⟩ := List.mem_map.1 ht'
      exact ⟨t, ht, (hs t ht).1 hr, (hlock t ht).symm.trans hl⟩

/-- A task that may still run waits for no task that ended without completing, those in `except`
apart. -/
def Unblocked (except : String → Prop) (tasks : List TaskRecord) : Prop :=
  ∀ t ∈ tasks, t.status ∈ schedulableStates → ∀ u ∈ tasks, u.taskId ∈ t.dependsOn →
    u.status.terminal → ¬ except u.taskId → u.status = .completed

/-- Every skipped task names a dependency that ended without completing. -/
def Explained (tasks : List TaskRecord) : Prop :=
  ∀ t ∈ tasks, t.status = .skipped → ∃ u ∈ tasks, u.taskId ∈ t.dependsOn ∧ u.status.terminal ∧
    u.status ≠ .completed ∧ t.reason = some s!"{PlanRunner.dependencyLabel u.status}:{u.taskId}"

/-- Changes by which no task is skipped. -/
theorem Explained.map {tasks : List TaskRecord} {f : TaskRecord → TaskRecord} (h : Explained tasks)
    (hd : ∀ t ∈ tasks, (f t).declared = t.declared)
    (hskip : ∀ t ∈ tasks, (f t).status = .skipped → t.status = .skipped ∧ (f t).reason = t.reason)
    (hterm : ∀ t ∈ tasks, t.status.terminal → (f t).status = t.status) :
    Explained (tasks.map f) := by
  intro t' ht' hst
  obtain ⟨t, ht, rfl⟩ := List.mem_map.1 ht'
  obtain ⟨hst, hreason⟩ := hskip t ht hst
  obtain ⟨u, hu, hmem, hut, huc, hname⟩ := h t ht hst
  have hsame := hterm u hu hut
  refine ⟨f u, List.mem_map_of_mem hu, ?_, by rwa [hsame], by rwa [hsame], ?_⟩
  · rwa [TaskRecord.of_declared TaskRecord.taskId (hd u hu),
      TaskRecord.of_declared TaskRecord.dependsOn (hd t ht)]
  · rw [hreason, hname, hsame, TaskRecord.of_declared TaskRecord.taskId (hd u hu)]

/-- What holds while the plan runs normally: a task that may still run waits for no task that ended
without completing, a waiting task waits for something, and a skipped one names what it waited
for. -/
structure Flowing (tasks : List TaskRecord) : Prop where
  unblocked : Unblocked (fun _ => False) tasks
  waiting : ∀ t ∈ tasks, t.status = .waitingDependency → ¬ DependenciesDone tasks t
  explained : Explained tasks

/-- Changes of no status. -/
theorem Flowing.map_same {tasks : List TaskRecord} {f : TaskRecord → TaskRecord} (h : Flowing tasks)
    (hf : ∀ t ∈ tasks, (f t).declared = t.declared ∧ (f t).status = t.status ∧
      (f t).reason = t.reason) : Flowing (tasks.map f) where
  explained := h.explained.map (fun t ht => (hf t ht).1)
    (fun t ht hst => ⟨(hf t ht).2.1 ▸ hst, (hf t ht).2.2⟩) fun t ht _ => (hf t ht).2.1
  unblocked t' ht' hst u' hu' hmem hterm hexcept := by
    obtain ⟨t, ht, rfl⟩ := List.mem_map.1 ht'
    obtain ⟨u, hu, rfl⟩ := List.mem_map.1 hu'
    rw [TaskRecord.of_declared TaskRecord.taskId (hf u hu).1,
      TaskRecord.of_declared TaskRecord.dependsOn (hf t ht).1] at hmem
    rw [(hf t ht).2.1] at hst
    rw [(hf u hu).2.1] at hterm ⊢
    exact h.unblocked t ht hst u hu hmem hterm hexcept
  waiting t' ht' hw hdone := by
    obtain ⟨t, ht, rfl⟩ := List.mem_map.1 ht'
    rw [(hf t ht).2.1] at hw
    refine h.waiting t ht hw fun u hu hmem => ?_
    rw [← (hf u hu).2.1]
    apply hdone (f u) (List.mem_map_of_mem hu)
    rwa [TaskRecord.of_declared TaskRecord.taskId (hf u hu).1,
      TaskRecord.of_declared TaskRecord.dependsOn (hf t ht).1]

/-- The parts of the memory that no end of a task changes. -/
structure SameCourse (mem mem' : PlanExecution) : Prop where
  plan : mem'.plan = mem.plan
  session : mem'.session = mem.session
  stopReason : mem'.stopReason = mem.stopReason
  interrupting : mem'.interrupting = mem.interrupting
  budgetExceeded : mem'.budgetExceeded = mem.budgetExceeded

theorem SameCourse.refl (mem : PlanExecution) : SameCourse mem mem := ⟨rfl, rfl, rfl, rfl, rfl⟩

theorem SameCourse.trans {mem₁ mem₂ mem₃ : PlanExecution} (h : SameCourse mem₁ mem₂)
    (h' : SameCourse mem₂ mem₃) : SameCourse mem₁ mem₃ :=
  ⟨h'.plan.trans h.plan, h'.session.trans h.session, h'.stopReason.trans h.stopReason,
    h'.interrupting.trans h.interrupting, h'.budgetExceeded.trans h.budgetExceeded⟩

/-! ## What follows from an end -/

section Rules

variable {r : PlanRunner} {plan : PlanRecord} {tasks : List TaskRecord} {w : World}
  {mem : PlanExecution}

/-- Where no task completes anew, what was not all complete still is not. -/
theorem not_dependenciesDone_map {tasks : List TaskRecord} {f : TaskRecord → TaskRecord}
    (hd : ∀ t ∈ tasks, (f t).declared = t.declared)
    (hc : ∀ t ∈ tasks, (f t).status = .completed → t.status = .completed) {t : TaskRecord}
    (ht : t ∈ tasks) (h : ¬ DependenciesDone tasks t) : ¬ DependenciesDone (tasks.map f) (f t) := by
  intro hdone
  apply h
  intro u hu hmem
  have hid : (f u).taskId = u.taskId := TaskRecord.of_declared TaskRecord.taskId (hd u hu)
  have hdeps : (f t).dependsOn = t.dependsOn := TaskRecord.of_declared TaskRecord.dependsOn (hd t ht)
  apply hc u hu
  apply hdone (f u) (List.mem_map_of_mem hu)
  rw [hid, hdeps]
  exact hmem

theorem wp_releaseDependants {Q} (ht : mem.Tracks plan tasks w.store) (hs : Steady none mem)
    (hu : Unblocked (fun _ => False) mem.tasks) (hex : Explained mem.tasks)
    (h : ∀ w' f, (mem.withTasks f).Tracks plan tasks w'.store → Steady none (mem.withTasks f) →
      openCount (mem.tasks.map f) ≤ openCount mem.tasks → Flowing (mem.tasks.map f) →
      Q (.ok ()) (w', mem.withTasks f)) :
    wp (planContract r plan tasks) PlanRunner.releaseDependants Q (w, mem) := by
  unfold PlanRunner.releaseDependants
  rw [wp_bind, wp_mem_get, after_ok]
  let changes : Changes := fun t =>
    if t.status = .waitingDependency ∧ mem.dependenciesCompleted t then some { target := .pending }
    else none
  have hsome {t : TaskRecord} {change : Change} (hc : changes t = some change) :
      t.status = .waitingDependency ∧ mem.dependenciesCompleted t ∧
        change = { target := .pending } := by
    by_cases hcond : t.status = .waitingDependency ∧ mem.dependenciesCompleted t
    · simp only [changes, if_pos hcond, Option.some.injEq] at hc
      exact ⟨hcond.1, hcond.2, hc.symm⟩
    · simp [changes, if_neg hcond] at hc
  have hkeep : changes.KeepDeclared mem.tasks := fun t _ change hc => by rw [(hsome hc).2.2]; rfl
  refine wp_applyChanges_fewer _ ht hs.disciplined hkeep (fun t _ change hc => ?_)
    (fun t _ change hc => by rw [(hsome hc).2.2]; decide) fun now w' ht' _ => ?_
  · rw [(hsome hc).1, (hsome hc).2.2]
    decide
  -- a waiting task stays as it is or becomes pending, and no other task changes
  have hcases (t : TaskRecord) : changes.applied now t = t ∧
        ¬ (t.status = .waitingDependency ∧ mem.dependenciesCompleted t) ∨
      t.status = .waitingDependency ∧ (changes.applied now t).status = .pending := by
    by_cases hcond : t.status = .waitingDependency ∧ mem.dependenciesCompleted t
    · exact .inr ⟨hcond.1, by simp [Changes.status_applied, changes, hcond]⟩
    · exact .inl ⟨Changes.applied_none (by simp [changes, hcond]), hcond⟩
  have hdecl := hkeep.applied now
  have hrun : ∀ t ∈ mem.tasks, (changes.applied now t).status = .running ↔ t.status = .running := by
    intro t _
    rcases hcases t with ⟨he, -⟩ | ⟨hw, hp⟩
    · rw [he]
    · rw [hw, hp]
      decide
  have hdone : ∀ t ∈ mem.tasks, (changes.applied now t).status = .completed →
      t.status = .completed := by
    intro t _ hc
    rcases hcases t with ⟨he, -⟩ | ⟨-, hp⟩
    · rwa [he] at hc
    · rw [hp] at hc
      cases hc
  have hexplained : Explained (mem.tasks.map (changes.applied now)) := by
    refine hex.map hdecl (fun t _ hst => ?_) fun t _ hterm => ?_
    · rcases hcases t with ⟨he, -⟩ | ⟨-, hp⟩
      · rw [he] at hst ⊢
        exact ⟨hst, rfl⟩
      · rw [hp] at hst
        cases hst
    · rcases hcases t with ⟨he, -⟩ | ⟨hw, -⟩
      · rw [he]
      · rw [hw] at hterm
        exact absurd hterm (by decide)
  refine h w' _ ht' (hs.map hdecl hrun) (openCount_map_le fun t _ hterm => ?_) ⟨?_, ?_, hexplained⟩
  · rcases hcases t with ⟨he, -⟩ | ⟨hw, -⟩
    · rwa [he]
    · rw [hw] at hterm
      exact absurd hterm (by decide)
  · intro t' ht' hsched u' hu' hmem hterm hexcept
    obtain ⟨t, htm, rfl⟩ := List.mem_map.1 ht'
    obtain ⟨u, hum, rfl⟩ := List.mem_map.1 hu'
    rw [TaskRecord.of_declared TaskRecord.taskId (hdecl u hum),
      TaskRecord.of_declared TaskRecord.dependsOn (hdecl t htm)] at hmem
    rcases hcases u with ⟨he, -⟩ | ⟨-, hp⟩
    · rw [he] at hterm ⊢
      refine hu t htm ?_ u hum hmem hterm id
      rcases hcases t with ⟨he', -⟩ | ⟨hw, -⟩
      · rwa [he'] at hsched
      · rw [hw]
        decide
    · rw [hp] at hterm
      exact absurd hterm (by decide)
  · intro t' ht' hwait
    obtain ⟨t, htm, rfl⟩ := List.mem_map.1 ht'
    apply not_dependenciesDone_map hdecl hdone htm
    rcases hcases t with ⟨he, hnot⟩ | ⟨-, hp⟩
    · rw [he] at hwait
      intro hall
      exact hnot ⟨hwait, (dependenciesCompleted_iff ht htm).2 hall⟩
    · rw [hp] at hwait
      cases hwait

theorem lookup_isSome_iff {β : Type} {found : List (String × β)} {x : String} :
    (found.lookup x).isSome ↔ x ∈ found.map Prod.fst := by
  induction found with
  | nil => simp
  | cons p found ih =>
    rw [List.lookup_cons, List.map_cons, List.mem_cons, ← ih]
    by_cases h : x = p.1
    · simp [h]
    · rw [show (x == p.1) = false by simpa using h]
      simp [h]

theorem wp_skipDependants {rootId : String} {rootState : TaskState} {Q}
    (ht : mem.Tracks plan tasks w.store) (hs : Steady none mem)
    (hu : Unblocked (fun id => id = rootId) mem.tasks) (hex : Explained mem.tasks)
    (hroot : ∃ t ∈ mem.tasks, t.taskId = rootId ∧ t.status = rootState ∧ t.status.terminal ∧
      t.status ≠ .completed)
    (hwait : ∀ t ∈ mem.tasks, t.status = .waitingDependency → ¬ DependenciesDone mem.tasks t)
    (h : ∀ w' f, (mem.withTasks f).Tracks plan tasks w'.store → Steady none (mem.withTasks f) →
      openCount (mem.tasks.map f) ≤ openCount mem.tasks → Flowing (mem.tasks.map f) →
      Q (.ok ()) (w', mem.withTasks f)) :
    wp (planContract r plan tasks) (PlanRunner.skipDependants rootId rootState) Q (w, mem) := by
  unfold PlanRunner.skipDependants
  rw [wp_bind, wp_mem_get, after_ok]
  let found := PlanRunner.skipped mem.tasks (mem.tasks.length + 1) [] [(rootId, rootState)]
  let changes : Changes := fun t =>
    (found.lookup t.taskId).map fun reason => { target := .skipped, reason := some reason }
  obtain ⟨hfound, hclosed⟩ :
      (∀ x ∈ found.map Prod.fst, ∃ t ∈ mem.tasks, t.taskId = x ∧ t.status ∈ schedulableStates) ∧
        ∀ x ∈ rootId :: found.map Prod.fst, PlanRunner.Closed mem.tasks found x :=
    PlanRunner.skipped_root
  have hnamed : ∀ entry ∈ found, PlanRunner.Named mem.tasks (rootId, rootState) found entry :=
    PlanRunner.skipped_named (fun _ h => absurd h List.not_mem_nil) fun p hp =>
      .inl (List.mem_singleton.1 hp)
  have hsched {t : TaskRecord} (htm : t ∈ mem.tasks) (hf : t.taskId ∈ found.map Prod.fst) :
      t.status ∈ schedulableStates := by
    obtain ⟨u, hum, hid, hst⟩ := hfound _ hf
    exact ht.inj hum htm hid ▸ hst
  have hcases (t : TaskRecord) : t.taskId ∉ found.map Prod.fst ∧ changes t = none ∨
      t.taskId ∈ found.map Prod.fst ∧ ∃ reason, changes t = some { target := .skipped, reason := some reason } := by
    cases hl : found.lookup t.taskId with
    | none =>
      refine .inl ⟨fun hf => ?_, by simp [changes, hl]⟩
      rw [← lookup_isSome_iff, hl] at hf
      cases hf
    | some reason =>
      exact .inr ⟨lookup_isSome_iff.1 (by simp [hl]), reason, by simp [changes, hl]⟩
  have hsome {t : TaskRecord} {change : Change} (hc : changes t = some change) :
      t.taskId ∈ found.map Prod.fst ∧ change.target = .skipped ∧ change.fields = id := by
    rcases hcases t with ⟨-, hn⟩ | ⟨hf, reason, he⟩
    · rw [hn] at hc
      cases hc
    · rw [he, Option.some.injEq] at hc
      exact ⟨hf, hc ▸ rfl, hc ▸ rfl⟩
  have hkeep : changes.KeepDeclared mem.tasks := fun t _ change hc => by rw [(hsome hc).2.2]; rfl
  have hdecl := hkeep.applied
  refine wp_applyChanges_fewer _ ht hs.disciplined hkeep (fun t htm change hc => ?_)
    (fun t _ change hc => by rw [(hsome hc).2.1]; decide) fun now w' ht' _ => ?_
  · rw [(hsome hc).2.1]
    have := hsched htm (hsome hc).1
    revert this
    cases t.status <;> decide
  have happly (t : TaskRecord) : t.taskId ∉ found.map Prod.fst ∧ changes.applied now t = t ∨
      t.taskId ∈ found.map Prod.fst ∧ (changes.applied now t).status = .skipped := by
    rcases hcases t with ⟨hf, hn⟩ | ⟨hf, reason, he⟩
    · exact .inl ⟨hf, Changes.applied_none hn⟩
    · exact .inr ⟨hf, by rw [Changes.status_applied, he]; rfl⟩
  have hrun : ∀ t ∈ mem.tasks, (changes.applied now t).status = .running ↔ t.status = .running := by
    intro t htm
    rcases happly t with ⟨-, he⟩ | ⟨hf, hp⟩
    · rw [he]
    · have := hsched htm hf
      rw [hp]
      revert this
      cases t.status <;> decide
  have hdone : ∀ t ∈ mem.tasks, (changes.applied now t).status = .completed →
      t.status = .completed := by
    intro t _ hc
    rcases happly t with ⟨-, he⟩ | ⟨-, hp⟩
    · rwa [he] at hc
    · rw [hp] at hc
      cases hc
  have hkept : ∀ t ∈ mem.tasks, t.status.terminal → changes.applied now t = t := by
    intro t htm hterm
    rcases happly t with ⟨-, he⟩ | ⟨hf, -⟩
    · exact he
    · have hopen := hsched htm hf
      have hnot : ¬ t.status.terminal := by
        revert hopen
        cases t.status <;> decide
      exact absurd hterm hnot
  have hexplained : Explained (mem.tasks.map (changes.applied now)) := by
    intro t' ht'' hst
    obtain ⟨t, htm, rfl⟩ := List.mem_map.1 ht''
    have hdeps : (changes.applied now t).dependsOn = t.dependsOn :=
      TaskRecord.of_declared TaskRecord.dependsOn (hdecl now t htm)
    rw [hdeps]
    cases hl : found.lookup t.taskId with
    | none =>
      -- it was skipped before
      have he : changes.applied now t = t := Changes.applied_none (by simp [changes, hl])
      rw [he] at hst ⊢
      obtain ⟨u, hum, hmem, hterm, hnot, hname⟩ := hex t htm hst
      refine ⟨u, ?_, hmem, hterm, hnot, hname⟩
      rw [← hkept u hum hterm]
      exact List.mem_map_of_mem hum
    | some reason =>
      have hreason : (changes.applied now t).reason = some reason := by
        have hc : changes t = some { target := .skipped, reason := some reason } := by
          simp [changes, hl]
        rw [Changes.applied_some hc]
        rfl
      have hentry : (t.taskId, reason) ∈ found := by
        obtain ⟨before, rest, hsplit, -⟩ := List.lookup_eq_some_iff.1 hl
        rw [hsplit]
        exact List.mem_append_right _ List.mem_cons_self
      obtain ⟨v, hvm, hid, d, hd, state, hname, hcause⟩ := hnamed _ hentry
      obtain rfl : v = t := ht.inj hvm htm hid
      have hname : reason = s!"{PlanRunner.dependencyLabel state}:{d}" := hname
      rw [hreason, hname]
      rcases hcause with hcause | ⟨hf, rfl⟩
      · obtain ⟨rfl, rfl⟩ := Prod.mk.inj hcause
        obtain ⟨u, hum, rfl, rfl, hterm, hnot⟩ := hroot
        refine ⟨u, ?_, hd, hterm, hnot, rfl⟩
        rw [← hkept u hum hterm]
        exact List.mem_map_of_mem hum
      · obtain ⟨u, hum, rfl⟩ := List.mem_map.1 (ht.graph.known v hvm d hd)
        have hskip := ((happly u).resolve_left fun h => h.1 hf).2
        have huid : (changes.applied now u).taskId = u.taskId :=
          TaskRecord.of_declared TaskRecord.taskId (hdecl now u hum)
        refine ⟨_, List.mem_map_of_mem hum, huid ▸ hd, ?_, ?_, ?_⟩
        · rw [hskip]
          decide
        · rw [hskip]
          decide
        · rw [hskip, huid]
  refine h w' _ ht' (hs.map (hdecl now) hrun) (openCount_map_le fun t _ hterm => ?_) ⟨?_, ?_,
    hexplained⟩
  · rcases happly t with ⟨-, he⟩ | ⟨-, hp⟩
    · rwa [he]
    · rw [hp]
      decide
  · intro t' ht' hst u' hu' hmem hterm hexcept
    obtain ⟨t, htm, rfl⟩ := List.mem_map.1 ht'
    obtain ⟨u, hum, rfl⟩ := List.mem_map.1 hu'
    rw [TaskRecord.of_declared TaskRecord.taskId (hdecl now u hum),
      TaskRecord.of_declared TaskRecord.dependsOn (hdecl now t htm)] at hmem
    rcases happly t with ⟨hnf, he⟩ | ⟨-, hp⟩
    · rw [he] at hst
      -- a task that is not skipped waits for no task that is
      have hnot {x : String} (hx : x ∈ rootId :: found.map Prod.fst) : x ∉ t.dependsOn :=
        fun hd => hnf (hclosed x hx t htm hst hd)
      rcases happly u with ⟨-, he'⟩ | ⟨hf, -⟩
      · rw [he'] at hterm ⊢
        apply hu t htm hst u hum hmem hterm
        intro hroot
        exact hnot (List.mem_cons.2 (.inl hroot)) hmem
      · exact absurd hmem (hnot (List.mem_cons_of_mem _ hf))
    · rw [hp] at hst
      exact absurd hst (by decide)
  · intro t' ht' hst
    obtain ⟨t, htm, rfl⟩ := List.mem_map.1 ht'
    apply not_dependenciesDone_map (hdecl now) hdone htm
    rcases happly t with ⟨-, he⟩ | ⟨-, hp⟩
    · rw [he] at hst
      exact hwait t htm hst
    · rw [hp] at hst
      cases hst

end Rules

end AgenticLocalApp
