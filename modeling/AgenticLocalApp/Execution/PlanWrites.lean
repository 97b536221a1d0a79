import AgenticLocalApp.Execution.PlanState

/-!
# The writes of a plan run

The contract of a run, and one rule for each of its writes: the changes of tasks, the transition of
the plan, the process of a task, the record of a failure.
-/

namespace AgenticLocalApp

open Prog

/-! ## The contract of a plan run -/

/-- The records of the plan are as they were. -/
structure Undisturbed (plan : PlanRecord) (tasks : List TaskRecord) (σ σ' : Store) : Prop where
  tasks : ∀ t ∈ tasks, σ'.getTask t.sessionId t.taskId = σ.getTask t.sessionId t.taskId
  plan : σ'.getPlan plan.sessionId plan.planId = σ.getPlan plan.sessionId plan.planId

/-- What a run may count on: nobody else writes the records of the plan, and a wait ends when a
task has come back or the run is interrupted. -/
def planRely (plan : PlanRecord) (tasks : List TaskRecord) : Rely App := fun op w a w' =>
  op.Answers w.store a ∧
    match op, a with
    | .now, _ => w' = w
    | .monotonicMs, _ => w' = w
    | .newId _, _ => w' = w
    | .wait _, a => Undisturbed plan tasks w.store w'.store ∧ (a.done ≠ [] ∨ w'.token.isCancelled)
    | _, _ => Undisturbed plan tasks w.store w'.store

/-- The surroundings of a plan run: its memory is its own. -/
def runRely (plan : PlanRecord) (tasks : List TaskRecord) : Rely Run := fun op s a s' =>
  planRely plan tasks op s.1 a s'.1 ∧ s'.2 = s.2

/-- The content collected from the plan in memory, which is terminal, does not settle within the
rounds that the fitting is given. -/
def Endless (r : PlanRunner) (mem : PlanExecution) : Prop :=
  mem.plan.status.terminal ∧ (∀ t ∈ mem.tasks, t.status.terminal) ∧
    ∃ content, r.resultCollector.build mem.plan mem.tasks mem.outputs mem.chunks = .ok content ∧
      PayloadGuard.fitMessage r.payload.maxMessageBytes r.fitRounds content = none

/-- The contract of a plan run. -/
def planContract (r : PlanRunner) (plan : PlanRecord) (tasks : List TaskRecord) : Contract Run where
  rely := runRely plan tasks
  guar s s' := s'.2.Tracks plan tasks s'.1.store ∧ s.2.Step s'.2
  wait _ _ := True
  stuck s := s.2.Tracks plan tasks s.1.store ∧ Endless r s.2

section Rules

open PlanExecution

variable {r : PlanRunner} {plan : PlanRecord} {tasks : List TaskRecord} {w : World}
  {mem : PlanExecution}

theorem planContract_local : (planContract r plan tasks).Local := fun _ _ _ _ h => h.2

theorem planContract_quiet : Quiet ((planContract r plan tasks).at mem) where
  now _ _ _ h := h.1.2
  monotonicMs _ _ _ h := h.1.2
  newId _ _ _ _ h := ⟨h.1.2, h.1.1⟩
  wait_now _ := trivial
  wait_monotonicMs _ := trivial
  wait_newId _ _ := trivial

theorem wp_run_now {Q} (h : ∀ t, Q (.ok t) (w, mem)) :
    wp (planContract r plan tasks) (liftM now : Prog Run Instant) Q (w, mem) :=
  wp_lift planContract_local (wp_now planContract_quiet h)

theorem wp_run_monotonicMs {Q} (h : ∀ t, Q (.ok t) (w, mem)) :
    wp (planContract r plan tasks) (liftM monotonicMs : Prog Run Int) Q (w, mem) :=
  wp_lift planContract_local (wp_monotonicMs planContract_quiet h)

theorem wp_run_newId {kind : IdKind} {Q} (h : ∀ id, Q (.ok id) (w, mem)) :
    wp (planContract r plan tasks) (liftM (newId kind) : Prog Run String) Q (w, mem) :=
  wp_lift planContract_local (wp_newId planContract_quiet fun id _ => h id)

@[simp] theorem wp_mem_get {C : Contract Run} {Q} :
    wp C PlanExecution.get Q (w, mem) ↔ Q (.ok mem) (w, mem) := Iff.rfl

/-- A change of the memory alone. -/
theorem wp_mem_modify {f : PlanExecution → PlanExecution} {Q} (ht : mem.Tracks plan tasks w.store)
    (hd : Disciplined mem.plan mem.tasks) (htasks : (f mem).tasks = mem.tasks)
    (hplan : (f mem).plan = mem.plan) (hover : mem.Over → (f mem).Over)
    (h : Q (.ok ()) (w, f mem)) :
    wp (planContract r plan tasks) (PlanExecution.modify f) Q (w, mem) :=
  ⟨⟨ht.of_same htasks hplan rfl rfl, .of_same hd htasks hplan hover⟩, h⟩

/-- What the surroundings do while the run waits leaves the memory right. -/
theorem PlanExecution.Tracks.undisturbed {σ σ' : Store} (h : mem.Tracks plan tasks σ)
    (hu : Undisturbed plan tasks σ σ') : mem.Tracks plan tasks σ' where
  same := h.same
  planSame := h.planSame
  graph := h.graph
  stored t ht := by
    obtain ⟨u, hu', he⟩ := h.same.mem ht
    have hsid : u.sessionId = t.sessionId := TaskRecord.of_declared TaskRecord.sessionId he
    have hid : u.taskId = t.taskId := TaskRecord.of_declared TaskRecord.taskId he
    rw [← hsid, ← hid, hu.tasks u hu', hsid, hid]
    exact h.stored t ht
  planStored := by
    have hsid : mem.plan.sessionId = plan.sessionId :=
      PlanRecord.of_declared PlanRecord.sessionId h.planSame
    have hid : mem.plan.planId = plan.planId := PlanRecord.of_declared PlanRecord.planId h.planSame
    have hp := h.planStored
    rw [hsid, hid] at hp ⊢
    rw [hu.plan]
    exact hp

/-- The memory with every task replaced. -/
abbrev PlanExecution.withTasks (mem : PlanExecution) (f : TaskRecord → TaskRecord) : PlanExecution :=
  { mem with tasks := mem.tasks.map f }

/-- Saving the records that change keeps the memory right. -/
theorem PlanExecution.Tracks.withTasks {σ σ' : Store} (h : mem.Tracks plan tasks σ)
    {f : TaskRecord → TaskRecord} (hf : ∀ t ∈ mem.tasks, (f t).declared = t.declared)
    (htasks : ∀ t ∈ mem.tasks, σ'.getTask t.sessionId t.taskId = some (f t))
    (hplans : σ'.plans = σ.plans) : (mem.withTasks f).Tracks plan tasks σ' where
  same := (sameTasks_map hf).trans h.same
  planSame := h.planSame
  graph := h.graph.congr rfl (sameTasks_map hf)
  stored t' ht' := by
    obtain ⟨t, ht, rfl⟩ := List.mem_map.1 ht'
    have hsid : (f t).sessionId = t.sessionId := TaskRecord.of_declared TaskRecord.sessionId (hf t ht)
    have hid : (f t).taskId = t.taskId := TaskRecord.of_declared TaskRecord.taskId (hf t ht)
    rw [hsid, hid]
    exact htasks t ht
  planStored := by
    unfold Store.getPlan
    rw [hplans]
    exact h.planStored

/-! ## Changes -/

theorem Change.applied_declared {change : Change} {now : Instant} {t : TaskRecord}
    (h : (change.fields t).declared = t.declared) : (change.applied now t).declared = t.declared := h

theorem Changes.applied_some {changes : Changes} {now : Instant} {t : TaskRecord} {change : Change}
    (h : changes t = some change) : changes.applied now t = change.applied now t := by
  unfold Changes.applied
  rw [h]

theorem Changes.applied_none {changes : Changes} {now : Instant} {t : TaskRecord}
    (h : changes t = none) : changes.applied now t = t := by
  unfold Changes.applied
  rw [h]

/-- Every change keeps what is declared. -/
def Changes.KeepDeclared (changes : Changes) (tasks : List TaskRecord) : Prop :=
  ∀ t ∈ tasks, ∀ change, changes t = some change → (change.fields t).declared = t.declared

/-- Every change is one that the table allows. -/
def Changes.Allowed (changes : Changes) (tasks : List TaskRecord) : Prop :=
  ∀ t ∈ tasks, ∀ change, changes t = some change →
    canTransition taskTransitions t.status change.target

theorem Changes.KeepDeclared.applied {changes : Changes} {tasks : List TaskRecord}
    (h : changes.KeepDeclared tasks) (now : Instant) :
    ∀ t ∈ tasks, (changes.applied now t).declared = t.declared := by
  intro t ht
  cases hc : changes t with
  | none => rw [applied_none hc]
  | some change =>
    rw [applied_some hc]
    exact Change.applied_declared (h t ht change hc)

theorem Changes.check_ok {changes : Changes} {tasks : List TaskRecord}
    (h : changes.Allowed tasks) : changes.check tasks = .ok () := by
  unfold Changes.check
  rw [List.forM_eq_forM, forM_eq_ok_iff]
  intro t ht
  split
  · rename_i change hc
    exact assertTransition_eq_ok_iff.2 (h t ht change hc)
  · rfl

/-- What is stored under a task of the memory once the records that change are saved. -/
theorem getTask_saveTasks_records {σ : Store} {changes : Changes} {now : Instant}
    (h : mem.Tracks plan tasks σ) (hk : changes.KeepDeclared mem.tasks) {t : TaskRecord}
    (ht : t ∈ mem.tasks) :
    (σ.saveTasks (changes.records now mem.tasks)).getTask t.sessionId t.taskId =
      some (changes.applied now t) := by
  have key_applied (u : TaskRecord) (hu : u ∈ mem.tasks) :
      Keyed.key (changes.applied now u) = (u.sessionId, u.taskId) := by
    have hd := hk.applied now u hu
    rw [key_task, TaskRecord.of_declared TaskRecord.sessionId hd,
      TaskRecord.of_declared TaskRecord.taskId hd]
  have mem_records {u' : TaskRecord} (hu' : u' ∈ changes.records now mem.tasks) :
      ∃ u ∈ mem.tasks, changes u ≠ none ∧ u' = changes.applied now u := by
    obtain ⟨u, hu, he⟩ := List.mem_filterMap.1 hu'
    obtain ⟨change, hc, rfl⟩ := Option.map_eq_some_iff.1 he
    exact ⟨u, hu, by simp [hc], (Changes.applied_some hc).symm⟩
  have hnodup : ((changes.records now mem.tasks).map Keyed.key).Nodup := by
    have hids : ((changes.records now mem.tasks).map TaskRecord.taskId).Nodup := by
      have : (changes.records now mem.tasks).map TaskRecord.taskId =
          (mem.tasks.filter fun u => (changes u).isSome).map TaskRecord.taskId := by
        unfold Changes.records
        have hd : ∀ u ∈ mem.tasks, ∀ change, changes u = some change →
            (change.applied now u).taskId = u.taskId := fun u hu change hc =>
          TaskRecord.of_declared TaskRecord.taskId (Change.applied_declared (hk u hu change hc))
        generalize mem.tasks = us at hd
        induction us with
        | nil => rfl
        | cons u us ih =>
          have ih := ih fun v hv => hd v (List.mem_cons_of_mem _ hv)
          rw [List.filterMap_cons, List.filter_cons]
          cases hc : changes u with
          | none => simpa using ih
          | some change => simpa [hd u List.mem_cons_self change hc] using ih
      rw [this]
      exact h.graph.nodup.sublist ((List.filter_sublist).map _)
    exact List.Nodup.of_map Prod.snd (by simpa [Function.comp_def] using hids)
  unfold Store.getTask Store.saveTasks
  cases hc : changes t with
  | some change =>
    rw [← key_applied t ht]
    refine Table.find_saveAll_of_mem hnodup ?_
    rw [Changes.applied_some hc]
    exact List.mem_filterMap.2 ⟨t, ht, by rw [hc]; rfl⟩
  | none =>
    rw [Changes.applied_none hc]
    refine (Table.find_saveAll_of_notMem fun hmem => ?_).trans (h.stored t ht)
    obtain ⟨u', hu', he⟩ := List.mem_map.1 hmem
    obtain ⟨u, hu, hne, rfl⟩ := mem_records hu'
    rw [key_applied u hu, Prod.mk.injEq] at he
    exact hne (h.inj hu ht he.2 ▸ hc)

/-- Write changes that the table allows. -/
theorem wp_applyChanges (changes : Changes) {blobs : List BlobRecord} {Q}
    (ht : mem.Tracks plan tasks w.store) (hk : changes.KeepDeclared mem.tasks)
    (ha : changes.Allowed mem.tasks)
    (hl : ∀ t ∈ mem.tasks, ∀ change, changes t = some change → change.target = .running →
      mem.MayLaunch t)
    (hd : ∀ now, Disciplined mem.plan (mem.tasks.map (changes.applied now)))
    (h : ∀ now w', (mem.withTasks (changes.applied now)).Tracks plan tasks w'.store →
      Q (.ok ()) (w', mem.withTasks (changes.applied now))) :
    wp (planContract r plan tasks) (applyChanges changes blobs) Q (w, mem) := by
  unfold applyChanges
  rw [wp_bind]
  refine wp_run_now fun now => ?_
  rw [after_ok, wp_bind, wp_mem_get, after_ok, wp_bind, wp_ofExcept, Changes.check_ok ha, after_ok,
    wp_update]
  have htracks : (mem.withTasks (changes.applied now)).Tracks plan tasks
      ((w.store.saveBlobs blobs).saveTasks (changes.records now mem.tasks)) := by
    have hblobs : mem.Tracks plan tasks (w.store.saveBlobs blobs) := ht.of_same rfl rfl rfl rfl
    exact ht.withTasks (hk.applied now) (fun t hmem => getTask_saveTasks_records hblobs hk hmem) rfl
  refine ⟨⟨htracks, ⟨_, rfl, fun t hmem => ?_⟩, rfl, .inl rfl, hd now, id⟩, h now _ htracks⟩
  refine ⟨hk.applied now t hmem, ?_, ?_⟩
  · cases hc : changes t with
    | none => exact .inl (by rw [Changes.applied_none hc])
    | some change =>
      rw [Changes.applied_some hc]
      exact .inr (ha t hmem change hc)
  · cases hc : changes t with
    | none =>
      rw [Changes.applied_none hc]
      exact fun hn hr => absurd hr hn
    | some change =>
      rw [Changes.applied_some hc]
      exact fun _ hr => hl t hmem change hc hr

/-- Write changes by which no task starts to run. -/
theorem wp_applyChanges_fewer (changes : Changes) {blobs : List BlobRecord} {Q}
    (ht : mem.Tracks plan tasks w.store) (hd : Disciplined mem.plan mem.tasks)
    (hk : changes.KeepDeclared mem.tasks) (ha : changes.Allowed mem.tasks)
    (hn : ∀ t ∈ mem.tasks, ∀ change, changes t = some change → change.target ≠ .running)
    (h : ∀ now w', (mem.withTasks (changes.applied now)).Tracks plan tasks w'.store →
      Disciplined mem.plan (mem.tasks.map (changes.applied now)) →
      Q (.ok ()) (w', mem.withTasks (changes.applied now))) :
    wp (planContract r plan tasks) (applyChanges changes blobs) Q (w, mem) := by
  have hd' (now : Instant) : Disciplined mem.plan (mem.tasks.map (changes.applied now)) := by
    refine hd.of_fewer (hk.applied now) fun t hmem hr => ?_
    cases hc : changes t with
    | none => rwa [Changes.applied_none hc] at hr
    | some change =>
      rw [Changes.applied_some hc] at hr
      exact absurd hr (hn t hmem change hc)
  exact wp_applyChanges changes ht hk ha (fun t hmem change hc hr => absurd hr (hn t hmem change hc)) hd'
    fun now w' h' => h now w' h' (hd' now)

/-! ## Plans, processes, failures -/

theorem PlanRecord.declared_moveTo (p : PlanRecord) (ts : List TaskRecord) (target : PlanState)
    (stopReason : Option String) (now : Instant) :
    (p.moveTo ts target stopReason now).declared = p.declared := by
  unfold PlanRecord.moveTo
  dsimp only
  split
  · rfl
  · split <;> rfl

@[simp] theorem PlanRecord.status_moveTo (p : PlanRecord) (ts : List TaskRecord)
    (target : PlanState) (stopReason : Option String) (now : Instant) :
    (p.moveTo ts target stopReason now).status = target := by
  unfold PlanRecord.moveTo
  dsimp only
  split
  · rfl
  · split <;> rfl

/-- A transition counts the tasks of the plan. -/
theorem PlanRecord.withCounters_moveTo (p : PlanRecord) (ts : List TaskRecord) (target : PlanState)
    (stopReason : Option String) (now : Instant) :
    (p.moveTo ts target stopReason now).withCounters (ts.map TaskRecord.status) =
      p.moveTo ts target stopReason now := by
  unfold PlanRecord.moveTo
  dsimp only
  split
  · rfl
  · split <;> rfl

theorem wp_transitionPlan {target : PlanState} {stopReason : Option String} {Q}
    (ht : mem.Tracks plan tasks w.store) (hd : Disciplined mem.plan mem.tasks)
    (ha : canTransition planTransitions mem.plan.status target)
    (h : ∀ now w',
      ({ mem with plan := mem.plan.moveTo mem.tasks target stopReason now } :
        PlanExecution).Tracks plan tasks w'.store →
      Q (.ok ()) (w', { mem with plan := mem.plan.moveTo mem.tasks target stopReason now })) :
    wp (planContract r plan tasks) (transitionPlan target stopReason) Q (w, mem) := by
  unfold transitionPlan
  rw [wp_bind, wp_mem_get, after_ok, wp_bind, wp_ofExcept, assertTransition_eq_ok_iff.2 ha, after_ok,
    wp_bind]
  refine wp_run_now fun now => ?_
  rw [after_ok, wp_update]
  let moved := mem.plan.moveTo mem.tasks target stopReason now
  have hmoved : moved.declared = mem.plan.declared := PlanRecord.declared_moveTo _ _ _ _ _
  have hsid : moved.sessionId = mem.plan.sessionId :=
    PlanRecord.of_declared PlanRecord.sessionId hmoved
  have hid : moved.planId = mem.plan.planId := PlanRecord.of_declared PlanRecord.planId hmoved
  have htracks : ({ mem with plan := moved } : PlanExecution).Tracks plan tasks
      (w.store.savePlan moved) := by
    refine ⟨ht.same, hmoved.trans ht.planSame, ht.graph.congr hmoved rfl, ht.stored, ?_⟩
    exact Table.find_save_self w.store.plans moved
  refine ⟨⟨htracks, ?_⟩, h now _ htracks⟩
  have hworkers : moved.workers = mem.plan.workers :=
    PlanRecord.of_declared PlanRecord.workers hmoved
  refine ⟨⟨id, (List.map_id _).symm, fun _ _ => ⟨rfl, .inl rfl, fun hn hr => absurd hr hn⟩⟩, hmoved,
    .inr ?_, ⟨hworkers.symm ▸ hd.slots, hd.locks⟩, id⟩
  rwa [show moved.status = target from PlanRecord.status_moveTo _ _ _ _ _]

/-- The process of a task is written down: nothing else about it changes. -/
theorem wp_persistPid {spawned : Spawned} {Q} (ht : mem.Tracks plan tasks w.store)
    (hd : Disciplined mem.plan mem.tasks) (hmem : ∃ t ∈ mem.tasks, t.taskId = spawned.taskId)
    (h : ∀ w' f, w'.token = w.token →
      (∀ t ∈ mem.tasks, (f t).declared = t.declared ∧ (f t).status = t.status ∧
        (f t).reason = t.reason) →
      (mem.withTasks f).Tracks plan tasks w'.store → Disciplined mem.plan (mem.tasks.map f) →
      Q (.ok ()) (w', mem.withTasks f)) :
    wp (planContract r plan tasks) (persistPid spawned) Q (w, mem) := by
  obtain ⟨t, htm, hid⟩ := hmem
  unfold persistPid
  rw [wp_bind, wp_mem_get, after_ok, ht.task?_eq_some.2 ⟨htm, hid⟩]
  simp only [wp_bind]
  refine wp_run_now fun now => ?_
  rw [after_ok, wp_update]
  let record : TaskRecord :=
    { t with pid := some spawned.pid, processGroupId := spawned.processGroupId, updatedAt := now }
  let f (u : TaskRecord) : TaskRecord := if u.taskId = spawned.taskId then record else u
  have hf : ∀ u ∈ mem.tasks, (f u).declared = u.declared ∧ (f u).status = u.status ∧
      (f u).reason = u.reason := by
    intro u hu
    by_cases he : u.taskId = spawned.taskId
    · rw [show f u = record from if_pos he, ← ht.inj htm hu (hid.trans he.symm)]
      exact ⟨rfl, rfl, rfl⟩
    · rw [show f u = u from if_neg he]
      exact ⟨rfl, rfl, rfl⟩
  have htracks : (mem.withTasks f).Tracks plan tasks (w.store.saveTask record) := by
    refine ht.withTasks (fun u hu => (hf u hu).1) (fun u hu => ?_) rfl
    by_cases he : u.taskId = spawned.taskId
    · rw [show f u = record from if_pos he, ← ht.inj htm hu (hid.trans he.symm)]
      exact Table.find_save_self w.store.tasks record
    · rw [show f u = u from if_neg he]
      refine (Table.find_save_of_ne fun hkey => he ?_).trans (ht.stored u hu)
      exact (Prod.mk.inj hkey).2.symm.trans hid
  have hd' : Disciplined mem.plan (mem.tasks.map f) :=
    hd.of_fewer (fun u hu => (hf u hu).1) fun u hu hr => (hf u hu).2.1 ▸ hr
  refine ⟨⟨htracks, ⟨f, rfl, fun u hu => ⟨(hf u hu).1, .inl (hf u hu).2.1, fun hn hr =>
    absurd ((hf u hu).2.1 ▸ hr) hn⟩⟩, rfl, .inl rfl, hd', id⟩, h _ f rfl hf htracks hd'⟩

theorem wp_recordTaskFailure {task : TaskRecord} {failure : Option NormalizedError} {Q}
    (ht : mem.Tracks plan tasks w.store) (hd : Disciplined mem.plan mem.tasks)
    (h : ∀ w', mem.Tracks plan tasks w'.store → Q (.ok ()) (w', mem)) :
    wp (planContract r plan tasks) (r.recordTaskFailure task failure) Q (w, mem) := by
  unfold PlanRunner.recordTaskFailure
  cases failure with
  | none => exact h w ht
  | some error =>
    simp only [wp_ite, wp_bind]
    refine ⟨fun _ => ?_, fun _ => h w ht⟩
    refine wp_lift (p := recordFailure error _) planContract_local ?_
    unfold recordFailure
    rw [wp_bind]
    refine wp_now planContract_quiet fun now => ?_
    rw [after_ok, wp_bind]
    refine wp_newId planContract_quiet fun id _ => ?_
    simp only [after_ok, wp_bind, wp_writeStore]
    refine ⟨⟨?_, .of_same hd rfl rfl fun ho => ho⟩, h _ ?_⟩ <;> exact ht.of_same rfl rfl rfl rfl

end Rules

end AgenticLocalApp
