import AgenticLocalApp.Execution.PlanOutcomes
import AgenticLocalApp.Protocol.PlanContent

/-!
# From an accepted plan to its run

The adapter and the runner check the same plan with different means: a depth-first search on one
side and a queue on the other, two comparisons of positions.  Whatever the adapter accepts, the
runner accepts, and no run of it is ever left without a task that can be launched.
-/

namespace AgenticLocalApp

open Prog PlanRunner

section Validated

variable {config : AdapterConfig} {plan : PlanContent}
  {knownPlanIds knownTaskIds storedOutputTaskIds warnings : List String}

theorem checkTaskIds_nodup {seen : List String} {tasks : List TaskMessage}
    (h : plan.checkTaskIds knownTaskIds seen tasks = .ok ()) :
    (tasks.map TaskMessage.taskId).Nodup ∧ ∀ t ∈ tasks, t.taskId ∉ seen ∧ t.taskId ∉ knownTaskIds := by
  induction tasks generalizing seen with
  | nil => exact ⟨List.nodup_nil, fun t ht => absurd ht List.not_mem_nil⟩
  | cons task rest ih =>
    unfold PlanContent.checkTaskIds at h
    by_cases hseen : task.taskId ∈ seen
    · rw [if_pos hseen] at h
      cases h
    · rw [if_neg hseen] at h
      by_cases hknown : task.taskId ∈ knownTaskIds
      · rw [if_pos hknown] at h
        cases h
      · rw [if_neg hknown] at h
        obtain ⟨hnodup, hrest⟩ := ih h
        refine ⟨List.nodup_cons.2 ⟨fun hmem => ?_, hnodup⟩, fun t ht => ?_⟩
        · obtain ⟨t, ht, he⟩ := List.mem_map.1 hmem
          exact (hrest t ht).1 (he ▸ List.mem_append_right _ List.mem_cons_self)
        · rcases List.mem_cons.1 ht with rfl | ht
          · exact ⟨hseen, hknown⟩
          · exact ⟨fun hs => (hrest t ht).1 (List.mem_append_left _ hs), (hrest t ht).2⟩

theorem checkReferences_known {task : TaskMessage}
    (h : plan.checkReferences storedOutputTaskIds task = .ok ()) :
    ∀ d ∈ task.dependsOn, d ≠ task.taskId ∧ d ∈ plan.order := by
  unfold PlanContent.checkReferences at h
  obtain ⟨_, hdeps, -⟩ := bind_eq_ok.1 h
  intro d hd
  have hd := forM_eq_ok_iff.1 hdeps d hd
  by_cases hself : d = task.taskId
  · rw [if_pos hself] at hd
    cases hd
  · rw [if_neg hself] at hd
    by_cases hknown : d ∉ plan.order
    · rw [if_pos hknown] at hd
      cases hd
    · exact ⟨hself, not_not.1 hknown⟩

/-- What the structural rules say of a plan that keeps them. -/
structure WellOrdered (plan : PlanContent) : Prop where
  nodup : plan.order.Nodup
  known : ∀ t ∈ plan.tasks, ∀ d ∈ t.dependsOn, d ≠ t.taskId ∧ d ∈ plan.order
  sourced : ∀ P : String → Prop, (∃ x ∈ plan.order, P x) →
    ∃ x ∈ plan.order, P x ∧ ∀ d ∈ plan.deps x, ¬ P d
  forward : plan.executionPolicy = .sequential → ∀ t ∈ plan.tasks, ∀ d ∈ t.dependsOn,
    plan.order.idxOf d ≤ plan.order.idxOf t.taskId

theorem PlanContent.deps_of_mem (hnodup : plan.order.Nodup) {t : TaskMessage} (ht : t ∈ plan.tasks) :
    plan.deps t.taskId = t.dependsOn := by
  unfold PlanContent.deps
  cases hf : plan.tasks.find? fun u => u.taskId = t.taskId with
  | none =>
    have := List.find?_eq_none.1 hf t ht
    simp at this
  | some u =>
    have hid : u.taskId = t.taskId := by simpa using List.find?_some hf
    rw [List.inj_on_of_nodup_map hnodup (List.mem_of_find?_eq_some hf) ht hid]
    rfl

theorem wellOrdered_of_validatePlan
    (h : validatePlan config plan knownPlanIds knownTaskIds storedOutputTaskIds = .ok warnings) :
    WellOrdered plan := by
  unfold validatePlan at h
  dsimp only at h
  have hid : plan.planId ∉ knownPlanIds := by
    intro hid
    rw [if_pos hid] at h
    cases h
  rw [if_neg hid] at h
  obtain ⟨_, hids, h⟩ := bind_eq_ok.1 h
  obtain ⟨_, hrefs, h⟩ := bind_eq_ok.1 h
  obtain ⟨_, hcycles, h⟩ := bind_eq_ok.1 h
  obtain ⟨_, hforward, -⟩ := bind_eq_ok.1 h
  have hnodup : plan.order.Nodup := (checkTaskIds_nodup hids).1
  have hknown : ∀ t ∈ plan.tasks, ∀ d ∈ t.dependsOn, d ≠ t.taskId ∧ d ∈ plan.order :=
    fun t ht => checkReferences_known (forM_eq_ok_iff.1 hrefs t ht)
  refine ⟨hnodup, hknown, fun P hP => ?_, fun hseq t ht d hd => ?_⟩
  · unfold PlanContent.checkCycles at hcycles
    cases hs : CycleSearch.search plan.order plan.deps with
    | error stop =>
      rw [hs] at hcycles
      cases stop <;> cases hcycles
    | ok color =>
      refine CycleSearch.exists_source (CycleSearch.search_spec hs) (fun x hx d hd => ?_) hP
      obtain ⟨t, ht, rfl⟩ := List.mem_map.1 hx
      rw [plan.deps_of_mem hnodup ht] at hd
      exact (hknown t ht d hd).2
  · unfold PlanContent.checkForward at hforward
    rw [if_pos hseq] at hforward
    have ht := forM_eq_ok_iff.1 hforward t ht
    have hd := forM_eq_ok_iff.1 ht d hd
    by_contra hlt
    rw [if_pos (not_le.1 hlt)] at hd
    cases hd

end Validated

/-! ## The records of an accepted plan -/

section Records

variable {config : AdapterConfig} {plan : PlanContent} {planType : PlanType}
  {sessionId conversationId cycleId : String} {now : Instant}

theorem mem_planToRecords {t : TaskRecord}
    (ht : t ∈ (planToRecords config plan planType sessionId conversationId cycleId now).2) :
    ∃ message ∈ plan.tasks, t.taskId = message.taskId ∧ t.dependsOn = message.dependsOn ∧
      t.planId = plan.planId ∧ t.status = .pending := by
  obtain ⟨⟨message, index⟩, hmem, rfl⟩ := List.mem_map.1 ht
  exact ⟨message, (List.mem_zipIdx' hmem).2 ▸ List.getElem_mem _, rfl, rfl, rfl, rfl⟩

theorem planToRecords_taskIds :
    (planToRecords config plan planType sessionId conversationId cycleId now).2.map
      TaskRecord.taskId = plan.order := by
  unfold planToRecords PlanContent.order
  rw [List.map_map]
  have hcomp : (TaskRecord.taskId ∘ fun t : TaskMessage × Nat => taskRecord config t.1 t.2
      (planRecord plan planType sessionId conversationId cycleId now) now
      plan.defaultContinueOnError) = TaskMessage.taskId ∘ Prod.fst := rfl
  rw [hcomp, ← List.map_map, List.zipIdx_map_fst]

/-- The records come in declaration order. -/
theorem planToRecords_sorted :
    (planToRecords config plan planType sessionId conversationId cycleId now).2.Pairwise
      fun a b => a.orderIndex ≤ b.orderIndex := by
  unfold planToRecords
  refine List.pairwise_map.2 ?_
  have hlt : (plan.tasks.zipIdx.map Prod.snd).Pairwise (· < ·) := by
    rw [List.zipIdx_map_snd]
    exact List.pairwise_lt_range'
  exact (List.pairwise_map.1 hlt).imp fun h => Int.ofNat_le.2 (Nat.le_of_lt h)

theorem create_planToRecords (session : SessionRecord) :
    (PlanExecution.create (planToRecords config plan planType sessionId conversationId cycleId now).1
      (planToRecords config plan planType sessionId conversationId cycleId now).2 session).tasks =
      (planToRecords config plan planType sessionId conversationId cycleId now).2 :=
  planToRecords_sorted.insertionSort_eq

/-! ## The checks of the runner -/

theorem validateDependencies_of_wellOrdered (h : WellOrdered plan) {mem : PlanExecution}
    (hplan : mem.plan = planRecord plan planType sessionId conversationId cycleId now)
    (htasks : mem.tasks = (planToRecords config plan planType sessionId conversationId cycleId now).2) :
    mem.validateDependencies = .ok () := by
  have horder : mem.order = plan.order := by
    unfold PlanExecution.order
    rw [htasks, planToRecords_taskIds]
  have hmem {t : TaskRecord} (ht : t ∈ mem.tasks) : ∃ message ∈ plan.tasks,
      t.taskId = message.taskId ∧ t.dependsOn = message.dependsOn := by
    obtain ⟨message, hm, hid, hdeps, -⟩ := mem_planToRecords (htasks ▸ ht)
    exact ⟨message, hm, hid, hdeps⟩
  unfold PlanExecution.validateDependencies
  refine bind_eq_ok.2 ⟨⟨⟩, forM_eq_ok_iff.2 fun t ht => forM_eq_ok_iff.2 fun d hd => ?_, ?_⟩
  · obtain ⟨message, hm, hid, hdeps⟩ := hmem ht
    rw [hdeps] at hd
    obtain ⟨hne, hin⟩ := h.known message hm d hd
    rw [if_neg (not_not.2 (horder ▸ hin))]
    refine if_neg fun hseq => ?_
    obtain ⟨hseq, hle⟩ := hseq
    rw [horder, hid] at hle
    have hpolicy : plan.executionPolicy = .sequential := by
      simpa [PlanRecord.sequential, hplan, planRecord] using hseq
    -- the two comparisons differ on equal positions only, and those are of one task
    have hsame := le_antisymm (h.forward hpolicy message hm d hd) hle
    exact hne ((List.idxOf_inj hin).1 hsame)
  · let rows := mem.tasks.map fun t => (t.taskId, t.dependsOn)
    have hkeys : rows.map Prod.fst = plan.order := by
      rw [← horder]
      simp only [rows, PlanExecution.order, List.map_map, Function.comp_def]
    have hrow {x : String} {rest : List String} (hx : (x, rest) ∈ rows) :
        rest = plan.deps x ∧ ∀ d ∈ rest, d ∈ plan.order := by
      obtain ⟨t, ht, he⟩ := List.mem_map.1 hx
      obtain ⟨message, hm, hid, hdeps⟩ := hmem ht
      obtain ⟨rfl, rfl⟩ := Prod.mk.inj he
      rw [hid, hdeps, plan.deps_of_mem h.nodup hm]
      exact ⟨rfl, fun d hd => (h.known message hm d hd).2⟩
    have hlength : (Kahn.order rows).1.length = rows.length := by
      refine Kahn.order_length (hkeys ▸ h.nodup) (fun x rest hx d hd => ?_) fun P hP => ?_
      · exact hkeys ▸ (hrow hx).2 d hd
      · rw [hkeys] at hP ⊢
        obtain ⟨x, hx, hPx, hfree⟩ := h.sourced P hP
        refine ⟨x, hx, hPx, fun rest hrest d hd => hfree d ?_⟩
        rwa [← (hrow hrest).1]
    refine if_neg (not_not.2 ?_)
    rw [hlength, List.length_map]

theorem validate_of_wellOrdered (h : WellOrdered plan) (session : SessionRecord) :
    (PlanExecution.create (planToRecords config plan planType sessionId conversationId cycleId now).1
      (planToRecords config plan planType sessionId conversationId cycleId now).2
      session).validate = .ok () := by
  have htasks : (PlanExecution.create
      (planToRecords config plan planType sessionId conversationId cycleId now).1
      (planToRecords config plan planType sessionId conversationId cycleId now).2 session).tasks =
      (planToRecords config plan planType sessionId conversationId cycleId now).2 :=
    create_planToRecords session
  unfold PlanExecution.validate
  refine bind_eq_ok.2 ⟨⟨⟩, assertTransition_eq_ok_iff.2 ?_, ?_⟩
  · exact (by decide : canTransition planTransitions .pending .running)
  rw [if_neg]
  · refine bind_eq_ok.2 ⟨⟨⟩, forM_eq_ok_iff.2 fun t ht => ?_, ?_⟩
    · obtain ⟨message, -, -, -, hid, hst⟩ := mem_planToRecords (htasks ▸ ht)
      refine (if_neg (not_not.2 hid)).trans ?_
      exact assertTransition_eq_ok_iff.2 (by rw [hst]; decide)
    · exact validateDependencies_of_wellOrdered h rfl htasks
  · refine not_not.2 ?_
    unfold PlanExecution.order
    rw [htasks, planToRecords_taskIds]
    exact h.nodup

end Records

/-! ## The runs of an accepted plan -/

/-- The codes of the errors by which a run gives up: nothing runs and nothing can be launched, or
the plan is over before its tasks are. -/
def schedulerErrorCodes : List String := ["PLAN_SCHEDULER_STALLED", "PLAN_TASKS_NOT_TERMINAL"]

/-- What is asked of the records of an accepted plan: the runner accepts them, and no run of them,
once they are stored, gives up. -/
structure Schedules (records : PlanRecord × List TaskRecord) : Prop where
  valid : ∀ session, (PlanExecution.create records.1 records.2 session).validate = .ok ()
  never_gives_up : ∀ (r : PlanRunner) (session : SessionRecord) (w : World),
    StoredAs records.1 records.2 w.store → ∀ c,
    Reaches (runRely records.1 records.2) (r.start records.1 records.2 session w) c →
    ∀ error, c.1 = .ret (.error (.app error)) → error.errorCode ∉ schedulerErrorCodes

/-- Every plan that the adapter accepts is one that the runner can schedule. -/
theorem accepted_plan_schedules {config : AdapterConfig} {plan : PlanContent}
    {knownPlanIds knownTaskIds storedOutputTaskIds warnings : List String}
    (h : validatePlan config plan knownPlanIds knownTaskIds storedOutputTaskIds = .ok warnings)
    (planType : PlanType) (sessionId conversationId cycleId : String) (now : Instant) :
    Schedules (planToRecords config plan planType sessionId conversationId cycleId now) where
  valid := validate_of_wellOrdered (wellOrdered_of_validatePlan h)
  never_gives_up r session w hstored c hr error he := by
    have hw := wp_reached ⟨validate_of_wellOrdered (wellOrdered_of_validatePlan h) session, hstored⟩
      hr
    rw [he] at hw
    -- the only exceptions of a run are those of the language, which have no code
    obtain ⟨⟨message, huncoded⟩ | ⟨message, huncoded⟩, -⟩ := hw
    · cases huncoded
    · cases huncoded

/-! ## A sample plan -/

/-- A command task in which only the named fields matter. -/
def TaskMessage.sample (taskId : String) (dependsOn : List String) (h : taskId ≠ "") :
    TaskMessage where
  taskId := taskId
  cmd := some "ls"
  dependsOn := dependsOn
  taskId_ne := h
  maxOutputBytes_pos _ hn := by cases hn
  timeoutMs_pos _ hn := by cases hn
  byteOffset_nonneg _ hn := by cases hn
  maxBytes_pos _ hn := by cases hn
  cmd_shape _ := ⟨⟨"ls", rfl, by decide⟩, rfl, rfl, rfl⟩
  chunk_shape hc := by cases hc

/-- Two tasks, the second of which waits for the first. -/
def PlanContent.chain : PlanContent where
  planId := "p"
  objective := "objective"
  executionPolicy := .parallel
  tasks := [.sample "a" [] (by decide), .sample "b" ["a"] (by decide)]
  planId_ne := by decide
  maxParallelWorkers_pos _ hn := by cases hn
  defaultMaxOutputBytes_pos _ hn := by cases hn
  tasks_ne := by decide

theorem validatePlan_chain :
    validatePlan .sample .chain [] [] [] = .ok ["DEFAULT_WORKERS_APPLIED"] := by
  have hsearch : ∃ color, CycleSearch.search ["a", "b"] PlanContent.chain.deps = .ok color := by
    simp [CycleSearch.search, CycleSearch.visit, PlanContent.deps, PlanContent.chain,
      TaskMessage.sample, Bind.bind, Except.bind, Function.update, pure, Except.pure]
  obtain ⟨color, hcolor⟩ := hsearch
  have hcycles : PlanContent.chain.checkCycles = .ok () := by
    unfold PlanContent.checkCycles
    rw [show PlanContent.chain.order = ["a", "b"] from rfl, hcolor]
  unfold validatePlan
  rw [hcycles]
  rfl

theorem chain_schedules :
    Schedules (planToRecords .sample .chain .discoveryPlan "session" "conversation" "cycle" 0) :=
  accepted_plan_schedules validatePlan_chain .discoveryPlan "session" "conversation" "cycle" 0

end AgenticLocalApp
