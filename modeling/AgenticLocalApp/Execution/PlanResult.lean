import AgenticLocalApp.Execution.PlanRunner

/-!
# What a result accounts for

The result of a terminal plan names every task of the plan exactly once, in declaration order inside
each of its lists, and the fitting of the message cuts texts only.
-/

namespace AgenticLocalApp

namespace ExecutionResultContent

/-- The tasks that a content names, list by list. -/
def taskIds (content : ExecutionResultContent) : List String :=
  content.results.map TaskResult.taskId ++ content.skippedTasks.map TaskRef.taskId ++
    content.cancelledTasks.map TaskRef.taskId ++ content.interruptedTasks.map TaskRef.taskId

/-- Every task is named exactly once, in declaration order inside each list. -/
structure AccountsFor (content : ExecutionResultContent) (ids : List String) : Prop where
  once : content.taskIds.Perm ids
  results : (content.results.map TaskResult.taskId).Sublist ids
  skippedTasks : (content.skippedTasks.map TaskRef.taskId).Sublist ids
  cancelledTasks : (content.cancelledTasks.map TaskRef.taskId).Sublist ids
  interruptedTasks : (content.interruptedTasks.map TaskRef.taskId).Sublist ids

end ExecutionResultContent

/-! ## The fitting of a message -/

namespace PayloadGuard

open ExecutionResultContent

theorem taskId_halve (r : TaskResult) (stream : OutputStream) : (halve r stream).taskId = r.taskId := by
  cases stream <;> rfl

theorem taskIds_modify_halve (results : List TaskResult) (i : Nat) (stream : OutputStream) :
    (results.modify i fun r => halve r stream).map TaskResult.taskId =
      results.map TaskResult.taskId := by
  refine List.ext_getElem (by simp) fun j h₁ h₂ => ?_
  simp only [List.getElem_map, List.getElem_modify]
  split
  · exact taskId_halve _ _
  · rfl

theorem taskIds_shrink {results results' : List TaskResult} (h : shrink results = some results') :
    results'.map TaskResult.taskId = results.map TaskResult.taskId := by
  unfold shrink at h
  split at h
  · obtain rfl := Option.some.inj h
    exact taskIds_modify_halve _ _ _
  · split at h
    · obtain rfl := Option.some.inj h
      exact taskIds_modify_halve _ _ _
    · cases h

theorem accountsFor_fitMessage {maxMessageBytes rounds : Nat} {content fitted : ExecutionResultContent}
    {ids : List String} (hfit : fitMessage maxMessageBytes rounds content = some fitted)
    (h : content.AccountsFor ids) : fitted.AccountsFor ids := by
  induction rounds generalizing content with
  | zero => cases hfit
  | succ rounds ih =>
    unfold fitMessage at hfit
    split at hfit
    · exact Option.some.inj hfit ▸ h
    · split at hfit
      · exact Option.some.inj hfit ▸ h
      · rename_i results hshrink
        have hids := taskIds_shrink hshrink
        refine ih hfit ⟨?_, by rw [hids]; exact h.results, h.skippedTasks, h.cancelledTasks,
          h.interruptedTasks⟩
        simp only [taskIds, hids]
        exact h.once

/-- A content that is too big and that halving leaves as it is is fitted for ever. -/
theorem fitMessage_eq_none_of_fixed {maxMessageBytes rounds : Nat}
    {content : ExecutionResultContent} (hsize : maxMessageBytes < messageSize content)
    (hfixed : shrink content.results = some content.results) :
    fitMessage maxMessageBytes rounds content = none := by
  induction rounds with
  | zero => rfl
  | succ rounds ih =>
    unfold fitMessage
    rw [if_neg (not_le.2 hsize), hfixed]
    exact ih

/-- The content of a task that wrote one byte that is not UTF-8, once it was halved. -/
def replacementContent : ExecutionResultContent where
  planId := "p"
  status := "completed"
  stopReason := none
  results := [
    { taskId := "t", status := "completed", exitCode := some 0, stdout := .ofList [replacementChar]
      truncated := true, stdoutTotal := some 1, stdoutRange := some (0, 1) }]

/-- Half of a replacement character is a replacement character again. -/
theorem replacement_never_fitted (rounds : Nat) : fitMessage 64 rounds replacementContent = none :=
  fitMessage_eq_none_of_fixed (by decide +kernel) (by decide +kernel)

end PayloadGuard

/-! ## The collector -/

namespace ResultCollector

open ExecutionResultContent

variable {rc : ResultCollector} {plan : PlanRecord} {outputs : Outputs TruncatedOutput}
  {chunks : Outputs ChunkResult}

/-- The task is to be reported, and the dialect dictionary raises an exception over its command. -/
structure Unreadable (rc : ResultCollector) (task : TaskRecord) : Prop where
  reported : task.status ∈ resultStates
  command : task.type = .cmd
  raises : ∃ message, rc.translator.translate task.cmd = .error message

theorem taskId_cmdResult (task : TaskRecord) (output : Option TruncatedOutput)
    (translation : Option TaskTranslation) :
    (rc.cmdResult task output translation).taskId = task.taskId := by
  unfold cmdResult
  cases output <;> rfl

theorem taskResult_cases (task : TaskRecord) (output : Option TruncatedOutput)
    (chunk : Option ChunkResult) :
    (∃ result, rc.taskResult task output chunk = .ok result ∧ result.taskId = task.taskId) ∨
      ∃ message, rc.taskResult task output chunk = .error (.valueError message) ∧
        task.type = .cmd ∧ rc.translator.translate task.cmd = .error message := by
  unfold taskResult
  cases htype : task.type with
  | chunkRequest => exact .inl ⟨_, rfl, rfl⟩
  | cmd =>
    unfold translation
    cases htranslate : rc.translator.translate task.cmd with
    | ok decided => exact .inl ⟨_, rfl, taskId_cmdResult ..⟩
    | error message => exact .inr ⟨message, rfl, rfl, rfl⟩

/-- The tasks in one of the states, by name. -/
def idsIn (states : List TaskState) (tasks : List TaskRecord) : List String :=
  (tasks.filter fun t => t.status ∈ states).map TaskRecord.taskId

theorem idsIn_sublist (states : List TaskState) (tasks : List TaskRecord) :
    (idsIn states tasks).Sublist (tasks.map TaskRecord.taskId) := (List.filter_sublist).map _

theorem idsIn_cons (states : List TaskState) (task : TaskRecord) (tasks : List TaskRecord) :
    idsIn states (task :: tasks) =
      if task.status ∈ states then task.taskId :: idsIn states tasks else idsIn states tasks := by
  unfold idsIn
  rw [List.filter_cons]
  by_cases h : task.status ∈ states <;> simp [h]

/-- Every terminal task is in one list and in one only. -/
theorem idsIn_perm {tasks : List TaskRecord} (h : ∀ t ∈ tasks, t.status.terminal) :
    (idsIn resultStates tasks ++ idsIn [.skipped] tasks ++ idsIn [.cancelled] tasks ++
      idsIn [.interrupted] tasks).Perm (tasks.map TaskRecord.taskId) := by
  induction tasks with
  | nil => exact .refl _
  | cons t tasks ih =>
    have ih := ih fun t ht => h t (List.mem_cons_of_mem _ ht)
    have ht := h t List.mem_cons_self
    have insert (before : List String) {after : List String}
        (hp : (before ++ after).Perm (tasks.map TaskRecord.taskId)) :
        (before ++ t.taskId :: after).Perm (t.taskId :: tasks.map TaskRecord.taskId) :=
      List.perm_middle.trans (hp.cons _)
    simp only [idsIn_cons, List.map_cons]
    cases hs : t.status <;> rw [hs] at ht <;> first | exact absurd ht (by decide) | skip
    case completed | failed | timedOut => exact ih.cons _
    case skipped =>
      have := insert (idsIn resultStates tasks)
        (by simpa only [List.append_assoc] using ih)
      simpa [resultStates, List.append_assoc] using this
    case cancelled =>
      have := insert (idsIn resultStates tasks ++ idsIn [.skipped] tasks)
        (by simpa only [List.append_assoc] using ih)
      simpa [resultStates, List.append_assoc] using this
    case interrupted =>
      have := insert (idsIn resultStates tasks ++ idsIn [.skipped] tasks ++
        idsIn [.cancelled] tasks) ih
      simpa [resultStates, List.append_assoc] using this

/-- A content that lists the tasks one by one. -/
structure Lists (content : ExecutionResultContent) (tasks : List TaskRecord) : Prop where
  results : content.results.map TaskResult.taskId = idsIn resultStates tasks
  skippedTasks : content.skippedTasks.map TaskRef.taskId = idsIn [.skipped] tasks
  cancelledTasks : content.cancelledTasks.map TaskRef.taskId = idsIn [.cancelled] tasks
  interruptedTasks : content.interruptedTasks.map TaskRef.taskId = idsIn [.interrupted] tasks

theorem Lists.accountsFor {content : ExecutionResultContent} {tasks : List TaskRecord}
    (h : Lists content tasks) (hterm : ∀ t ∈ tasks, t.status.terminal) :
    content.AccountsFor (tasks.map TaskRecord.taskId) where
  once := by
    unfold taskIds
    rw [h.results, h.skippedTasks, h.cancelledTasks, h.interruptedTasks]
    exact idsIn_perm hterm
  results := h.results ▸ idsIn_sublist _ _
  skippedTasks := h.skippedTasks ▸ idsIn_sublist _ _
  cancelledTasks := h.cancelledTasks ▸ idsIn_sublist _ _
  interruptedTasks := h.interruptedTasks ▸ idsIn_sublist _ _

theorem idsIn_append_singleton (states : List TaskState) (tasks : List TaskRecord)
    (task : TaskRecord) : idsIn states (tasks ++ [task]) =
      idsIn states tasks ++ if task.status ∈ states then [task.taskId] else [] := by
  unfold idsIn
  rw [List.filter_append, List.map_append, List.filter_cons, List.filter_nil]
  by_cases h : task.status ∈ states <;> simp [h]

variable (rc outputs chunks) in
/-- A task that ended is listed, unless its command cannot be looked up. -/
theorem addTask_cases {content : ExecutionResultContent} {tasks : List TaskRecord}
    {task : TaskRecord} (h : Lists content tasks) (hplan : task.planId = plan.planId)
    (hterm : task.status.terminal) :
    (∃ content', rc.addTask plan outputs chunks content task = .ok content' ∧
      Lists content' (tasks ++ [task])) ∨
    rc.Unreadable task ∧
      ∃ message, rc.addTask plan outputs chunks content task = .error (.valueError message) := by
  unfold addTask
  rw [if_neg (not_not.2 hplan)]
  obtain ⟨hr, hs, hc, hi⟩ := h
  by_cases hreport : task.status ∈ resultStates
  · rw [if_pos hreport]
    obtain ⟨result, hok, hid⟩ | ⟨message, herror, htype, hraises⟩ :=
      @taskResult_cases rc task (outputs task.taskId) (chunks task.taskId)
    · rw [hok]
      refine .inl ⟨_, rfl, ?_, ?_, ?_, ?_⟩
      · simp [idsIn_append_singleton, hreport, hr, hid]
      all_goals
        have hst := hreport
        simp only [resultStates, List.mem_cons, List.not_mem_nil, or_false] at hst
        obtain hst | hst | hst := hst <;> simp [idsIn_append_singleton, hst, hs, hc, hi]
    · rw [herror]
      exact .inr ⟨⟨hreport, htype, message, hraises⟩, message, rfl⟩
  · rw [if_neg hreport]
    left
    revert hreport
    cases hst : task.status <;> rw [hst] at hterm <;> first | exact absurd hterm (by decide) | skip
    all_goals first
      | exact fun hreport => absurd (by decide) hreport
      | exact fun _ => ⟨_, rfl, by simp [idsIn_append_singleton, hst, hr, resultStates],
          by simp [idsIn_append_singleton, hst, hs, taskRef],
          by simp [idsIn_append_singleton, hst, hc, taskRef],
          by simp [idsIn_append_singleton, hst, hi, taskRef]⟩

variable (rc outputs chunks) in
theorem foldlM_addTask_cases {content : ExecutionResultContent} {before tasks : List TaskRecord}
    (h : Lists content before) (hplan : ∀ t ∈ tasks, t.planId = plan.planId)
    (hterm : ∀ t ∈ tasks, t.status.terminal) :
    (∃ content', tasks.foldlM (rc.addTask plan outputs chunks) content = .ok content' ∧
      Lists content' (before ++ tasks)) ∨
    (∃ t ∈ tasks, rc.Unreadable t) ∧ ∃ message,
      tasks.foldlM (rc.addTask plan outputs chunks) content = .error (.valueError message) := by
  induction tasks generalizing content before with
  | nil => exact .inl ⟨content, rfl, by rwa [List.append_nil]⟩
  | cons t tasks ih =>
    rw [List.foldlM_cons]
    obtain ⟨content₁, hadd, h₁⟩ | ⟨hunreadable, message, herror⟩ := addTask_cases rc outputs chunks h
      (hplan t List.mem_cons_self) (hterm t List.mem_cons_self)
    · rw [hadd]
      obtain ⟨content₂, hfold, h₂⟩ | ⟨⟨u, hu, hunreadable⟩, hfold⟩ := ih h₁
        (fun t ht => hplan t (List.mem_cons_of_mem _ ht))
        fun t ht => hterm t (List.mem_cons_of_mem _ ht)
      · exact .inl ⟨content₂, hfold, by simpa using h₂⟩
      · exact .inr ⟨⟨u, List.mem_cons_of_mem _ hu, hunreadable⟩, hfold⟩
    · rw [herror]
      exact .inr ⟨⟨t, List.mem_cons_self, hunreadable⟩, message, rfl⟩

variable (rc outputs chunks) in
/-- The content of a terminal plan that was not interrupted accounts for its tasks, unless the
command of one that is reported cannot be looked up. -/
theorem build_cases {tasks : List TaskRecord} (hplan : plan.status.terminal)
    (hint : plan.status ≠ .interrupted) (htasks : ∀ t ∈ tasks, t.planId = plan.planId)
    (hterm : ∀ t ∈ tasks, t.status.terminal)
    (hsorted : tasks.Pairwise fun a b => a.orderIndex ≤ b.orderIndex) :
    (∃ content, rc.build plan tasks outputs chunks = .ok content ∧
      content.AccountsFor (tasks.map TaskRecord.taskId)) ∨
    (∃ t ∈ tasks, rc.Unreadable t) ∧
      ∃ message, rc.build plan tasks outputs chunks = .error (.valueError message) := by
  have hopen : plan.status ∉ [PlanState.pending, .running] := by
    intro hmem
    rcases List.mem_pair.1 hmem with he | he <;> rw [he] at hplan <;> exact absurd hplan (by decide)
  let empty : ExecutionResultContent :=
    { planId := plan.planId, status := protocolValue plan.status, stopReason := plan.stopReason }
  have init : Lists empty [] := ⟨rfl, rfl, rfl, rfl⟩
  unfold build
  rw [if_neg hint, if_neg hopen, hsorted.insertionSort_eq]
  obtain ⟨content, hfold, hlists⟩ | herror := foldlM_addTask_cases rc outputs chunks init htasks
    hterm
  · exact .inl ⟨content, hfold, hlists.accountsFor hterm⟩
  · exact .inr herror

end ResultCollector

end AgenticLocalApp
