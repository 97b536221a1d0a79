import AgenticLocalApp.Execution.PlanOutcomes
import AgenticLocalApp.Orchestration.MessageCap

/-!
# Pending outputs

The streams that a rotation summary says can still be asked for are read off the task records.  A
record knows what the budget of its task cut; what the cap on the message cuts, and which tasks had
no result at all, it does not know.
-/

namespace AgenticLocalApp

/-- The range of a stream that a task record says was kept. -/
def TaskRecord.outputRange : OutputStream → TaskRecord → Option (Int × Int)
  | .stdout, t => t.stdoutRange
  | .stderr, t => t.stderrRange

/-! ## The summary -/

namespace ContextReducer

structure PendingOutput where
  taskId : String
  stream : OutputStream
  totalBytes : Nat
  deriving DecidableEq

/-- The whole stream already reached the model. -/
def delivered (range : Option (Int × Int)) (size : Nat) : Bool :=
  match range with
  | none => false
  | some (start, stop) => start = 0 && (size : Int) ≤ stop

/-- The entry of a stream of a truncated task, unless it is empty, not stored or delivered. -/
def pendingOf (σ : Store) (sid : String) (task : TaskRecord) (stream : OutputStream) :
    Option PendingOutput :=
  match σ.getBlobForTask sid task.taskId stream with
  | none => none
  | some blob =>
    if blob.sizeBytes = 0 then none
    else if delivered (task.outputRange stream) blob.sizeBytes then none
    else some ⟨task.taskId, stream, blob.sizeBytes⟩

/-- `_pending_outputs`. -/
def pendingOutputs (σ : Store) (sid : String) : List PendingOutput :=
  (σ.listSessionTasks sid).flatMap fun task =>
    if task.truncated then [OutputStream.stdout, .stderr].filterMap (pendingOf σ sid task) else []

theorem mem_pendingOutputs {σ : Store} {sid : String} {p : PendingOutput} :
    p ∈ pendingOutputs σ sid ↔ ∃ task ∈ σ.tasks.rows, task.sessionId = sid ∧
      task.truncated = true ∧ ∃ stream, pendingOf σ sid task stream = some p := by
  have hlist (t : TaskRecord) : t ∈ σ.listSessionTasks sid ↔
      t ∈ σ.tasks.rows ∧ t.sessionId = sid := by
    simp [Store.listSessionTasks, Store.sortTasks]
  have hstream (t : TaskRecord) : p ∈ [OutputStream.stdout, .stderr].filterMap (pendingOf σ sid t) ↔
      ∃ stream, pendingOf σ sid t stream = some p := by
    rw [List.mem_filterMap]
    constructor
    · rintro ⟨stream, -, h⟩
      exact ⟨stream, h⟩
    · rintro ⟨stream, h⟩
      exact ⟨stream, by cases stream <;> simp, h⟩
  simp only [pendingOutputs, List.mem_flatMap, hlist]
  constructor
  · rintro ⟨t, ⟨ht, hsid⟩, hp⟩
    split at hp
    · rename_i htrunc
      exact ⟨t, ht, hsid, htrunc, (hstream t).1 hp⟩
    · cases hp
  · rintro ⟨t, ht, hsid, htrunc, hp⟩
    exact ⟨t, ⟨ht, hsid⟩, by rw [if_pos htrunc]; exact (hstream t).2 hp⟩

theorem pendingOf_eq_some_iff {σ : Store} {sid : String} {task : TaskRecord} {stream : OutputStream}
    {p : PendingOutput} : pendingOf σ sid task stream = some p ↔
      ∃ blob, σ.getBlobForTask sid task.taskId stream = some blob ∧ blob.sizeBytes ≠ 0 ∧
        delivered (task.outputRange stream) blob.sizeBytes = false ∧
        p = ⟨task.taskId, stream, blob.sizeBytes⟩ := by
  unfold pendingOf
  cases σ.getBlobForTask sid task.taskId stream with
  | none => simp
  | some blob =>
    dsimp only
    constructor
    · intro h
      split at h
      · cases h
      · rename_i hzero
        split at h
        · cases h
        · rename_i hnot
          exact ⟨blob, rfl, hzero, by simpa using hnot, (Option.some.inj h).symm⟩
    · rintro ⟨_, hb, hzero, hnot, rfl⟩
      obtain rfl := Option.some.inj hb
      rw [if_neg hzero, if_neg (by simp [hnot])]

end ContextReducer

/-! ## Executed tasks -/

/-- A command that was executed, and the budget of its output. -/
structure TaskRun where
  sessionId : String
  taskId : String
  raw : RawExecution
  budget : Int

namespace TaskRun

def bytes : OutputStream → TaskRun → List UInt8
  | .stdout, run => run.raw.stdout
  | .stderr, run => run.raw.stderr

/-- What the budget leaves of the two streams. -/
def kept (run : TaskRun) : TruncatedOutput :=
  PayloadGuard.applyBudget run.raw.stdout run.raw.stderr run.budget.toNat

/-- The stream is longer than its share of the budget: each stream may have half of it and what the
other leaves, the standard error first. -/
def OverBudget (run : TaskRun) : OutputStream → Prop
  | .stderr => run.budget.toNat - min run.raw.stdout.length (run.budget.toNat / 2) <
      run.raw.stderr.length
  | .stdout => run.budget.toNat - min run.raw.stderr.length
      (run.budget.toNat - min run.raw.stdout.length (run.budget.toNat / 2)) < run.raw.stdout.length

instance (run : TaskRun) : DecidablePred run.OverBudget := fun stream =>
  match stream with
  | .stdout => inferInstanceAs (Decidable (_ < _))
  | .stderr => inferInstanceAs (Decidable (_ < _))

theorem kept_truncated (run : TaskRun) :
    run.kept.truncated = true ↔ run.OverBudget .stdout ∨ run.OverBudget .stderr := by
  simp only [kept, PayloadGuard.applyBudget, OverBudget, Bool.or_eq_true, decide_eq_true_eq]
  omega

theorem kept_stdoutRange (run : TaskRun) :
    run.kept.stdoutRange.2 = run.raw.stdout.length ∧
      (run.kept.stdoutRange.1 = 0 ↔ ¬ run.OverBudget .stdout) := by
  simp only [kept, PayloadGuard.applyBudget, OverBudget, true_and]
  omega

theorem kept_stderrRange (run : TaskRun) :
    run.kept.stderrRange.2 = run.raw.stderr.length ∧
      (run.kept.stderrRange.1 = 0 ↔ ¬ run.OverBudget .stderr) := by
  simp only [kept, PayloadGuard.applyBudget, OverBudget, true_and]
  omega

end TaskRun

/-! ## Histories -/

/-- The outputs of all sessions: the store, the commands that were executed, and the results of the
messages that were posted, each with its session. -/
structure History where
  store : Store := {}
  runs : List TaskRun := []
  posted : List (String × TaskResult) := []

/-- The change of a task whose command was executed, as the plan runner writes it. -/
def endedChange (target : TaskState) (reason : Option String) (raw : RawExecution)
    (stdoutId stderrId : String) (truncated : TruncatedOutput) (duration : Int) (endedAt : Instant) :
    Change where
  target := target
  reason := reason
  fields t := { PlanRunner.outputFields raw stdoutId stderrId truncated t with
    durationMs := some duration }
  endedAt := some endedAt

/-- The records that the plan runner writes when a task ends are that of the task alone. -/
theorem records_of_ended {tasks : List TaskRecord} {task : TaskRecord} {change : Change}
    {now : Instant} (hnodup : (tasks.map TaskRecord.taskId).Nodup) (htask : task ∈ tasks) :
    Changes.records (fun t => if t.taskId = task.taskId then some change else none) now tasks =
      [change.applied now task] := by
  induction tasks with
  | nil => cases htask
  | cons t rest ih =>
    obtain ⟨hhead, hrest⟩ := List.nodup_cons.1 hnodup
    simp only [Changes.records, List.filterMap_cons] at ih ⊢
    rcases List.mem_cons.1 htask with rfl | hmem
    · have hnone : ∀ u ∈ rest, ((if u.taskId = task.taskId then some change else none).map
          fun c => c.applied now u) = none := by
        intro u hu
        have hne : u.taskId ≠ task.taskId := fun he => hhead (he ▸ List.mem_map_of_mem hu)
        rw [if_neg hne]
        rfl
      rw [if_pos rfl, Option.map_some, List.filterMap_eq_nil_iff.2 hnone]
    · have hne : t.taskId ≠ task.taskId := fun he => hhead (he ▸ List.mem_map_of_mem hmem)
      rw [if_neg hne, Option.map_none]
      exact ih hrest hmem

/-- No blob changes, and no task record loses what it knows of its output. -/
structure SameOutputs (σ σ' : Store) : Prop where
  blobs : σ'.blobs = σ.blobs
  tasks : ∀ t ∈ σ.tasks.rows, ∃ t' ∈ σ'.tasks.rows, Keyed.key t' = Keyed.key t ∧
    t'.truncated = t.truncated ∧ ∀ stream, t'.outputRange stream = t.outputRange stream

namespace History

inductive Step (rc : ResultCollector) : History → History → Prop where
  /-- A command was executed: its streams are stored, and its record says what the budget kept. -/
  | ended {h : History} {task : TaskRecord} {raw : RawExecution} {budget : Int}
      {truncated : TruncatedOutput} {stdoutId stderrId : String} {target : TaskState}
      {reason : Option String} {duration : Int} {endedAt now : Instant}
      (htask : task ∈ h.store.tasks.rows)
      (hfirst : ∀ stream, h.store.getBlobForTask task.sessionId task.taskId stream = none)
      (hids : stdoutId ≠ stderrId)
      (hfresh : ∀ b ∈ h.store.blobs.rows, b.blobId ≠ stdoutId ∧ b.blobId ≠ stderrId)
      (hkept : PayloadGuard.apply raw.stdout raw.stderr budget = .ok truncated) :
      Step rc h { h with
        store := (h.store.saveBlobs [PlanRunner.blob task endedAt stdoutId .stdout raw.stdout,
          PlanRunner.blob task endedAt stderrId .stderr raw.stderr]).saveTask
            ((endedChange target reason raw stdoutId stderrId truncated duration endedAt).applied now
              task)
        runs := ⟨task.sessionId, task.taskId, raw, budget⟩ :: h.runs }
  /-- The result of a plan was posted, fitted to the cap on the message. -/
  | posted {h : History} {sid : String} {plan : PlanRecord} {tasks : List TaskRecord}
      {outputs : Outputs TruncatedOutput} {chunks : Outputs ChunkResult}
      {content fitted : ExecutionResultContent} {maxBytes : Nat} {conv : ConversationRecord}
      {messageId : String} (hbuild : rc.build plan tasks outputs chunks = .ok content)
      (hfit : FittedFor maxBytes conv messageId content fitted) :
      Step rc h { h with posted := h.posted ++ fitted.results.map fun r => (sid, r) }
  /-- Anything else was written. -/
  | other {h : History} {store : Store} (hsame : SameOutputs h.store store) :
      Step rc h { h with store := store }

inductive Reached (rc : ResultCollector) : History → Prop where
  | start : Reached rc {}
  | step {h h' : History} : Reached rc h → Step rc h h' → Reached rc h'

/-! ### What was delivered -/

/-- The byte of the stream is in the range that the result says it has, as the result of the task or
of a chunk of it. -/
def Carries (r : TaskResult) (taskId : String) (stream : OutputStream) (n : Nat) : Prop :=
  (r.taskId = taskId ∧ ∃ range ∈ PayloadGuard.streamRange stream r, range.1 ≤ n ∧ n < range.2) ∨
    (r.refTaskId = some taskId ∧ r.stream = some stream ∧
      ∃ range ∈ r.range, range.1 ≤ n ∧ n < range.2)

/-- Every byte of the stream is in a result that was posted. -/
def AllDelivered (h : History) (run : TaskRun) (stream : OutputStream) : Prop :=
  ∀ n < (run.bytes stream).length, ∃ r, (run.sessionId, r) ∈ h.posted ∧
    Carries r run.taskId stream n

/-- Every stream of an executed task that is not empty and was not all delivered is among the pending
outputs. -/
def NothingForgotten (h : History) : Prop :=
  ∀ run ∈ h.runs, ∀ stream, run.bytes stream ≠ [] → ¬ h.AllDelivered run stream →
    ⟨run.taskId, stream, (run.bytes stream).length⟩ ∈
      ContextReducer.pendingOutputs h.store run.sessionId

/-! ### What is recorded -/

/-- The streams of the run are stored, and the record of its task says what the budget kept. -/
structure Recorded (σ : Store) (run : TaskRun) (t : TaskRecord) : Prop where
  mem : t ∈ σ.tasks.rows
  key : Keyed.key t = (run.sessionId, run.taskId)
  truncated : t.truncated = run.kept.truncated
  stdoutRange : t.outputRange .stdout = some run.kept.stdoutRange
  stderrRange : t.outputRange .stderr = some run.kept.stderrRange
  stored : ∀ stream, ∃ blob, σ.getBlobForTask run.sessionId run.taskId stream = some blob ∧
    blob.sizeBytes = (run.bytes stream).length

/-- Every run is recorded. -/
def RunsRecorded (h : History) : Prop := ∀ run ∈ h.runs, ∃ t, Recorded h.store run t

theorem Recorded.congr {σ σ' : Store} {run : TaskRun} {t t' : TaskRecord} (h : Recorded σ run t)
    (hblobs : ∀ stream blob, σ.getBlobForTask run.sessionId run.taskId stream = some blob →
      σ'.getBlobForTask run.sessionId run.taskId stream = some blob)
    (hmem : t' ∈ σ'.tasks.rows) (hkey : Keyed.key t' = Keyed.key t)
    (htruncated : t'.truncated = t.truncated)
    (hranges : ∀ stream, t'.outputRange stream = t.outputRange stream) : Recorded σ' run t' where
  mem := hmem
  key := hkey.trans h.key
  truncated := htruncated.trans h.truncated
  stdoutRange := (hranges _).trans h.stdoutRange
  stderrRange := (hranges _).trans h.stderrRange
  stored stream := by
    obtain ⟨blob, hblob, hsize⟩ := h.stored stream
    exact ⟨blob, hblobs stream blob hblob, hsize⟩

/-- The blobs of a first execution are found, and no other blob is lost. -/
theorem getBlobForTask_saved {σ : Store} {task : TaskRecord} {raw : RawExecution}
    {stdoutId stderrId : String} {now : Instant} (hids : stdoutId ≠ stderrId)
    (hfresh : ∀ b ∈ σ.blobs.rows, b.blobId ≠ stdoutId ∧ b.blobId ≠ stderrId) (sid taskId : String)
    (stream : OutputStream) :
    (σ.saveBlobs [PlanRunner.blob task now stdoutId .stdout raw.stdout,
      PlanRunner.blob task now stderrId .stderr raw.stderr]).getBlobForTask sid taskId stream =
      (σ.getBlobForTask sid taskId stream).or
        (if task.sessionId = sid ∧ task.taskId = taskId then
          match stream with
          | .stdout => some (PlanRunner.blob task now stdoutId .stdout raw.stdout)
          | .stderr => some (PlanRunner.blob task now stderrId .stderr raw.stderr)
        else none) := by
  have hrows : (σ.saveBlobs [PlanRunner.blob task now stdoutId .stdout raw.stdout,
      PlanRunner.blob task now stderrId .stderr raw.stderr]).blobs.rows =
      σ.blobs.rows ++ [PlanRunner.blob task now stdoutId .stdout raw.stdout,
        PlanRunner.blob task now stderrId .stderr raw.stderr] := by
    show ((σ.blobs.save _).save _).rows = _
    have hfirst : Keyed.key (PlanRunner.blob task now stdoutId .stdout raw.stdout) ∉
        σ.blobs.rows.map Keyed.key := by
      intro hmem
      obtain ⟨b, hb, he⟩ := List.mem_map.1 hmem
      exact (hfresh b hb).1 he
    have hsecond : Keyed.key (PlanRunner.blob task now stderrId .stderr raw.stderr) ∉
        (σ.blobs.save (PlanRunner.blob task now stdoutId .stdout raw.stdout)).rows.map
          Keyed.key := by
      intro hmem
      obtain ⟨b, hb, he⟩ := List.mem_map.1 hmem
      rw [Table.rows_save_of_not_mem hfirst, List.mem_append, List.mem_singleton] at hb
      rcases hb with hb | rfl
      · exact (hfresh b hb).2 he
      · exact hids he
    rw [Table.rows_save_of_not_mem hsecond, Table.rows_save_of_not_mem hfirst, List.append_assoc]
    rfl
  unfold Store.getBlobForTask
  rw [hrows, List.find?_append]
  congr 1
  by_cases htask : task.sessionId = sid ∧ task.taskId = taskId
  · rw [if_pos htask]
    cases stream <;> simp [PlanRunner.blob, htask.1, htask.2]
  · rw [if_neg htask]
    have hnot : ∀ s, ¬ (task.sessionId = sid ∧ task.taskId = taskId ∧ s = stream) :=
      fun s h => htask ⟨h.1, h.2.1⟩
    simp [PlanRunner.blob, hnot]

theorem RunsRecorded.step {rc : ResultCollector} {h h' : History} (hr : h.RunsRecorded)
    (hstep : Step rc h h') : h'.RunsRecorded := by
  cases hstep with
  | posted hbuild hfit => exact hr
  | other hsame =>
    intro run hrun
    obtain ⟨t, ht⟩ := hr run hrun
    obtain ⟨t', hmem, hkey, htruncated, hranges⟩ := hsame.tasks t ht.mem
    refine ⟨t', ht.congr (fun stream blob hblob => ?_) hmem hkey htruncated hranges⟩
    rwa [Store.getBlobForTask, hsame.blobs]
  | @ended task raw budget truncated stdoutId stderrId target reason duration endedAt now htask hfirst
      hids hfresh hkept =>
    have hblobs := @getBlobForTask_saved h.store task raw stdoutId stderrId endedAt hids hfresh
    intro run hrun
    rcases List.mem_cons.1 hrun with rfl | hrun
    · obtain rfl : PayloadGuard.applyBudget raw.stdout raw.stderr budget.toNat = truncated := by
        unfold PayloadGuard.apply at hkept
        split at hkept
        · cases hkept
        · exact Except.ok.inj hkept
      refine ⟨_, ⟨Table.mem_save.2 (.inl rfl), rfl, rfl, rfl, rfl, fun stream => ?_⟩⟩
      have hstored := hblobs task.sessionId task.taskId stream
      rw [hfirst stream, if_pos ⟨rfl, rfl⟩] at hstored
      cases stream <;> exact ⟨_, hstored, rfl⟩
    · -- a run that was recorded before is one of another task, whose blobs are there
      obtain ⟨t, ht⟩ := hr run hrun
      refine ⟨t, ht.congr (fun stream blob hblob => ?_) (Table.mem_save.2 (.inr ⟨ht.mem, ?_⟩)) rfl
        rfl fun _ => rfl⟩
      · exact (hblobs _ _ stream).trans (by rw [hblob, Option.some_or])
      · intro he
        obtain ⟨blob, hblob, -⟩ := ht.stored .stdout
        have hkey : (task.sessionId, task.taskId) = (run.sessionId, run.taskId) :=
          he.symm.trans ht.key
        obtain ⟨hsid, hid⟩ := Prod.mk.inj hkey
        have hnone := hfirst .stdout
        rw [hsid, hid, hblob] at hnone
        cases hnone

/-- Of every history, each run is recorded. -/
theorem Reached.runsRecorded {rc : ResultCollector} {h : History} (hr : Reached rc h) :
    h.RunsRecorded := by
  induction hr with
  | start => exact fun _ hrun => (List.not_mem_nil hrun).elim
  | step _ hstep ih => exact ih.step hstep

theorem Recorded.mem_pendingOutputs_iff {σ : Store} {run : TaskRun} {t : TaskRecord}
    (h : Recorded σ run t) {stream : OutputStream} (hne : run.bytes stream ≠ []) :
    ⟨run.taskId, stream, (run.bytes stream).length⟩ ∈
      ContextReducer.pendingOutputs σ run.sessionId ↔ run.OverBudget stream := by
  have hkept : ∃ range, t.outputRange stream = some range ∧
      range.2 = (run.bytes stream).length ∧ (range.1 = 0 ↔ ¬ run.OverBudget stream) := by
    cases stream with
    | stdout => exact ⟨_, h.stdoutRange, run.kept_stdoutRange⟩
    | stderr => exact ⟨_, h.stderrRange, run.kept_stderrRange⟩
  obtain ⟨range, hrange, hstop, hstart⟩ := hkept
  obtain ⟨blob, hblob, hsize⟩ := h.stored stream
  obtain ⟨hsid, hid⟩ := Prod.mk.inj h.key
  have hpos : blob.sizeBytes ≠ 0 := by
    rw [hsize]
    exact fun hzero => hne (List.length_eq_zero_iff.1 hzero)
  have hpart : ContextReducer.delivered (t.outputRange stream) blob.sizeBytes = false ↔
      run.OverBudget stream := by
    rw [hrange, ← not_iff_not, ← hstart]
    simp [ContextReducer.delivered, hstop, hsize]
  rw [ContextReducer.mem_pendingOutputs]
  constructor
  · rintro ⟨u, hu, husid, -, stream', hp⟩
    obtain ⟨blob', hblob', -, hnot, he⟩ := ContextReducer.pendingOf_eq_some_iff.1 hp
    obtain ⟨huid, rfl, -⟩ := ContextReducer.PendingOutput.mk.inj he
    have hkey : Keyed.key u = Keyed.key t := by
      rw [h.key, ← husid, huid]
      rfl
    obtain rfl := Table.key_inj hu h.mem hkey
    rw [← huid, hblob] at hblob'
    obtain rfl := Option.some.inj hblob'
    exact hpart.1 hnot
  · intro hover
    have htruncated : t.truncated = true := by
      rw [h.truncated, run.kept_truncated]
      cases stream with
      | stdout => exact .inl hover
      | stderr => exact .inr hover
    rw [← hid] at hblob
    refine ⟨t, h.mem, hsid, htruncated, stream, ContextReducer.pendingOf_eq_some_iff.2
      ⟨blob, hblob, hpos, hpart.2 hover, ?_⟩⟩
    rw [hid, hsize]

/-- Of the streams that were not all delivered, those and only those are pending that the budget of
their task cut. -/
theorem nothing_forgotten_iff {rc : ResultCollector} {h : History} (hr : Reached rc h) :
    h.NothingForgotten ↔ ∀ run ∈ h.runs, ∀ stream, run.bytes stream ≠ [] →
      h.AllDelivered run stream ∨ run.OverBudget stream := by
  have hrecorded := hr.runsRecorded
  constructor
  · intro hall run hrun stream hne
    obtain ⟨t, ht⟩ := hrecorded run hrun
    by_cases hdelivered : h.AllDelivered run stream
    · exact .inl hdelivered
    · exact .inr ((ht.mem_pendingOutputs_iff hne).1 (hall run hrun stream hne hdelivered))
  · intro hall run hrun stream hne hnot
    obtain ⟨t, ht⟩ := hrecorded run hrun
    exact (ht.mem_pendingOutputs_iff hne).2 ((hall run hrun stream hne).resolve_left hnot)

/-! ### A result that only the cap cuts -/

/-- A command that wrote forty letters. -/
def fortyLetters : RawExecution where
  stdout := List.replicate 40 97
  stderr := []
  exitCode := some 0
  timedOut := false
  cancelled := false
  spawnError := none
  pid := none
  processGroupId := none

def fortyKept (budget : Nat) : TruncatedOutput :=
  PayloadGuard.applyBudget fortyLetters.stdout [] budget

def fortyTask : TaskRecord := PlanRunner.loneTask (some "ls")

def fortyEnded (budget : Nat) : TaskRecord :=
  (endedChange .completed none fortyLetters "out" "err" (fortyKept budget) 1 0).applied 0 fortyTask

def collectorSample : ResultCollector := ⟨⟨fun _ => false⟩, ⟨.posix, fun _ => .ok none⟩⟩

/-- The history before the result is posted. -/
def fortyRun (budget : Nat) : History where
  store := ({ tasks := .ofRows [fortyTask] : Store }.saveBlobs
    [PlanRunner.blob fortyTask 0 "out" .stdout fortyLetters.stdout,
      PlanRunner.blob fortyTask 0 "err" .stderr []]).saveTask (fortyEnded budget)
  runs := [⟨"s", "t", fortyLetters, budget⟩]

theorem reached_fortyRun (budget : Nat) : Reached collectorSample (fortyRun budget) := by
  let stored : History := { store := { tasks := .ofRows [fortyTask] } }
  have hstored : Reached collectorSample stored :=
    .step .start (.other ⟨rfl, fun t ht => (List.not_mem_nil ht).elim⟩)
  have hmem : fortyTask ∈ stored.store.tasks.rows := List.mem_singleton_self _
  have hkept : PayloadGuard.apply fortyLetters.stdout [] budget = .ok (fortyKept budget) :=
    if_neg (by omega)
  have hended := @Step.ended collectorSample stored fortyTask fortyLetters budget (fortyKept budget)
    "out" "err" .completed none 1 0 0 hmem (fun _ => rfl) (by decide)
    (fun b hb => (List.not_mem_nil hb).elim) hkept
  exact .step hstored hended

/-- An output over its budget of 16 bytes is pending while nothing is posted. -/
theorem nothing_forgotten_over_budget : (fortyRun 16).NothingForgotten := by
  refine (nothing_forgotten_iff (reached_fortyRun 16)).2 fun run hrun stream hne => .inr ?_
  obtain rfl := List.mem_singleton.1 hrun
  cases stream with
  | stdout => decide
  | stderr => exact absurd rfl hne

/-- The result of the task within its budget of 64 bytes. -/
def fortyResult : TaskResult :=
  collectorSample.cmdResult (fortyEnded 64) (some (fortyKept 64)) none

def fortyContent (result : TaskResult) : ExecutionResultContent where
  planId := "p"
  status := "completed"
  results := [result]

theorem build_forty :
    collectorSample.build { PlanRunner.lonePlan with status := .completed } [fortyEnded 64]
      (fun _ => some (fortyKept 64)) (fun _ => none) = .ok (fortyContent fortyResult) := rfl

theorem fitted_forty :
    FittedFor 470 (.sample "c" "s" .active) "m" (fortyContent fortyResult)
      (fortyContent (PayloadGuard.halve fortyResult .stdout)) := by
  have hfirst : PayloadGuard.messageSize (fortyContent fortyResult) ≤ 470 := by decide +kernel
  have hover : ¬ PayloadGuard.messageSize (fortyContent fortyResult) ≤
      470 - SessionRun.envelopeOverhead (.sample "c" "s" .active) "m" .executionResult := by
    decide +kernel
  have hhalved : PayloadGuard.messageSize (fortyContent (PayloadGuard.halve fortyResult .stdout)) ≤
      470 - SessionRun.envelopeOverhead (.sample "c" "s" .active) "m" .executionResult := by
    decide +kernel
  have hlongest : PayloadGuard.longest [fortyResult] .stdout = some 0 := by decide +kernel
  have hshrink : PayloadGuard.shrink (fortyContent fortyResult).results =
      some [PayloadGuard.halve fortyResult .stdout] := by
    unfold PayloadGuard.shrink fortyContent
    rw [hlongest]
    rfl
  refine ⟨1, 2, fortyContent fortyResult, PayloadGuard.fitMessage_of_le hfirst, ?_⟩
  rw [PayloadGuard.fitMessage, if_neg hover, hshrink]
  exact PayloadGuard.fitMessage_of_le hhalved

/-- The history after it. -/
def fortyPosted : History :=
  { fortyRun 64 with posted := [("s", PayloadGuard.halve fortyResult .stdout)] }

/-- The posted result lacks the first twenty bytes of the output, and the output is not pending: its
record says that nothing was cut. -/
theorem fitted_output_forgotten :
    Reached collectorSample fortyPosted ∧ ¬ fortyPosted.NothingForgotten := by
  have hposted := @Step.posted collectorSample (fortyRun 64) "s" _ _ _ _ _ _ _ _ _ build_forty
    fitted_forty
  have hreached : Reached collectorSample fortyPosted := .step (reached_fortyRun 64) hposted
  refine ⟨hreached, fun hall => ?_⟩
  have hrun : (⟨"s", "t", fortyLetters, 64⟩ : TaskRun) ∈ fortyPosted.runs := List.mem_singleton_self _
  have hne : TaskRun.bytes .stdout ⟨"s", "t", fortyLetters, 64⟩ ≠ [] := by decide
  have hrange : (PayloadGuard.halve fortyResult .stdout).stdoutRange = some (20, 40) := by
    decide +kernel
  have hnot : ¬ fortyPosted.AllDelivered ⟨"s", "t", fortyLetters, 64⟩ .stdout := by
    intro hdelivered
    obtain ⟨r, hr, hcarries⟩ := hdelivered 0 (by decide)
    obtain rfl : r = PayloadGuard.halve fortyResult .stdout :=
      (Prod.mk.inj (List.mem_singleton.1 hr)).2
    rcases hcarries with ⟨-, range, hrange', hstart, -⟩ | ⟨href, -⟩
    · obtain rfl : (20, 40) = range := Option.some.inj (hrange.symm.trans hrange')
      exact absurd hstart (by decide)
    · cases href
  obtain ⟨t, ht⟩ := hreached.runsRecorded _ hrun
  have hover := (ht.mem_pendingOutputs_iff hne).1 (hall _ hrun .stdout hne hnot)
  exact absurd hover (by decide)

end History

end AgenticLocalApp
