import AgenticLocalApp.Execution.PlanEnds

/-!
# Launching

What is picked may be launched, one task after the other; and where nothing runs while a task is
still open, something is picked.
-/

namespace AgenticLocalApp

open Prog PlanExecution

/-! ## What is picked -/

section Pick

variable {mem : PlanExecution}

theorem launchable_iff {locks : List String} {t : TaskRecord} :
    launchable mem locks t ↔ t.status = .pending ∧ mem.dependenciesCompleted t ∧
      ∀ lock, t.resourceLock = some lock → lock ∉ mem.heldLocks ∧ lock ∉ locks := by
  unfold launchable
  cases t.resourceLock <;> simp [and_assoc]

/-- A choice among `rest`: a part of it, in order, each task of which can be launched beside the
others; in a sequential plan nothing is passed over. -/
structure Choice (mem : PlanExecution) (slots : Nat) (locks : List String)
    (rest picked : List TaskRecord) : Prop where
  sublist : picked.Sublist rest
  length : picked.length ≤ slots
  launchable : ∀ t ∈ picked, launchable mem locks t
  locks : picked.Pairwise fun t u => ∀ lock, t.resourceLock = some lock → u.resourceLock ≠ some lock
  inOrder : mem.plan.sequential → ∀ before t after, rest = before ++ t :: after → t ∈ picked →
    ∀ u ∈ before, u.status.terminal ∨ u ∈ picked

theorem Choice.nil (mem : PlanExecution) (slots : Nat) (locks : List String)
    (rest : List TaskRecord) : Choice mem slots locks rest [] where
  sublist := List.nil_sublist _
  length := Nat.zero_le _
  launchable _ h := absurd h List.not_mem_nil
  locks := .nil
  inOrder _ _ _ _ _ h := absurd h List.not_mem_nil

/-- A task is passed over that is terminal, or, in a parallel plan, cannot be launched. -/
theorem Choice.skip {slots : Nat} {locks : List String} {rest picked : List TaskRecord}
    {t : TaskRecord} (h : Choice mem slots locks rest picked)
    (ht : mem.plan.sequential → t.status.terminal) : Choice mem slots locks (t :: rest) picked where
  sublist := h.sublist.cons _
  length := h.length
  launchable := h.launchable
  locks := h.locks
  inOrder hseq before x after he hx u hu := by
    cases before with
    | nil => exact absurd hu List.not_mem_nil
    | cons y before =>
      obtain ⟨rfl, hrest⟩ := List.cons.inj he
      rcases List.mem_cons.1 hu with rfl | hu
      · exact .inl (ht hseq)
      · exact h.inOrder hseq before x after hrest hx u hu

/-- A task is picked. -/
theorem Choice.cons {slots : Nat} {locks : List String} {rest picked : List TaskRecord}
    {t : TaskRecord} (h : Choice mem slots (t.resourceLock.toList ++ locks) rest picked)
    (ht : AgenticLocalApp.launchable mem locks t) (hnot : t ∉ rest) :
    Choice mem (slots + 1) locks (t :: rest) (t :: picked) where
  sublist := h.sublist.cons_cons _
  length := by simpa using h.length
  launchable u hu := by
    rcases List.mem_cons.1 hu with rfl | hu
    · exact ht
    · obtain ⟨hst, hdeps, hfree⟩ := launchable_iff.1 (h.launchable u hu)
      refine launchable_iff.2 ⟨hst, hdeps, fun lock hl => ⟨(hfree lock hl).1, fun hmem => ?_⟩⟩
      exact (hfree lock hl).2 (List.mem_append_right _ hmem)
  locks := by
    refine List.pairwise_cons.2 ⟨fun u hu lock hl hl' => ?_, h.locks⟩
    obtain ⟨-, -, hfree⟩ := launchable_iff.1 (h.launchable u hu)
    apply (hfree lock hl').2
    rw [hl]
    exact List.mem_append_left _ List.mem_cons_self
  inOrder hseq before x after he hx u hu := by
    cases before with
    | nil => exact absurd hu List.not_mem_nil
    | cons y before =>
      obtain ⟨rfl, hrest⟩ := List.cons.inj he
      rcases List.mem_cons.1 hu with rfl | hu
      · exact .inr List.mem_cons_self
      · have hxr : x ∈ rest := by
          rw [hrest]
          exact List.mem_append_right _ List.mem_cons_self
        have hxp : x ∈ picked := (List.mem_cons.1 hx).resolve_left fun hxt => hnot (hxt ▸ hxr)
        exact (h.inOrder hseq before x after hrest hxp u hu).imp id (List.mem_cons_of_mem _)

theorem pick_spec (slots : Nat) (locks : List String) {rest : List TaskRecord}
    (hnodup : rest.Nodup) :
    ∃ picked : List TaskRecord, pick mem slots locks rest = picked.map TaskRecord.taskId ∧
      Choice mem slots locks rest picked := by
  induction rest generalizing slots locks with
  | nil =>
    have : pick mem slots locks [] = [] := by cases slots <;> rfl
    exact ⟨[], this, .nil ..⟩
  | cons t rest ih =>
    obtain ⟨hnot, hrest⟩ := List.nodup_cons.1 hnodup
    cases slots with
    | zero => exact ⟨[], rfl, .nil ..⟩
    | succ slots =>
      unfold pick
      by_cases hterm : t.status.terminal
      · rw [if_pos hterm]
        obtain ⟨picked, he, h⟩ := ih (slots + 1) locks hrest
        exact ⟨picked, he, h.skip fun _ => hterm⟩
      · rw [if_neg hterm]
        by_cases hl : launchable mem locks t
        · rw [if_pos hl]
          obtain ⟨picked, he, h⟩ := ih slots (t.resourceLock.toList ++ locks) hrest
          exact ⟨t :: picked, by rw [he, List.map_cons], h.cons hl hnot⟩
        · rw [if_neg hl]
          by_cases hseq : mem.plan.sequential
          · exact ⟨[], by rw [if_pos hseq, List.map_nil], .nil ..⟩
          · rw [if_neg hseq]
            obtain ⟨picked, he, h⟩ := ih (slots + 1) locks hrest
            exact ⟨picked, he, h.skip fun hs => absurd hs hseq⟩

/-- Something is picked where a task can be launched, provided that a sequential plan has come to
it. -/
theorem pick_ne_nil {slots : Nat} {locks : List String} {before after : List TaskRecord}
    {t : TaskRecord} (hterm : ¬ t.status.terminal) (hl : launchable mem locks t)
    (hbefore : mem.plan.sequential → ∀ u ∈ before, u.status.terminal) :
    pick mem (slots + 1) locks (before ++ t :: after) ≠ [] := by
  induction before with
  | nil =>
    rw [List.nil_append]
    unfold pick
    rw [if_neg hterm, if_pos hl]
    exact List.cons_ne_nil _ _
  | cons u before ih =>
    have ih := ih fun hs v hv => hbefore hs v (List.mem_cons_of_mem _ hv)
    rw [List.cons_append]
    unfold pick
    by_cases hu : u.status.terminal
    · rwa [if_pos hu]
    · have hseq : ¬ mem.plan.sequential := fun hs => hu (hbefore hs u List.mem_cons_self)
      rw [if_neg hu, if_neg hseq]
      by_cases hlu : launchable mem locks u
      · rw [if_pos hlu]
        exact List.cons_ne_nil _ _
      · rwa [if_neg hlu]

/-- In a sequential plan a dependency comes before the task that names it. -/
theorem mem_before {plan : PlanRecord} {tasks : List TaskRecord} {σ : Store}
    (ht : mem.Tracks plan tasks σ) (hseq : mem.plan.sequential) {before after : List TaskRecord}
    {t u : TaskRecord} (he : mem.tasks = before ++ t :: after) (hu : u ∈ mem.tasks)
    (hd : u.taskId ∈ t.dependsOn) : u ∈ before := by
  have hmem : t ∈ mem.tasks := he ▸ List.mem_append_right _ List.mem_cons_self
  have hlt := ht.graph.backward hseq t hmem u.taskId hd
  have hnd := ht.graph.nodup
  rw [he, List.map_append, List.map_cons] at hlt hnd
  have ht' : t.taskId ∉ before.map TaskRecord.taskId := fun h =>
    (List.nodup_append.1 hnd).2.2 _ h _ List.mem_cons_self rfl
  rw [List.idxOf_append, List.idxOf_append, if_neg ht', List.idxOf_cons_self] at hlt
  by_cases hub : u.taskId ∈ before.map TaskRecord.taskId
  · obtain ⟨v, hv, hid⟩ := List.mem_map.1 hub
    rwa [ht.inj hu (he ▸ List.mem_append_left _ hv) hid.symm]
  · rw [if_neg hub] at hlt
    omega

/-- Where nothing runs and a task is open, a task is ready. -/
theorem ready_ne_nil {plan : PlanRecord} {tasks : List TaskRecord} {σ : Store}
    (ht : mem.Tracks plan tasks σ) (hs : Steady none mem) (hfl : Flowing mem.tasks)
    (hrun : mem.running = []) (hopen : ∃ t ∈ mem.tasks, ¬ t.status.terminal) : ready mem ≠ [] := by
  have hnorun : ∀ t ∈ mem.tasks, t.status ≠ .running := by
    intro t hmem hst
    have := (hs.running t.taskId).2 ⟨mem_runningIds.2 ⟨t, hmem, hst, rfl⟩, by simp⟩
    rw [hrun] at this
    exact absurd this List.not_mem_nil
  have hheld : ∀ lock, lock ∉ mem.heldLocks := by
    intro lock hl
    obtain ⟨t, hmem, hst, -⟩ := (hs.locks lock).1 hl
    exact hnorun t hmem hst
  -- an open task all of whose dependencies are terminal can be launched
  have hlaunch {t : TaskRecord} (hmem : t ∈ mem.tasks) (ho : ¬ t.status.terminal)
      (hdeps : ∀ u ∈ mem.tasks, u.taskId ∈ t.dependsOn → u.status.terminal) :
      launchable mem [] t := by
    have hsched : t.status ∈ schedulableStates := by
      have := hnorun t hmem
      revert ho this
      cases t.status <;> decide
    have hdone : DependenciesDone mem.tasks t := fun u hu hd =>
      hfl.unblocked t hmem hsched u hu hd (hdeps u hu hd) id
    refine launchable_iff.2 ⟨?_, (dependenciesCompleted_iff ht hmem).2 hdone, fun lock _ =>
      ⟨hheld lock, List.not_mem_nil⟩⟩
    have hwait : t.status ≠ .waitingDependency := fun hst => hfl.waiting t hmem hst hdone
    revert hsched hwait
    cases t.status <;> decide
  obtain ⟨slots, hslots⟩ : ∃ slots, mem.plan.workers - mem.running.length = slots + 1 := by
    refine ⟨mem.plan.workers - 1, ?_⟩
    have : 1 ≤ mem.plan.workers := by
      unfold PlanRecord.workers
      split
      · exact le_refl _
      · omega
    rw [hrun, List.length_nil]
    omega
  unfold ready
  rw [hslots]
  by_cases hseq : mem.plan.sequential
  · -- the first open task
    obtain ⟨t, ht₀⟩ : ∃ t, mem.tasks.find? (fun t => ¬ t.status.terminal) = some t := by
      rw [← Option.isSome_iff_exists, List.find?_isSome]
      obtain ⟨t, hmem, ho⟩ := hopen
      exact ⟨t, hmem, by simpa using ho⟩
    obtain ⟨ho, before, after, he, hbefore⟩ := List.find?_eq_some_iff_append.1 ht₀
    have ho : ¬ t.status.terminal := by simpa using ho
    have hbefore : ∀ u ∈ before, u.status.terminal := fun u hu => by simpa using hbefore u hu
    have hmem : t ∈ mem.tasks := he ▸ List.mem_append_right _ List.mem_cons_self
    have hl : launchable mem [] t :=
      hlaunch hmem ho fun u hu hd => hbefore u (mem_before ht hseq he hu hd)
    rw [he]
    exact pick_ne_nil ho hl fun _ => hbefore
  · obtain ⟨t, hmem, ho, hfree⟩ := ht.graph.source
      (fun id => ∃ t ∈ mem.tasks, t.taskId = id ∧ ¬ t.status.terminal)
      (by obtain ⟨t, hmem, ho⟩ := hopen; exact ⟨t, hmem, t, hmem, rfl, ho⟩)
    have ho : ¬ t.status.terminal := by
      obtain ⟨u, hu, hid, ho⟩ := ho
      exact ht.inj hmem hu hid.symm ▸ ho
    have hl : launchable mem [] t := by
      refine hlaunch hmem ho fun u hu hd => ?_
      by_contra hno
      exact hfree u.taskId hd ⟨u, hu, rfl, hno⟩
    obtain ⟨before, after, he⟩ := List.append_of_mem hmem
    rw [he]
    exact pick_ne_nil ho hl fun hs => absurd hs hseq

end Pick

/-! ## Launching what was picked -/

/-- Tasks that may be launched one after the other. -/
structure Picked (mem : PlanExecution) (picked : List TaskRecord) : Prop where
  among : ∀ t ∈ picked, t ∈ mem.tasks
  pending : ∀ t ∈ picked, t.status = .pending
  dependencies : ∀ t ∈ picked, DependenciesDone mem.tasks t
  free : ∀ t ∈ picked, ∀ lock, t.resourceLock = some lock → lock ∉ mem.heldLocks
  nodup : picked.Nodup
  locks : picked.Pairwise fun t u => ∀ lock, t.resourceLock = some lock → u.resourceLock ≠ some lock
  slots : mem.running.length + picked.length ≤ mem.plan.workers
  inOrder : mem.plan.sequential → ∀ before t after, mem.tasks = before ++ t :: after → t ∈ picked →
    ∀ u ∈ before, u.status.terminal

section Rules

variable {r : PlanRunner} {plan : PlanRecord} {tasks : List TaskRecord} {w : World}
  {mem : PlanExecution}

theorem workers_of_sequential {p : PlanRecord} (h : p.sequential) : p.workers = 1 := if_pos h

theorem Steady.length_le (hs : Steady none mem) :
    mem.running.length ≤ mem.plan.workers := by
  refine le_trans ?_ hs.disciplined.slots
  exact (hs.nodup.subperm fun id hid => by simpa using (hs.running id).1 hid).length_le

theorem picked_ready (ht : mem.Tracks plan tasks w.store) (hs : Steady none mem) :
    ∃ picked : List TaskRecord, ready mem = picked.map TaskRecord.taskId ∧ Picked mem picked := by
  have hnodup : mem.tasks.Nodup := ht.graph.nodup.of_map
  obtain ⟨picked, he, h⟩ : ∃ picked : List TaskRecord, ready mem = picked.map TaskRecord.taskId ∧
      Choice mem (mem.plan.workers - mem.running.length) [] mem.tasks picked :=
    pick_spec _ _ hnodup
  have hlen := hs.length_le
  have hslots : mem.running.length + picked.length ≤ mem.plan.workers := by
    have := h.length
    omega
  have hmem : ∀ t ∈ picked, t ∈ mem.tasks := fun t htp => h.sublist.subset htp
  have hl := fun t htp => launchable_iff.1 (h.launchable t htp)
  refine ⟨picked, he, hmem, fun t htp => (hl t htp).1,
    fun t htp => (dependenciesCompleted_iff ht (hmem t htp)).1 (hl t htp).2.1,
    fun t htp lock hlock => ((hl t htp).2.2 lock hlock).1, hnodup.sublist h.sublist, h.locks, hslots,
    fun hseq before t after hsplit htp u hu => ?_⟩
  refine (h.inOrder hseq before t after hsplit htp u hu).resolve_right fun hup => ?_
  rw [workers_of_sequential hseq] at hslots
  obtain ⟨x, rfl⟩ : ∃ x, picked = [x] := by
    apply List.length_eq_one_iff.1
    have := List.length_pos_of_mem htp
    omega
  rw [List.mem_singleton] at htp hup
  rw [hsplit, htp] at hnodup
  exact (List.nodup_append.1 hnodup).2.2 u hu x List.mem_cons_self hup

/-- The memory once a task is launched. -/
theorem disciplined_launched {f : TaskRecord → TaskRecord} {t : TaskRecord} {rest : List TaskRecord}
    (ht : mem.Tracks plan tasks w.store) (hs : Steady none mem) (hp : Picked mem (t :: rest))
    (hd : ∀ u ∈ mem.tasks, (f u).declared = u.declared)
    (hother : ∀ u ∈ mem.tasks, u.taskId ≠ t.taskId → f u = u) :
    Disciplined mem.plan (mem.tasks.map f) := by
  have htm := hp.among t List.mem_cons_self
  have hid : ∀ u ∈ mem.tasks, (f u).taskId = u.taskId := fun u hu =>
    TaskRecord.of_declared TaskRecord.taskId (hd u hu)
  have hlock : ∀ u ∈ mem.tasks, (f u).resourceLock = u.resourceLock := fun u hu =>
    TaskRecord.of_declared TaskRecord.resourceLock (hd u hu)
  constructor
  · have hids : (mem.tasks.map f).map TaskRecord.taskId = mem.tasks.map TaskRecord.taskId :=
      (sameTasks_map hd).map_eq fun _ => rfl
    have hnd : (runningIds (mem.tasks.map f)).Nodup := runningIds_nodup (hids ▸ ht.graph.nodup)
    have hsub : runningIds (mem.tasks.map f) ⊆ t.taskId :: mem.running := by
      intro id hrun
      obtain ⟨u', hu', hst, rfl⟩ := mem_runningIds.1 hrun
      obtain ⟨u, hu, rfl⟩ := List.mem_map.1 hu'
      rw [hid u hu]
      by_cases he : u.taskId = t.taskId
      · exact he ▸ List.mem_cons_self
      · rw [hother u hu he] at hst
        refine List.mem_cons_of_mem _ ((hs.running u.taskId).2 ⟨?_, by simp⟩)
        exact mem_runningIds.2 ⟨u, hu, hst, rfl⟩
    have hle := (hnd.subperm hsub).length_le
    have := hp.slots
    simp only [List.length_cons] at hle this
    omega
  · -- the lock of the new task is held by no task that runs
    have hfree {u : TaskRecord} (hu : u ∈ mem.tasks) (hne : u.taskId ≠ t.taskId)
        (hst : (f u).status = .running) {lock : String} (hl : t.resourceLock = some lock)
        (hl' : u.resourceLock = some lock) : False := by
      rw [hother u hu hne] at hst
      exact hp.free t List.mem_cons_self lock hl ((hs.locks lock).2 ⟨u, hu, hst, hl'⟩)
    intro u' hu' v' hv' hru hrv lock hlu hlv
    obtain ⟨u, hu, rfl⟩ := List.mem_map.1 hu'
    obtain ⟨v, hv, rfl⟩ := List.mem_map.1 hv'
    rw [hlock u hu] at hlu
    rw [hlock v hv] at hlv
    rw [hid u hu, hid v hv]
    by_cases hut : u.taskId = t.taskId
    · by_cases hvt : v.taskId = t.taskId
      · rw [hut, hvt]
      · rw [ht.inj hu htm hut] at hlu
        exact absurd hlv fun hlv => hfree hv hvt hrv hlu hlv
    · by_cases hvt : v.taskId = t.taskId
      · rw [ht.inj hv htm hvt] at hlv
        exact absurd hlu fun hlu => hfree hu hut hru hlv hlu
      · rw [hother u hu hut] at hru
        rw [hother v hv hvt] at hrv
        exact hs.disciplined.locks u hu v hv hru hrv lock hlu hlv

/-- The task is to be launched, and the dialect dictionary raises an exception over its command. -/
structure Unlaunchable (r : PlanRunner) (mem : PlanExecution) (t : TaskRecord) : Prop where
  among : t ∈ mem.tasks
  pending : t.status = .pending
  dependencies : DependenciesDone mem.tasks t
  raises : ¬ (decideTranslation r.translator t).isOk

theorem decideTranslation_cases (translator : ShellTranslator) (t : TaskRecord) :
    (∃ decided, decideTranslation translator t = .ok decided) ∨
      ∃ message, decideTranslation translator t = .error (.valueError message) := by
  unfold decideTranslation
  cases t.type with
  | chunkRequest => exact .inl ⟨none, rfl⟩
  | cmd =>
    cases translator.translate t.cmd with
    | ok decided => exact .inl ⟨decided, rfl⟩
    | error message => exact .inr ⟨message, rfl⟩

/-- A launch leaves what was picked beside the task ready to be launched. -/
theorem wp_launch {t : TaskRecord} {rest : List TaskRecord} {Q}
    (ht : mem.Tracks plan tasks w.store) (hs : Steady none mem) (hfl : Flowing mem.tasks)
    (hgo : ¬ mem.Over) (hp : Picked mem (t :: rest))
    (hbad : ∀ message mem', mem'.Tracks plan tasks w.store → Unlaunchable r mem' t →
      Q (.error (.valueError message)) (w, mem'))
    (h : ∀ w' mem', mem'.Tracks plan tasks w'.store → Steady none mem' → Flowing mem'.tasks →
      SameCourse mem mem' → openCount mem'.tasks ≤ openCount mem.tasks →
      mem'.running = mem.running ++ [t.taskId] → Picked mem' rest → Q (.ok ()) (w', mem')) :
    wp (planContract r plan tasks) (launch r.translator t.taskId) Q (w, mem) := by
  have htm := hp.among t List.mem_cons_self
  have hpend := hp.pending t List.mem_cons_self
  unfold launch
  rw [wp_bind, wp_mem_get, after_ok, ht.task?_of_mem htm]
  simp only [wp_bind]
  let mem₁ : PlanExecution := { mem with heldLocks := t.resourceLock.toList ++ mem.heldLocks }
  refine wp_mem_modify ht hs.disciplined rfl rfl id ?_
  have ht₁ : mem₁.Tracks plan tasks w.store := ht.of_same rfl rfl rfl rfl
  rw [after_ok, wp_ofExcept]
  obtain ⟨decided, hdecided⟩ | ⟨message, hraises⟩ := decideTranslation_cases r.translator t
  case inr =>
    rw [hraises]
    refine hbad message mem₁ ht₁ ⟨htm, hpend, hp.dependencies t List.mem_cons_self, ?_⟩
    rw [hraises]
    exact Bool.false_ne_true
  rw [hdecided, after_ok]
  refine wp_run_now fun startedAt => ?_
  rw [after_ok]
  let changes : Changes := fun u =>
    if u.taskId = t.taskId then
      some { target := .running
             fields := fun u => { u with startedAt := some startedAt, attemptCount := 1 } }
    else none
  have hsome {u : TaskRecord} {change : Change} (hc : changes u = some change) :
      u.taskId = t.taskId ∧ change.target = .running ∧ (change.fields u).declared = u.declared := by
    by_cases he : u.taskId = t.taskId
    · simp only [changes, if_pos he, Option.some.injEq] at hc
      subst hc
      exact ⟨he, rfl, rfl⟩
    · simp [changes, if_neg he] at hc
  have hkeep : changes.KeepDeclared mem.tasks := fun u _ change hc => (hsome hc).2.2
  have hother (now : Instant) : ∀ u ∈ mem.tasks, u.taskId ≠ t.taskId → changes.applied now u = u :=
    fun u _ hne => Changes.applied_none (by simp [changes, hne])
  have hdisc (now : Instant) : Disciplined mem.plan (mem.tasks.map (changes.applied now)) :=
    disciplined_launched ht hs hp (hkeep.applied now) (hother now)
  have halone : mem.plan.sequential → mem.running = [] ∧ rest = [] := by
    intro hseq
    have := hp.slots
    rw [workers_of_sequential hseq, List.length_cons] at this
    exact ⟨List.eq_nil_of_length_eq_zero (by omega), List.eq_nil_of_length_eq_zero (by omega)⟩
  have hmay : mem₁.MayLaunch t := by
    refine ⟨hgo, hp.dependencies t List.mem_cons_self, fun hseq => ?_, fun hseq before after he =>
      hp.inOrder hseq before t after he List.mem_cons_self⟩
    rw [List.eq_nil_iff_forall_not_mem]
    intro id hid
    have := (hs.running id).2 ⟨hid, by simp⟩
    rw [(halone hseq).1] at this
    exact absurd this List.not_mem_nil
  refine wp_applyChanges changes ht₁ hkeep (fun u hu change hc => ?_)
    (fun u hu change hc _ => ?_)
    hdisc fun now w₂ ht₂ => ?_
  · rw [(hsome hc).2.1, ht.inj hu htm (hsome hc).1, hpend]
    decide
  · rwa [ht.inj hu htm (hsome hc).1]
  rw [after_ok]
  refine wp_run_monotonicMs fun monotonic => ?_
  rw [after_ok]
  let f := changes.applied now
  have hdecl : ∀ u ∈ mem.tasks, (f u).declared = u.declared := hkeep.applied now
  have hother : ∀ u ∈ mem.tasks, u.taskId ≠ t.taskId → f u = u := hother now
  have hself : (f t).status = .running := by simp [f, Changes.status_applied, changes]
  have hid : ∀ u ∈ mem.tasks, (f u).taskId = u.taskId := fun u hu =>
    TaskRecord.of_declared TaskRecord.taskId (hdecl u hu)
  have hlock : ∀ u ∈ mem.tasks, (f u).resourceLock = u.resourceLock := fun u hu =>
    TaskRecord.of_declared TaskRecord.resourceLock (hdecl u hu)
  have hst : ∀ u ∈ mem.tasks, (f u).status = .running ↔ u.status = .running ∨ u.taskId = t.taskId := by
    intro u hu
    by_cases he : u.taskId = t.taskId
    · obtain rfl := ht.inj hu htm he
      simp [hself]
    · rw [hother u hu he]
      simp [he]
  have hdisc : Disciplined mem.plan (mem.tasks.map f) := hdisc now
  let mem₃ : PlanExecution :=
    { mem₁.withTasks f with
      startedMonotonic := fun id => if id = t.taskId then monotonic else mem.startedMonotonic id
      running := mem.running ++ [t.taskId] }
  have hnotrun : t.taskId ∉ mem.running := by
    intro hrun
    obtain ⟨u, hu, hru, he⟩ := mem_runningIds.1 ((hs.running t.taskId).1 hrun).1
    rw [ht.inj hu htm he, hpend] at hru
    cases hru
  refine wp_mem_modify ht₂ hdisc rfl rfl id ?_
  have ht₃ : mem₃.Tracks plan tasks w₂.store := ht₂.of_same rfl rfl rfl rfl
  have hs₃ : Steady none mem₃ := by
    refine ⟨hdisc, ?_, fun id => ?_, fun lock => ?_⟩
    · exact List.nodup_append.2 ⟨hs.nodup, List.nodup_singleton _, fun a ha b hb hab =>
        hnotrun (List.mem_singleton.1 hb ▸ hab ▸ ha)⟩
    · show id ∈ mem.running ++ [t.taskId] ↔ _
      rw [List.mem_append, List.mem_singleton, hs.running id]
      simp only [mem_runningIds, ne_eq, reduceCtorEq, not_false_eq_true, and_true]
      constructor
      · rintro (⟨u, hu, hru, rfl⟩ | rfl)
        · exact ⟨f u, List.mem_map_of_mem hu, (hst u hu).2 (.inl hru), hid u hu⟩
        · exact ⟨f t, List.mem_map_of_mem htm, hself, hid t htm⟩
      · rintro ⟨u', hu', hru, rfl⟩
        obtain ⟨u, hu, rfl⟩ := List.mem_map.1 hu'
        rw [hid u hu]
        exact ((hst u hu).1 hru).imp (fun hru => ⟨u, hu, hru, rfl⟩) fun he => he
    · show lock ∈ t.resourceLock.toList ++ mem.heldLocks ↔ _
      rw [List.mem_append, hs.locks lock, Option.mem_toList]
      constructor
      · rintro (hl | ⟨u, hu, hru, hl⟩)
        · exact ⟨f t, List.mem_map_of_mem htm, hself, (hlock t htm).trans hl⟩
        · exact ⟨f u, List.mem_map_of_mem hu, (hst u hu).2 (.inl hru), (hlock u hu).trans hl⟩
      · rintro ⟨u', hu', hru, hl⟩
        obtain ⟨u, hu, rfl⟩ := List.mem_map.1 hu'
        rw [hlock u hu] at hl
        rcases (hst u hu).1 hru with hru | he
        · exact .inr ⟨u, hu, hru, hl⟩
        · exact .inl (ht.inj hu htm he ▸ hl)
  -- the task does not complete, and nothing else changes
  have hcompleted : ∀ u ∈ mem.tasks, (f u).status = .completed → u.status = .completed := by
    intro u hu hc
    by_cases he : u.taskId = t.taskId
    · rw [ht.inj hu htm he, hself] at hc
      cases hc
    · rwa [hother u hu he] at hc
  have hsched {u : TaskRecord} (hu : u ∈ mem.tasks) (hsu : (f u).status ∈ schedulableStates) :
      f u = u := by
    refine hother u hu fun he => ?_
    rw [ht.inj hu htm he, hself] at hsu
    exact absurd hsu (by decide)
  have hfl₃ : Flowing mem₃.tasks := by
    refine ⟨fun x' hx' hsx u' hu' hmem hterm _ => ?_, fun x' hx' hwx => ?_, ?_⟩
    · obtain ⟨x, hx, rfl⟩ := List.mem_map.1 hx'
      obtain ⟨u, hu, rfl⟩ := List.mem_map.1 hu'
      have hxx := hsched hx hsx
      have huu : f u = u := by
        refine hother u hu fun he => ?_
        have hterm : (f u).status.terminal := hterm
        rw [ht.inj hu htm he, hself] at hterm
        exact absurd hterm (by decide)
      have hmem : (f u).taskId ∈ (f x).dependsOn := hmem
      have hterm : (f u).status.terminal := hterm
      rw [hxx] at hmem hsx
      rw [huu] at hmem hterm
      show (f u).status = .completed
      rw [huu]
      exact hfl.unblocked x hx hsx u hu hmem hterm id
    · obtain ⟨x, hx, rfl⟩ := List.mem_map.1 hx'
      have hwx : (f x).status = .waitingDependency := hwx
      have hxx : f x = x := hsched hx (by rw [hwx]; decide)
      apply not_dependenciesDone_map hdecl hcompleted hx
      rw [hxx] at hwx
      exact hfl.waiting x hx hwx
    · refine hfl.explained.map hdecl (fun u hu hsk => ?_) fun u hu hterm => ?_
      · have huu : f u = u := hother u hu fun he => by
          rw [ht.inj hu htm he, hself] at hsk
          cases hsk
        rw [huu] at hsk ⊢
        exact ⟨hsk, rfl⟩
      · rw [hother u hu fun he => ?_]
        rw [ht.inj hu htm he, hpend] at hterm
        exact absurd hterm (by decide)
  have hpick₃ : Picked mem₃ rest := by
    obtain ⟨hnot, hnd⟩ := List.nodup_cons.1 hp.nodup
    have hsame {u : TaskRecord} (hu : u ∈ rest) : f u = u := by
      have hum := hp.among u (List.mem_cons_of_mem _ hu)
      exact hother u hum fun he => hnot (ht.inj hum htm he ▸ hu)
    refine ⟨fun u hu => ?_, fun u hu => hp.pending u (List.mem_cons_of_mem _ hu),
      fun u hu v' hv' hd => ?_, fun u hu lock hl => ?_, hnd, (List.pairwise_cons.1 hp.locks).2, ?_,
      fun hseq before x after he hx => ?_⟩
    · rw [← hsame hu]
      exact List.mem_map_of_mem (hp.among u (List.mem_cons_of_mem _ hu))
    · obtain ⟨v, hv, rfl⟩ := List.mem_map.1 hv'
      have hd : (f v).taskId ∈ u.dependsOn := hd
      show (f v).status = .completed
      rw [hid v hv] at hd
      have hc := hp.dependencies u (List.mem_cons_of_mem _ hu) v hv hd
      rw [hother v hv fun he => ?_]
      · exact hc
      · rw [ht.inj hv htm he, hpend] at hc
        cases hc
    · show lock ∉ t.resourceLock.toList ++ mem.heldLocks
      rw [List.mem_append, Option.mem_toList]
      rintro (hl' | hl')
      · exact (List.pairwise_cons.1 hp.locks).1 u hu lock hl' hl
      · exact hp.free u (List.mem_cons_of_mem _ hu) lock hl hl'
    · show (mem.running ++ [t.taskId]).length + rest.length ≤ mem.plan.workers
      have := hp.slots
      simp only [List.length_append, List.length_cons, List.length_nil] at this ⊢
      omega
    · rw [(halone hseq).2] at hx
      exact absurd hx List.not_mem_nil
  refine h w₂ mem₃ ht₃ hs₃ hfl₃ ⟨rfl, rfl, rfl, rfl, rfl⟩ ?_ rfl hpick₃
  refine openCount_map_le fun u hu hterm => ?_
  rw [hother u hu fun he => ?_]
  · exact hterm
  · rw [ht.inj hu htm he, hpend] at hterm
    exact absurd hterm (by decide)

/-- The tasks that were picked are launched one after the other. -/
theorem wp_launches {picked : List TaskRecord} {Q} (ht : mem.Tracks plan tasks w.store)
    (hs : Steady none mem) (hfl : Flowing mem.tasks) (hgo : ¬ mem.Over) (hp : Picked mem picked)
    (hbad : ∀ t message w' mem', mem'.Tracks plan tasks w'.store → Unlaunchable r mem' t →
      Q (.error (.valueError message)) (w', mem'))
    (h : ∀ w' mem', mem'.Tracks plan tasks w'.store → Steady none mem' → Flowing mem'.tasks →
      SameCourse mem mem' → openCount mem'.tasks ≤ openCount mem.tasks →
      mem'.running = mem.running ++ picked.map TaskRecord.taskId →
      (picked = [] → mem' = mem) → Q (.ok ()) (w', mem')) :
    wp (planContract r plan tasks) (forM (picked.map TaskRecord.taskId) (launch r.translator)) Q
      (w, mem) := by
  induction picked generalizing w mem with
  | nil => exact h w mem ht hs hfl (.refl mem) (le_refl _) (by simp) fun _ => rfl
  | cons t rest ih =>
    rw [List.map_cons, List.forM_cons, wp_bind]
    refine wp_launch ht hs hfl hgo hp (hbad t · w ·) fun w₁ mem₁ ht₁ hs₁ hfl₁ hc₁ hle₁ hrun₁ hp₁ => ?_
    have hgo₁ : ¬ mem₁.Over := by
      unfold Over at hgo ⊢
      rwa [hc₁.budgetExceeded, hc₁.interrupting, hc₁.stopReason]
    refine ih ht₁ hs₁ hfl₁ hgo₁ hp₁ fun w₂ mem₂ ht₂ hs₂ hfl₂ hc₂ hle₂ hrun₂ _ =>
      h w₂ mem₂ ht₂ hs₂ hfl₂ (hc₁.trans hc₂) (hle₂.trans hle₁) ?_ fun hnil => ?_
    · rw [hrun₂, hrun₁, List.map_cons, List.append_assoc, List.singleton_append]
    · cases hnil

/-- Launching what is ready: the plan never stalls. -/
theorem wp_launchReady {Q} (ht : mem.Tracks plan tasks w.store) (hs : Steady none mem)
    (hfl : Flowing mem.tasks) (hgo : ¬ mem.Over)
    (hbad : ∀ t message w' mem', mem'.Tracks plan tasks w'.store → Unlaunchable r mem' t →
      Q (.error (.valueError message)) (w', mem'))
    (h : ∀ w' mem', mem'.Tracks plan tasks w'.store → Steady none mem' → Flowing mem'.tasks →
      SameCourse mem mem' → openCount mem'.tasks ≤ openCount mem.tasks →
      (mem'.running = [] → ∀ t ∈ mem'.tasks, t.status.terminal) → Q (.ok ()) (w', mem')) :
    wp (planContract r plan tasks) (launchReady r.translator) Q (w, mem) := by
  unfold launchReady
  rw [wp_bind, wp_mem_get, after_ok, wp_bind]
  obtain ⟨picked, hready, hp⟩ := picked_ready ht hs
  rw [hready]
  refine wp_launches ht hs hfl hgo hp hbad fun w₁ mem₁ ht₁ hs₁ hfl₁ hc₁ hle₁ hrun₁ hnil => ?_
  have hall : mem₁.running = [] → ∀ t ∈ mem₁.tasks, t.status.terminal := by
    intro hnone
    rw [hrun₁, List.append_eq_nil_iff, List.map_eq_nil_iff] at hnone
    obtain ⟨hnone, hpicked⟩ := hnone
    rw [hnil hpicked]
    intro t hmem
    by_contra ho
    apply ready_ne_nil ht hs hfl hnone ⟨t, hmem, ho⟩
    rw [hready, hpicked, List.map_nil]
  rw [after_ok, wp_bind, wp_mem_get, after_ok, wp_ite]
  refine ⟨fun hstall => ?_, fun _ => h w₁ mem₁ ht₁ hs₁ hfl₁ hc₁ hle₁ hall⟩
  obtain ⟨hnone, hopen⟩ := hstall
  exact absurd (List.filter_eq_nil_iff.2 fun t hmem => by simpa using hall hnone t hmem) hopen

/-- No task has started yet. -/
structure Fresh (mem : PlanExecution) : Prop where
  status : mem.plan.status = .pending
  pending : ∀ t ∈ mem.tasks, t.status = .pending
  running : mem.running = []
  heldLocks : mem.heldLocks = []

theorem runningIds_eq_nil {tasks : List TaskRecord} (h : ∀ t ∈ tasks, t.status ≠ .running) :
    runningIds tasks = [] := by
  unfold runningIds
  rw [List.map_eq_nil_iff, List.filter_eq_nil_iff]
  exact fun t ht => by simpa using h t ht

/-- Where no task runs and no lock is held. -/
theorem steady_idle (hrun : mem.running = []) (hheld : mem.heldLocks = [])
    (hnone : ∀ t ∈ mem.tasks, t.status ≠ .running) : Steady none mem where
  disciplined := by
    refine ⟨?_, fun t ht _ _ hr => absurd hr (hnone t ht)⟩
    rw [runningIds_eq_nil hnone]
    exact Nat.zero_le _
  nodup := by
    rw [hrun]
    exact List.nodup_nil
  running id := by
    rw [hrun, runningIds_eq_nil hnone]
    simp
  locks lock := by
    rw [hheld]
    constructor
    · exact fun h => absurd h List.not_mem_nil
    · rintro ⟨t, ht, hr, -⟩
      exact absurd hr (hnone t ht)

theorem Fresh.steady (h : Fresh mem) : Steady none mem :=
  steady_idle h.running h.heldLocks fun t ht => by rw [h.pending t ht]; decide

/-- The plan is running, and in a parallel plan every task with dependencies waits for them. -/
theorem wp_startPlan {Q} (ht : mem.Tracks plan tasks w.store) (hf : Fresh mem)
    (h : ∀ w' mem', mem'.Tracks plan tasks w'.store → Steady none mem' → Flowing mem'.tasks →
      mem'.plan.status = .running → mem'.session = mem.session → mem'.stopReason = mem.stopReason →
      mem'.interrupting = mem.interrupting → mem'.budgetExceeded = mem.budgetExceeded →
      openCount mem'.tasks ≤ openCount mem.tasks → Q (.ok ()) (w', mem')) :
    wp (planContract r plan tasks) PlanRunner.startPlan Q (w, mem) := by
  unfold PlanRunner.startPlan
  rw [wp_bind]
  refine wp_transitionPlan ht hf.steady.disciplined (by rw [hf.status]; decide)
    fun now w₁ ht₁ => ?_
  let mem₁ : PlanExecution := { mem with plan := mem.plan.moveTo mem.tasks .running none now }
  have hst₁ : mem₁.plan.status = .running := PlanRecord.status_moveTo ..
  have hs₁ : Steady none mem₁ :=
    steady_idle hf.running hf.heldLocks fun t ht => by rw [hf.pending t ht]; decide
  have hnodone : ∀ t ∈ mem.tasks, t.status ≠ .completed := fun t ht => by
    rw [hf.pending t ht]
    decide
  rw [after_ok, wp_bind, wp_mem_get, after_ok, wp_ite]
  refine ⟨fun _ => ?_, fun _ => ?_⟩
  · let changes : Changes := fun t =>
      if t.dependsOn ≠ [] then some { target := .waitingDependency } else none
    have hsome {t : TaskRecord} {change : Change} (hc : changes t = some change) :
        t.dependsOn ≠ [] ∧ change = { target := .waitingDependency } := by
      by_cases hdeps : t.dependsOn ≠ []
      · simp only [changes, if_pos hdeps, Option.some.injEq] at hc
        exact ⟨hdeps, hc.symm⟩
      · simp only [changes, if_neg hdeps, reduceCtorEq] at hc
    have hkeep : changes.KeepDeclared mem₁.tasks := fun t _ change hc => by rw [(hsome hc).2]; rfl
    refine wp_applyChanges_fewer changes ht₁ hs₁.disciplined hkeep
      (fun t hmem change hc => ?_) (fun t _ change hc => ?_) fun at_ w₂ ht₂ _ => ?_
    · rw [(hsome hc).2, hf.pending t hmem]
      exact (by decide : canTransition taskTransitions TaskState.pending .waitingDependency = true)
    · rw [(hsome hc).2]
      exact (by decide : TaskState.waitingDependency ≠ .running)
    let f := changes.applied at_
    have hdecl : ∀ t ∈ mem.tasks, (f t).declared = t.declared := hkeep.applied at_
    -- a task waits if it depends on another one, and is pending otherwise
    have hst : ∀ t ∈ mem.tasks, (f t).status = .pending ∨
        (f t).status = .waitingDependency ∧ t.dependsOn ≠ [] := by
      intro t hmem
      by_cases hdeps : t.dependsOn ≠ []
      · exact .inr ⟨by simp [f, Changes.status_applied, changes, hdeps], hdeps⟩
      · left
        rw [show f t = t from Changes.applied_none (by simp [changes, hdeps])]
        exact hf.pending t hmem
    have hopen : ∀ t ∈ mem.tasks, (f t).status ≠ .completed ∧ (f t).status ≠ .running ∧
        ¬ (f t).status.terminal := by
      intro t hmem
      rcases hst t hmem with he | ⟨he, -⟩ <;> rw [he] <;> decide
    have hs₂ : Steady none (mem₁.withTasks f) := by
      refine steady_idle hf.running hf.heldLocks fun t' ht' => ?_
      obtain ⟨t, hmem, rfl⟩ := List.mem_map.1 ht'
      exact (hopen t hmem).2.1
    refine h w₂ _ ht₂ hs₂ ⟨fun _ _ _ u' hu' _ hterm _ => ?_, fun x' hx' hw => ?_,
      fun x' hx' hsk => ?_⟩ hst₁ rfl rfl rfl rfl (openCount_map_le fun t hmem hterm => ?_)
    · obtain ⟨u, hu, rfl⟩ := List.mem_map.1 hu'
      exact absurd hterm (hopen u hu).2.2
    · obtain ⟨x, hx, rfl⟩ := List.mem_map.1 hx'
      have hw : (f x).status = .waitingDependency := hw
      apply not_dependenciesDone_map hdecl (fun u hu hc => absurd hc (hopen u hu).1) hx
      intro hdone
      rcases hst x hx with he | ⟨-, hdeps⟩
      · rw [he] at hw
        cases hw
      · obtain ⟨d, hd⟩ := List.exists_mem_of_ne_nil _ hdeps
        obtain ⟨u, hu, hid⟩ := List.mem_map.1 (ht.graph.known x hx d hd)
        exact hnodone u hu (hdone u hu (hid ▸ hd))
    · obtain ⟨x, hx, rfl⟩ := List.mem_map.1 hx'
      have hsk : (f x).status = .skipped := hsk
      apply absurd _ (hopen x hx).2.2
      rw [hsk]
      decide
    · rw [hf.pending t hmem] at hterm
      exact absurd hterm (by decide)
  · refine h w₁ mem₁ ht₁ hs₁ ⟨fun _ _ _ u hu _ hterm _ => ?_, fun x hx hw => ?_,
      fun x hx hsk => ?_⟩ hst₁ rfl rfl rfl rfl (le_refl _)
    · rw [hf.pending u hu] at hterm
      exact absurd hterm (by decide)
    · rw [hf.pending x hx] at hw
      cases hw
    · rw [hf.pending x hx] at hsk
      cases hsk

end Rules

end AgenticLocalApp
