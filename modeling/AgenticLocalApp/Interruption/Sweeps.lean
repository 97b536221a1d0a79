import AgenticLocalApp.Interruption.SweepRules
import AgenticLocalApp.Orchestration.CrashRecovery

/-!
# The sweep settles a session

After a sweep nothing of the current conversation is under way, nor of a parent that was rotating
into it, and a second sweep writes nothing.
-/

namespace AgenticLocalApp

open Prog

namespace Interruption

variable {reason : String} {scope : List ConversationRecord} {w : World}

theorem canTransition_task {status : TaskState} (h : status ∈ interruptibleTaskStates) :
    canTransition taskTransitions status .interrupted := by
  cases status <;> first | rfl | exact absurd h (by decide)

theorem canTransition_plan {status : PlanState} (h : status ∈ openPlanStates) :
    canTransition planTransitions status .interrupted := by
  cases status <;> first | rfl | exact absurd h (by decide)

theorem interrupted_notMem_tasks : TaskState.interrupted ∉ interruptibleTaskStates := by decide

theorem interrupted_notMem_plans : PlanState.interrupted ∉ openPlanStates := by decide

/-! ## Plans -/

section Plans

variable {c : ConversationRecord} {plan : PlanRecord}

theorem interruptTasks_spec (hc : c ∈ scope) (hs : plan.sessionId = c.sessionId)
    (hcur : c.currentPlanId = some plan.planId) :
    wp (quietly (Swept reason scope))
      (interruptTasks reason (w.store.listTasks plan.sessionId plan.planId))
      (returns fun _ w' => (∃ tasks, w' = { w with store := { w.store with tasks := tasks } }) ∧
        Swept reason scope w.store w'.store ∧ TasksOver w'.store plan) w := by
  unfold interruptTasks
  let I (rest : List TaskRecord) (w' : World) : Prop :=
    (∃ tasks, w' = { w with store := { w.store with tasks := tasks } }) ∧
      Swept reason scope w.store w'.store ∧
      w'.store.tasks.ToDo rest (fun t => t.sessionId = plan.sessionId ∧ t.planId = plan.planId ∧
        t.status ∈ interruptibleTaskStates) ∧
      ∀ t ∈ rest, t.sessionId = plan.sessionId ∧ t.planId = plan.planId
  have step : ∀ task rest w', I (task :: rest) w' →
      wp (quietly (Swept reason scope))
        (if task.status ∈ interruptibleTaskStates then interruptTask reason task else pure ())
        (returns fun _ => I rest) w' := by
    rintro task rest w' ⟨⟨tasks, rfl⟩, hswept, htodo, hof⟩
    have hof' : ∀ t ∈ rest, t.sessionId = plan.sessionId ∧ t.planId = plan.planId :=
      fun t ht => hof t (List.mem_cons_of_mem _ ht)
    obtain ⟨hsession, hplan⟩ := hof task List.mem_cons_self
    rw [wp_ite]
    refine ⟨fun ho => ?_, fun ho => ?_⟩
    · unfold interruptTask
      rw [wp_bind]
      refine wp_checkTransition (canTransition_task ho) ?_
      rw [after_ok, wp_bind]
      refine wp_now (quiet_quietly _) fun now => ?_
      rw [after_ok, wp_writeStore]
      have hone := Swept.saveTask reason htodo.head hc (hsession.trans hs)
        (hplan ▸ hcur) ho now
      refine ⟨⟨hone, rfl⟩, ⟨_, rfl⟩, hswept.trans hone, ?_, hof'⟩
      refine htodo.save rfl fun h => ?_
      exact interrupted_notMem_tasks h.2.2
    · exact ⟨⟨tasks, rfl⟩, hswept, htodo.skip fun h => ho h.2.2, hof'⟩
  have init : I (w.store.listTasks plan.sessionId plan.planId) w := by
    refine ⟨⟨_, rfl⟩, .refl _ _ _, .of_perm_filter (List.perm_insertionSort _ _) ?_, fun t ht => ?_⟩
    · intro t _ ht
      simp [ht.1, ht.2.1]
    · exact (Store.mem_listTasks.1 ht).2
  refine wp_mono (wp_forM step init) ?_
  rintro (e | _) w' h
  · exact h
  · obtain ⟨hframe, hswept, htodo, -⟩ := h
    exact ⟨hframe, hswept, fun t ht hts htp hto => htodo.done ht ⟨hts, htp, hto⟩⟩

/-- What `closePlan` leaves of the plan that the conversation points to. -/
structure PlanClosed (c : ConversationRecord) (plan : PlanRecord) (σ σ' : Store)
    (closed : PlanRecord) : Prop where
  current : currentPlan σ' c = some closed
  status : closed.status ∉ openPlanStates
  same : closed.sessionId = plan.sessionId ∧ closed.planId = plan.planId
  noTask : plan.status ∈ openPlanStates → TasksOver σ' plan

theorem closePlan_spec (hc : c ∈ scope) (hp : currentPlan w.store c = some plan) :
    wp (quietly (Swept reason scope)) (closePlan reason plan)
      (returns fun closed w' => w' = { w with store := w'.store } ∧
        Swept reason scope w.store w'.store ∧ PlanClosed c plan w.store w'.store closed) w := by
  obtain ⟨planId, hid, hfind⟩ := Option.bind_eq_some_iff.1 hp
  have hkey : (plan.sessionId, plan.planId) = (c.sessionId, planId) := Table.key_of_find hfind
  rw [Prod.mk.injEq] at hkey
  obtain ⟨hs, rfl⟩ := hkey
  unfold closePlan
  rw [wp_ite]
  refine ⟨fun ho => ?_, fun ho => ?_⟩
  · simp only [wp_bind, wp_readStore, after_ok]
    refine wp_mono (interruptTasks_spec hc hs hid) ?_
    rintro (e | _) w' h
    · exact h
    · obtain ⟨⟨tasks, rfl⟩, hswept, hover⟩ := h
      have hmem : plan ∈ w.store.plans.rows := Table.mem_of_find hfind
      unfold interruptPlan
      rw [after_ok, wp_bind]
      refine wp_checkTransition (canTransition_plan ho) ?_
      rw [after_ok, wp_bind]
      refine wp_now (quiet_quietly _) fun now => ?_
      simp only [after_ok, wp_bind, wp_readStore, wp_writeStore, wp_pure]
      generalize Store.listTasks _ plan.sessionId plan.planId = listed
      have hone := Swept.savePlan reason (σ := { w.store with tasks := tasks })
        hmem hc hs hid ho listed now
      refine ⟨⟨hone, rfl⟩, trivial, hswept.trans hone, ?_⟩
      refine ⟨?_, interrupted_notMem_plans, ⟨rfl, rfl⟩, fun _ => hover⟩
      refine Option.bind_eq_some_iff.2 ⟨plan.planId, hid, ?_⟩
      have hself := Table.find_save_self w.store.plans (interruptedPlan reason plan listed now)
      have hkey : Keyed.key (interruptedPlan reason plan listed now) = (c.sessionId, plan.planId) :=
        congrArg (·, plan.planId) hs
      rw [hkey] at hself
      exact hself
  · exact ⟨rfl, .refl _ _ _, hp, ho, ⟨rfl, rfl⟩, fun h => absurd h ho⟩

/-- What the sweep reports of the plan: its identifier when it is interrupted, and its tasks that
are, in the order of the plan. -/
def planReport (σ : Store) (c : ConversationRecord) : Option String × List String :=
  match currentPlan σ c with
  | none => (none, [])
  | some plan =>
    if plan.status = .interrupted then
      (some plan.planId, ((σ.listTasks plan.sessionId plan.planId).filter fun task =>
        task.status = .interrupted).map TaskRecord.taskId)
    else (none, [])

theorem sweepPlan_spec (hc : c ∈ scope) :
    wp (quietly (Swept reason scope)) (sweepPlan reason c)
      (returns fun report w' => w' = { w with store := w'.store } ∧
        Swept reason scope w.store w'.store ∧ report = planReport w'.store c ∧
        (∀ p, currentPlan w'.store c = some p → p.status ∉ openPlanStates) ∧
        ∀ p, currentPlan w.store c = some p → p.status ∈ openPlanStates → TasksOver w'.store p)
      w := by
  unfold sweepPlan
  simp only [wp_bind, wp_readStore, after_ok]
  cases hp : currentPlan w.store c with
  | none =>
    refine ⟨rfl, .refl _ _ _, ?_, fun p h => ?_, fun p h => ?_⟩
    · unfold planReport
      rw [hp]
    · rw [hp] at h
      cases h
    · cases h
  | some plan =>
    simp only [wp_bind]
    refine wp_mono (closePlan_spec hc hp) ?_
    rintro (e | closed) w' h
    · exact h
    · obtain ⟨hw, hswept, hclosed⟩ := h
      have hover : ∀ p, some plan = some p → p.status ∈ openPlanStates → TasksOver w'.store p := by
        intro p hpp ho
        obtain rfl := Option.some.inj hpp
        exact hclosed.noTask ho
      have hstatus : ∀ p, currentPlan w'.store c = some p → p.status ∉ openPlanStates := by
        intro p hpp
        rw [hclosed.current] at hpp
        obtain rfl := Option.some.inj hpp
        exact hclosed.status
      simp only [after_ok, wp_bind, wp_ite, wp_pure, wp_readStore]
      refine ⟨fun hn => ?_, fun hi => ?_⟩
      · refine ⟨hw, hswept, ?_, hstatus, hover⟩
        unfold planReport
        rw [hclosed.current]
        exact (if_neg hn).symm
      · refine ⟨hw, hswept, ?_, hstatus, hover⟩
        unfold planReport
        rw [hclosed.current]
        exact (if_pos (not_not.1 hi)).symm

end Plans

/-! ## Cycles and conversations -/

section Others

variable {c : ConversationRecord}

def cycleReport (σ : Store) (c : ConversationRecord) : Option String :=
  match currentCycle σ c with
  | none => none
  | some cycle => if cycle.status = .interrupted then some cycle.cycleId else none

theorem sweepCycle_spec (hc : c ∈ scope) :
    wp (quietly (Swept reason scope)) (sweepCycle c)
      (returns fun report w' =>
        (∃ cycles, w' = { w with store := { w.store with cycles := cycles } }) ∧
        Swept reason scope w.store w'.store ∧ report = cycleReport w'.store c ∧
        ∀ y, currentCycle w'.store c = some y → y.status ≠ .running) w := by
  unfold sweepCycle
  simp only [wp_bind, wp_readStore, after_ok]
  cases hy : currentCycle w.store c with
  | none =>
    refine ⟨⟨_, rfl⟩, .refl _ _ _, ?_, fun y h => ?_⟩
    · unfold cycleReport
      rw [hy]
    · rw [hy] at h
      cases h
  | some cycle =>
    obtain ⟨cycleId, hid, hfind⟩ := Option.bind_eq_some_iff.1 hy
    obtain rfl : cycle.cycleId = cycleId := Table.key_of_find hfind
    simp only [wp_bind, wp_ite, wp_pure]
    refine ⟨fun hrun => ?_, fun hrun => ?_⟩
    · unfold interruptCycle
      rw [wp_bind]
      refine wp_checkTransition (by rw [hrun]; rfl) ?_
      rw [after_ok, wp_bind]
      refine wp_now (quiet_quietly _) fun now => ?_
      simp only [after_ok, wp_bind, wp_writeStore, wp_pure]
      have hone := Swept.saveCycle reason (Table.mem_of_find hfind) hc hid hrun now
      have hcur : currentCycle (w.store.saveCycle (Recovery.interruptedCycle cycle now)) c =
          some (Recovery.interruptedCycle cycle now) :=
        Option.bind_eq_some_iff.2 ⟨cycle.cycleId, hid, Table.find_save_self _ _⟩
      refine ⟨⟨hone, rfl⟩, ⟨_, rfl⟩, hone, ?_, fun y h => ?_⟩
      · unfold cycleReport
        rw [hcur]
      · rw [hcur] at h
        obtain rfl := Option.some.inj h
        exact CycleState.noConfusion
    · refine ⟨⟨_, rfl⟩, .refl _ _ _, ?_, fun y h => ?_⟩
      · unfold cycleReport
        rw [hy]
      · rw [hy] at h
        obtain rfl := Option.some.inj h
        exact hrun

theorem sweepConversation_spec (hc : c ∈ scope) :
    wp (quietly (Swept reason scope)) (sweepConversation c)
      (returns fun swept w' =>
        (∃ conversations,
          w' = { w with store := { w.store with conversations := conversations } }) ∧
        Swept reason scope w.store w'.store ∧
        (∀ v ∈ swept,
          w'.store.getConversation c.conversationId = some v ∧ v.status = .interrupted) ∧
        ∀ v, w'.store.getConversation c.conversationId = some v →
          v.status ∉ activeConversationStates) w := by
  unfold sweepConversation
  simp only [wp_bind, wp_readStore, after_ok]
  cases hv : w.store.getConversation c.conversationId with
  | none =>
    refine ⟨⟨_, rfl⟩, .refl _ _ _, ?_, ?_⟩
    · intro v h
      cases h
    · intro v h
      rw [hv] at h
      cases h
  | some fresh =>
    have hid : fresh.conversationId = c.conversationId := Table.key_of_find hv
    simp only [wp_ite, wp_bind, wp_pure]
    refine ⟨fun hn => ?_, fun ha => ?_⟩
    · refine ⟨⟨_, rfl⟩, .refl _ _ _, ?_, ?_⟩
      · intro v h
        cases h
      · intro v h
        rw [hv] at h
        obtain rfl := Option.some.inj h
        exact hn
    · rw [not_not] at ha
      refine wp_interruptConversation (quiet_quietly _) (hid ▸ hv) ha fun now => ?_
      have hone := Swept.saveConversation reason (Table.mem_of_find hv) hc hid ha now
      have hkey : (fresh.moveTo .interrupted now).conversationId = c.conversationId :=
        (Recovery.sameConversation_moveTo fresh _ _).key.trans hid
      have hnow : (w.store.saveConversation (fresh.moveTo .interrupted now)).getConversation
          c.conversationId = some (fresh.moveTo .interrupted now) := by
        have hself := Table.find_save_self w.store.conversations (fresh.moveTo .interrupted now)
        rwa [show Keyed.key (fresh.moveTo .interrupted now) = c.conversationId from hkey] at hself
      refine ⟨⟨hone, rfl⟩, ⟨_, rfl⟩, hone, fun v h => ?_, fun v h => ?_⟩
      · obtain rfl := Option.some.inj h
        exact ⟨hnow, Recovery.moveTo_status _ _ _⟩
      · rw [hnow] at h
        obtain rfl := Option.some.inj h
        rw [Recovery.moveTo_status]
        decide

/-- One conversation of the scope is settled, and what is reported of it is so. -/
structure OneSwept (reason : String) (scope : List ConversationRecord) (c : ConversationRecord)
    (σ σ' : Store)
    (report : (Option String × List String) × Option String × Option ConversationRecord) :
    Prop where
  swept : Swept reason scope σ σ'
  settled : Settled σ' c
  noTask : ∀ p, currentPlan σ c = some p → p.status ∈ openPlanStates → TasksOver σ' p
  plan : report.1 = planReport σ' c
  cycle : report.2.1 = cycleReport σ' c
  interrupted : ∀ v ∈ report.2.2, σ'.getConversation c.conversationId = some v ∧
    v.status = .interrupted

theorem sweepOne_spec (reason : String) (hc : c ∈ scope) :
    wp (quietly (Swept reason scope)) (sweepOne reason c)
      (returns fun report w' => w' = { w with store := w'.store } ∧
        OneSwept reason scope c w.store w'.store report) w := by
  unfold sweepOne
  rw [wp_bind]
  refine wp_mono (sweepPlan_spec hc) ?_
  rintro (e | plan) w₁ h
  · exact h
  obtain ⟨hw₁, hs₁, hplan, hclosed, hover⟩ := h
  rw [after_ok, wp_bind]
  refine wp_mono (sweepCycle_spec hc) ?_
  rintro (e | cycle) w₂ h
  · exact h
  obtain ⟨⟨cycles, rfl⟩, hs₂, hcycle, hstopped⟩ := h
  rw [after_ok, wp_bind]
  refine wp_mono (sweepConversation_spec hc) ?_
  rintro (e | swept) w₃ h
  · exact h
  obtain ⟨⟨conversations, rfl⟩, hs₃, hswept, hinactive⟩ := h
  rw [after_ok, wp_pure]
  refine ⟨by rw [hw₁], (hs₁.trans hs₂).trans hs₃, ⟨hclosed, hstopped, hinactive⟩, ?_, hplan, hcycle,
    hswept⟩
  exact fun p hp ho => (hover p hp ho).swept (hs₂.trans hs₃)

end Others

/-! ## The session -/

section Session

variable {σ σ' : Store} {session : SessionRecord} {c : ConversationRecord}

/-- The conversations that a sweep of the session is about. -/
def scopeOf (σ : Store) (session : SessionRecord) : List ConversationRecord :=
  (currentConversation σ session).toList ++
    ((currentConversation σ session).bind (rotatingParent σ)).toList

/-- Nothing of the session is under way. -/
def Over (σ : Store) (session : SessionRecord) : Prop :=
  ∀ c, currentConversation σ session = some c → Settled σ c ∧ rotatingParent σ c = none

theorem rotatingParent_eq_some {p : ConversationRecord} : rotatingParent σ c = some p ↔
    (∃ id, c.parentConversationId = some id ∧ σ.getConversation id = some p) ∧
      p.status = .rotating := by
  simp [rotatingParent, Option.filter_eq_some_iff, Option.bind_eq_some_iff]

/-- A parent that still rotates after a sweep did so before, and has not changed. -/
theorem rotatingParent_of_swept (h : Swept reason scope σ σ') {p : ConversationRecord}
    (hp : rotatingParent σ' c = some p) : rotatingParent σ c = some p := by
  obtain ⟨⟨id, hid, hfind⟩, hrot⟩ := rotatingParent_eq_some.1 hp
  obtain ⟨q, hq, rfl | hswept⟩ := h.conversations.find_of (fun x y hxy => hxy.key) hfind
  · exact rotatingParent_eq_some.2 ⟨⟨id, hid, hq⟩, hrot⟩
  · rw [hswept.status] at hrot
    cases hrot

theorem not_rotating_of_settled {p : ConversationRecord}
    (hp : σ.getConversation p.conversationId = some p) (h : Settled σ p) :
    p.status ≠ .rotating := by
  intro hrot
  have hinactive := h.conversation p hp
  rw [hrot] at hinactive
  exact hinactive (by decide)

/-- `c'` is `c` in another state: it points to the same plan, cycle and parent. -/
theorem Settled.of_moved {c' : ConversationRecord} (h : Settled σ c)
    (hmoved : c' = c ∨ ConversationSwept scope c c') :
    Settled σ c' ∧ c'.parentConversationId = c.parentConversationId := by
  rcases hmoved with rfl | ⟨-, -, now, rfl⟩
  · exact ⟨h, rfl⟩
  · exact ⟨⟨h.plan, h.cycle, h.conversation⟩, rfl⟩

theorem over_of_swept (h : Swept reason scope σ σ')
    (hall : ∀ c ∈ scopeOf σ session, Settled σ' c) : Over σ' session := by
  intro c' hc'
  obtain ⟨cid, hid, hfind⟩ := Option.bind_eq_some_iff.1 hc'
  obtain ⟨c, hc, hmoved⟩ := h.conversations.find_of (fun x y hxy => hxy.key) hfind
  have hcurrent : currentConversation σ session = some c := Option.bind_eq_some_iff.2 ⟨cid, hid, hc⟩
  have hmem : c ∈ scopeOf σ session := by simp [scopeOf, hcurrent]
  obtain ⟨hsettled, hparent⟩ := (hall c hmem).of_moved hmoved
  refine ⟨hsettled, ?_⟩
  cases hp : rotatingParent σ' c' with
  | none => rfl
  | some p =>
    obtain ⟨⟨id, hpid, hpfind⟩, hrot⟩ := rotatingParent_eq_some.1 hp
    have hp' : rotatingParent σ' c = some p :=
      rotatingParent_eq_some.2 ⟨⟨id, hparent ▸ hpid, hpfind⟩, hrot⟩
    have hpmem : p ∈ scopeOf σ session := by
      simp [scopeOf, hcurrent, rotatingParent_of_swept h hp']
    have hpkey : p.conversationId = id := Table.key_of_find hpfind
    exact absurd hrot (not_rotating_of_settled (hpkey ▸ hpfind) (hall p hpmem))

/-- What a sweep of the session leaves, and reports. -/
structure SessionSwept (reason : String) (session : SessionRecord) (σ σ' : Store) (found : Sweep) :
    Prop where
  swept : Swept reason (scopeOf σ session) σ σ'
  settled : ∀ c ∈ scopeOf σ session, Settled σ' c
  noTask : ∀ c ∈ scopeOf σ session, ∀ p, currentPlan σ c = some p → p.status ∈ openPlanStates →
    TasksOver σ' p
  conversation : found.conversationId = session.currentConversationId
  reported : ∀ c, currentConversation σ session = some c → ∃ σ₁, Swept reason [c] σ σ₁ ∧
    Swept reason (rotatingParent σ c).toList σ₁ σ' ∧
      (found.planId, found.interruptedTaskIds) = planReport σ₁ c ∧ found.cycleId = cycleReport σ₁ c
  interrupted : ∀ v ∈ found.interrupted, v.status = .interrupted ∧
    ∃ c ∈ scopeOf σ session, σ'.getConversation c.conversationId = some v

/-- An interrupted conversation is found as it is after a sweep. -/
theorem getConversation_of_swept (h : Swept reason scope σ σ') {cid : String}
    {v : ConversationRecord} (hv : σ.getConversation cid = some v) (hi : v.status = .interrupted) :
    σ'.getConversation cid = some v := by
  obtain ⟨u, hu, rfl | hswept⟩ := h.conversations.of_find (fun x y hxy => hxy.key) hv
  · exact hu
  · have hactive := hswept.2.1
    rw [hi] at hactive
    exact absurd hactive (by decide)

theorem scopeOf_eq (hc : currentConversation σ session = some c) :
    scopeOf σ session = c :: (rotatingParent σ c).toList := by
  simp [scopeOf, hc]

/-- A parent that rotates only until the conversation is swept is the conversation itself. -/
theorem eq_of_rotatingParent (h : Swept reason [c] σ σ')
    (hc : currentConversation σ session = some c) (hafter : rotatingParent σ' c = none)
    {p : ConversationRecord} (hp : rotatingParent σ c = some p) : p = c := by
  obtain ⟨⟨id, hid, hfind⟩, hrot⟩ := rotatingParent_eq_some.1 hp
  obtain ⟨q, hq, rfl | hswept⟩ := h.conversations.of_find (fun x y hxy => hxy.key) hfind
  · have hsome : rotatingParent σ' c = some q := rotatingParent_eq_some.2 ⟨⟨id, hid, hq⟩, hrot⟩
    rw [hafter] at hsome
    cases hsome
  · obtain ⟨⟨d, hd, hkey⟩, -⟩ := hswept
    obtain rfl := List.mem_singleton.1 hd
    obtain ⟨cid, hcid, hcfind⟩ := Option.bind_eq_some_iff.1 hc
    exact Table.key_inj (Table.mem_of_find hfind) (Table.mem_of_find hcfind) hkey

section Parts

variable {σ₁ : Store} {parent : ConversationRecord}
  {report report' : (Option String × List String) × Option String × Option ConversationRecord}

/-- What a sweep reports of the conversation. -/
def reportOf (session : SessionRecord)
    (report : (Option String × List String) × Option String × Option ConversationRecord) :
    Sweep where
  conversationId := session.currentConversationId
  planId := report.1.1
  cycleId := report.2.1
  interruptedTaskIds := report.1.2
  interrupted := report.2.2.toList

/-- Only the conversation is swept. -/
theorem OneSwept.alone (h : OneSwept reason [c] c σ σ' report)
    (hc : currentConversation σ session = some c) (hafter : rotatingParent σ' c = none) :
    SessionSwept reason session σ σ' (reportOf session report) := by
  have hin : ∀ d ∈ [c], d ∈ scopeOf σ session := by simp [scopeOf_eq hc]
  have hall : ∀ d ∈ scopeOf σ session, d = c := by
    intro d hd
    rw [scopeOf_eq hc, List.mem_cons, Option.mem_toList] at hd
    rcases hd with rfl | hd
    · rfl
    · exact eq_of_rotatingParent h.swept hc hafter hd
  refine ⟨h.swept.mono hin, ?_, ?_, rfl, ?_, ?_⟩
  · intro d hd
    rw [hall d hd]
    exact h.settled
  · intro d hd
    rw [hall d hd]
    exact h.noTask
  · intro d hd
    obtain rfl := Option.some.inj (hd.symm.trans hc)
    exact ⟨σ', h.swept, .refl _ _ _, h.plan, h.cycle⟩
  · intro v hv
    obtain ⟨hfind, hi⟩ := h.interrupted v (Option.mem_toList.1 hv)
    exact ⟨hi, c, hin c (List.mem_singleton.2 rfl), hfind⟩

/-- The plan of the parent is as it was, or it is that of the conversation. -/
theorem OneSwept.noTask_parent (h : OneSwept reason [c] c σ σ₁ report)
    (h' : OneSwept reason [parent] parent σ₁ σ' report') {p : PlanRecord}
    (hp : currentPlan σ parent = some p) (ho : p.status ∈ openPlanStates) : TasksOver σ' p := by
  obtain ⟨planId, hid, hfind⟩ := Option.bind_eq_some_iff.1 hp
  obtain ⟨q, hq, rfl | hswept⟩ := h.swept.plans.of_find (fun x y hxy => hxy.key) hfind
  · exact h'.noTask q (Option.bind_eq_some_iff.2 ⟨planId, hid, hq⟩) ho
  · obtain ⟨⟨d, hd, hses, hcur⟩, -⟩ := hswept
    obtain rfl := List.mem_singleton.1 hd
    have hplan : currentPlan σ d = some p := by
      refine Option.bind_eq_some_iff.2 ⟨p.planId, hcur, ?_⟩
      rw [← hses]
      exact Table.find_of_mem (Table.mem_of_find hfind)
    exact (h.noTask p hplan ho).swept h'.swept

/-- The conversation is swept, and then its parent. -/
theorem OneSwept.withParent (h : OneSwept reason [c] c σ σ₁ report)
    (hc : currentConversation σ session = some c) (hparent : rotatingParent σ₁ c = some parent)
    (h' : OneSwept reason [parent] parent σ₁ σ' report') :
    SessionSwept reason session σ σ' { reportOf session report with
      interrupted := report.2.2.toList ++ report'.2.2.toList } := by
  have hbefore := rotatingParent_of_swept h.swept hparent
  have hscope : scopeOf σ session = [c, parent] := by
    rw [scopeOf_eq hc, hbefore]
    rfl
  have hfirst : ∀ d ∈ [c], d ∈ scopeOf σ session := by simp [hscope]
  have hsecond : ∀ d ∈ [parent], d ∈ scopeOf σ session := by simp [hscope]
  refine ⟨(h.swept.mono hfirst).trans (h'.swept.mono hsecond), ?_, ?_, rfl, ?_, ?_⟩
  · intro d hd
    rw [hscope, List.mem_pair] at hd
    rcases hd with rfl | rfl
    · exact h.settled.swept h'.swept
    · exact h'.settled
  · intro d hd p hp ho
    rw [hscope, List.mem_pair] at hd
    rcases hd with rfl | rfl
    · exact (h.noTask p hp ho).swept h'.swept
    · exact h.noTask_parent h' hp ho
  · intro d hd
    obtain rfl := Option.some.inj (hd.symm.trans hc)
    refine ⟨σ₁, h.swept, ?_, h.plan, h.cycle⟩
    rw [hbefore]
    exact h'.swept
  · intro v hv
    rcases List.mem_append.1 hv with hv | hv
    · obtain ⟨hfind, hi⟩ := h.interrupted v (Option.mem_toList.1 hv)
      exact ⟨hi, c, hfirst c (List.mem_singleton.2 rfl),
        getConversation_of_swept h'.swept hfind hi⟩
    · obtain ⟨hfind, hi⟩ := h'.interrupted v (Option.mem_toList.1 hv)
      exact ⟨hi, parent, hsecond parent (List.mem_singleton.2 rfl), hfind⟩

end Parts

/-- The sweep never raises of a session that is there; nothing of its conversation is under way
afterwards, nor of a parent that was rotating into it. -/
theorem sweep_spec (reason : String) {sid : String} (hs : w.store.getSession sid = some session) :
    wp (quietly (Swept reason (scopeOf w.store session))) (sweep sid reason)
      (returns fun found w' => w' = { w with store := w'.store } ∧
        SessionSwept reason session w.store w'.store found) w := by
  unfold sweep
  rw [wp_bind]
  refine wp_requireSession hs ?_
  simp only [after_ok, wp_bind, wp_readStore]
  cases hc : currentConversation w.store session with
  | none =>
    have hscope : scopeOf w.store session = [] := by simp [scopeOf, hc]
    refine ⟨rfl, .refl _ _ _, ?_, ?_, rfl, ?_, ?_⟩
    · rw [hscope]
      exact List.forall_mem_nil _
    · rw [hscope]
      exact List.forall_mem_nil _
    · intro c h
      cases h.symm.trans hc
    · exact List.forall_mem_nil _
  | some c =>
    have hin : ∀ d ∈ [c], d ∈ scopeOf w.store session := by simp [scopeOf_eq hc]
    have hone := sweepOne_spec reason (w := w) (List.mem_singleton.2 rfl : c ∈ [c])
    simp only [wp_bind]
    refine wp_mono (wp_weaker (quietly_weaker fun σ σ' h => h.mono hin) hone) ?_
    rintro (e | report) w₁ h
    · exact h
    obtain ⟨hw₁, h₁⟩ := h
    rw [after_ok, wp_readStore, after_ok]
    cases hp : rotatingParent w₁.store c with
    | none => exact ⟨hw₁, h₁.alone hc hp⟩
    | some parent =>
      have hparent := rotatingParent_of_swept h₁.swept hp
      have hin' : ∀ d ∈ [parent], d ∈ scopeOf w.store session := by simp [scopeOf_eq hc, hparent]
      have htwo := sweepOne_spec reason (w := w₁)
        (List.mem_singleton.2 rfl : parent ∈ [parent])
      simp only [sweepParent, wp_bind]
      refine wp_mono (wp_weaker (quietly_weaker fun σ σ' h => h.mono hin') htwo) ?_
      rintro (e | report') w₂ h
      · exact h
      obtain ⟨hw₂, h₂⟩ := h
      rw [after_ok, wp_pure]
      exact ⟨by rw [hw₂, hw₁], h₁.withParent hc hp h₂⟩

theorem sweepPlan_over (reason : String) (h : Settled w.store c) :
    wp (quietly fun _ _ => False) (sweepPlan reason c) (returns fun _ w' => w' = w) w := by
  unfold sweepPlan
  simp only [wp_bind, wp_readStore, after_ok]
  cases hp : currentPlan w.store c with
  | none => exact rfl
  | some plan =>
    have hclosed := h.plan plan hp
    simp only [wp_bind, closePlan, if_neg hclosed, wp_pure, after_ok, wp_ite, wp_readStore]
    exact ⟨fun _ => trivial, fun _ => trivial⟩

theorem sweepCycle_over (h : Settled w.store c) :
    wp (quietly fun _ _ => False) (sweepCycle c) (returns fun _ w' => w' = w) w := by
  unfold sweepCycle
  simp only [wp_bind, wp_readStore, after_ok]
  cases hy : currentCycle w.store c with
  | none => exact rfl
  | some cycle =>
    have hstopped := h.cycle cycle hy
    simp only [wp_bind, if_neg hstopped, wp_pure, after_ok]

theorem sweepConversation_over (h : Settled w.store c) :
    wp (quietly fun _ _ => False) (sweepConversation c)
      (returns fun swept w' => w' = w ∧ swept = none) w := by
  unfold sweepConversation
  simp only [wp_bind, wp_readStore, after_ok]
  cases hv : w.store.getConversation c.conversationId with
  | none => exact ⟨rfl, rfl⟩
  | some fresh =>
    have hinactive := h.conversation fresh hv
    simp only [if_pos hinactive, wp_pure, after_ok, and_self]

/-- A sweep of a session that is over writes nothing. -/
theorem sweep_over (reason : String) {sid : String} (hs : w.store.getSession sid = some session)
    (ho : Over w.store session) :
    wp (quietly fun _ _ => False) (sweep sid reason)
      (returns fun found w' => w' = w ∧ found.interrupted = []) w := by
  unfold sweep
  rw [wp_bind]
  refine wp_requireSession hs ?_
  simp only [after_ok, wp_bind, wp_readStore]
  cases hc : currentConversation w.store session with
  | none => exact ⟨rfl, rfl⟩
  | some c =>
    obtain ⟨hsettled, hparent⟩ := ho c hc
    unfold sweepOne
    simp only [wp_bind]
    refine wp_mono (sweepPlan_over reason hsettled) ?_
    rintro (e | plan) w₁ h
    · exact h
    obtain rfl : w₁ = w := h
    rw [after_ok]
    refine wp_mono (sweepCycle_over hsettled) ?_
    rintro (e | cycle) w₂ h
    · exact h
    obtain rfl : w₂ = w₁ := h
    rw [after_ok]
    refine wp_mono (sweepConversation_over hsettled) ?_
    rintro (e | swept) w₃ h
    · exact h
    obtain ⟨rfl, rfl⟩ := h
    rw [after_ok, wp_pure, after_ok, wp_readStore, after_ok, hparent]
    exact ⟨rfl, rfl⟩

/-- No run of a sweep raises or gets stuck, and wherever it has come to it has only interrupted
records of its scope.  At its end nothing of that scope is under way, and another sweep writes
nothing. -/
theorem sweep_settles_session {w w' : World} {sid reason : String} {session : SessionRecord}
    {p : Prog App Sweep} (hs : w.store.getSession sid = some session)
    (hr : Reaches alone (sweep sid reason, w) (p, w')) :
    Swept reason (scopeOf w.store session) w.store w'.store ∧
      ((∃ c, Step alone (p, w') c) ∨ ∃ found, p = .ret (.ok found) ∧
        SessionSwept reason session w.store w'.store found ∧ Over w'.store session ∧
        ∀ again q w'', Reaches alone (sweep sid again, w') (q, w'') → w'' = w') := by
  have hw := sweep_spec reason hs
  refine ⟨?_, ?_⟩
  · refine invariant_reaches (C := quietly _)
      (I := fun v => Swept reason (scopeOf w.store session) w.store v.store) hw hr
      (.refl _ _ _) ?_ ?_
    · exact fun v v' hv hg => hv.trans hg.1
    · rintro op v a v' hv ⟨rfl, -⟩
      exact hv
  · have hw' := wp_reaches (C := quietly _) hw hr
    rcases wp_progress (C := quietly _) (fun op v _ => alone_answered (fun _ _ => True) op v) hw'
      with hstep | ⟨r, hp, hret⟩ | ⟨-, hstuck⟩
    · exact .inl hstep
    · cases r with
      | error e => exact absurd hret id
      | ok found =>
        obtain ⟨-, hswept⟩ := hret
        have hover : Over w'.store session := over_of_swept hswept.swept hswept.settled
        have hs' : w'.store.getSession sid = some session := by
          unfold Store.getSession
          rw [hswept.swept.sessions]
          exact hs
        refine .inr ⟨found, hp, hswept, hover, fun again q w'' hagain => ?_⟩
        refine invariant_reaches (C := quietly _) (I := fun v => v = w')
          (sweep_over again hs' hover) hagain rfl ?_ ?_
        · exact fun v v' _ hg => absurd hg.1 id
        · rintro op v a v' rfl ⟨rfl, -⟩
          rfl
    · exact absurd hstuck id

/-- A session whose plan runs a task. -/
def midPlan : Store where
  sessions := .ofRows [.sample "s" .running (some "c")]
  conversations := .ofRows [{ ConversationRecord.sample "c" "s" .runningPlan with
    currentPlanId := some "p", currentCycleId := some "y" }]
  cycles := .ofRows [.sample "y" "s" "c" .running]
  plans := .ofRows [{
    planId := "p"
    sessionId := "s"
    conversationId := "c"
    cycleId := "y"
    planType := .executionPlan
    objective := ""
    executionPolicy := .sequential
    status := .running
    createdAt := 0
    updatedAt := 0 }]
  tasks := .ofRows [{
    taskId := "t"
    planId := "p"
    sessionId := "s"
    conversationId := "c"
    orderIndex := 0
    type := .cmd
    cmd := some "make"
    status := .running
    createdAt := 0
    updatedAt := 0 }]

def sweptMidPlan : Config App Sweep :=
  drive aloneScript 60 0 (sweep "s" userInterruptReason, { store := midPlan })

/-- The sweep comes to its end, nothing of the conversation is under way, and another sweep would
write nothing. -/
theorem sweep_settles_session_midPlan :
    ∃ found, sweptMidPlan.1 = .ret (.ok found) ∧ found.interruptedTaskIds = ["t"] ∧
      Over sweptMidPlan.2.store (.sample "s" .running (some "c")) ∧
      ∀ again q w, Reaches alone (sweep "s" again, sweptMidPlan.2) (q, w) → w = sweptMidPlan.2 := by
  have hreaches : Reaches alone (sweep "s" userInterruptReason, { store := midPlan })
      (sweptMidPlan.1, sweptMidPlan.2) := drive_aloneScript 60 _
  obtain ⟨found, hend⟩ : ∃ found, sweptMidPlan.1 = .ret (.ok found) := ⟨_, rfl⟩
  rcases (sweep_settles_session rfl hreaches).2 with
    ⟨c, hstep⟩ | ⟨found', hend', -, hover, hagain⟩
  · rw [hend] at hstep
    cases hstep
  · refine ⟨found', hend', ?_, hover, hagain⟩
    have hreport : sweptMidPlan.1 = .ret (.ok found') := hend'
    cases hreport
    rfl

end Session

end Interruption

end AgenticLocalApp
