import AgenticLocalApp.Orchestration.RecoveryPolicy

/-!
# The writes of the recovery

Each record that the recovery writes leaves the policy of the store as it was: it takes one entity
to the state where the policy sends it, and nobody else's destination changes.
-/

namespace AgenticLocalApp

namespace Recovery

variable {R : List String} {σ : Store} {now : Instant}

@[simp] theorem interruptedTask_status (task : TaskRecord) :
    (interruptedTask task now).status = .interrupted := rfl

@[simp] theorem interruptedPlan_status (plan : PlanRecord) (tasks : List TaskRecord) :
    (interruptedPlan plan tasks now).status = .interrupted := rfl

@[simp] theorem interruptedCycle_status (cycle : CycleRecord) :
    (interruptedCycle cycle now).status = .interrupted := rfl

theorem interruptedTask_key (task : TaskRecord) (now : Instant) :
    Keyed.key (interruptedTask task now) = Keyed.key task := rfl

theorem interruptedPlan_key (plan : PlanRecord) (tasks : List TaskRecord) (now : Instant) :
    Keyed.key (interruptedPlan plan tasks now) = Keyed.key plan := rfl

theorem interruptedCycle_key (cycle : CycleRecord) (now : Instant) :
    Keyed.key (interruptedCycle cycle now) = Keyed.key cycle := rfl

/-! ## Where entities go -/

theorem taskAfter_eq_interrupted_iff {task : TaskRecord} :
    taskAfter σ task = .interrupted ↔
      task.status = .running ∨ task.status ∈ openTaskStates ∧ PlanOpen σ task ∨
        task.status = .interrupted := by
  unfold taskAfter
  split <;> grind

theorem taskAfter_of_settled {task : TaskRecord} (hr : task.status ≠ .running)
    (ho : task.status ∉ openTaskStates) : taskAfter σ task = task.status := by
  unfold taskAfter
  rw [if_neg]
  rintro (h | ⟨h, _⟩)
  · exact hr h
  · exact ho h

theorem mem_scannedConversations {cid : String} :
    cid ∈ scannedConversations σ ↔
      ∃ c ∈ σ.conversations.rows, c.conversationId = cid ∧
        (c.status ∈ activeConversationStates ∨
          ∃ s ∈ σ.sessions.rows, s.status ∈ openSessionStates ∧ c.sessionId = s.sessionId) := by
  simp only [scannedConversations, List.mem_append, List.mem_map, List.mem_flatMap,
    Store.mem_findConversationsInStates, Store.mem_listConversations, Store.mem_listSessions]
  constructor
  · rintro (⟨c, ⟨hc, ha⟩, rfl⟩ | ⟨s, ⟨hs, ho⟩, c, ⟨hc, he⟩, rfl⟩)
    · exact ⟨c, hc, rfl, .inl ha⟩
    · exact ⟨c, hc, rfl, .inr ⟨s, hs, ho, he⟩⟩
  · rintro ⟨c, hc, rfl, ha | ⟨s, hs, ho, he⟩⟩
    · exact .inl ⟨c, ⟨hc, ha⟩, rfl⟩
    · exact .inr ⟨s, ⟨hs, ho⟩, c, ⟨hc, he⟩, rfl⟩

/-- No running cycle is left but those of conversations in `R` and those that nobody settles. -/
def CyclesSettled (R : List String) (σ : Store) : Prop :=
  ∀ cycle ∈ σ.cycles.rows, cycle.status = .running →
    cycle.conversationId ∈ scannedConversations σ → cycle.conversationId ∈ R

theorem cycleAfter_eq_running_iff {cycle : CycleRecord} :
    cycleAfter R σ cycle = .running ↔ cycle.status = .running ∧
      (cycle.conversationId ∈ R ∨ cycle.conversationId ∉ scannedConversations σ) := by
  unfold cycleAfter
  split <;> grind

theorem cycleAfter_of_settled (h : CyclesSettled R σ) {cycle : CycleRecord}
    (hc : cycle ∈ σ.cycles.rows) : cycleAfter R σ cycle = cycle.status := by
  unfold cycleAfter
  rw [if_neg]
  rintro ⟨hr, hs, hn⟩
  exact hn (h cycle hc hr hs)

/-! ## Tasks and plans -/

theorem policy_interruptTask {task : TaskRecord} (ht : task ∈ σ.tasks.rows)
    (hi : taskAfter σ task = .interrupted) :
    policy R (σ.saveTask (interruptedTask task now)) = policy R σ := by
  have hrows : (σ.tasks.save (interruptedTask task now)).rows.map
      (fun t => taskIn t (taskAfter (σ.saveTask (interruptedTask task now)) t)) =
      σ.tasks.rows.map fun t => taskIn t (taskAfter σ t) :=
    Table.map_save_over ht rfl (by rw [hi, taskAfter_of_settled (by simp) (by simp [openTaskStates])]; rfl)
      fun _ _ _ => rfl
  exact congrArg (fun ts => { policy R σ with tasks := ts }) hrows

theorem planOpen_savePlan_of_ne {plan : PlanRecord} {task : TaskRecord} (hp : plan ∈ σ.plans.rows)
    {record : PlanRecord} (hk : Keyed.key record = Keyed.key plan)
    (hne : ¬ (plan.sessionId = task.sessionId ∧ plan.planId = task.planId)) :
    PlanOpen (σ.savePlan record) task ↔ PlanOpen σ task := by
  have hs : record.sessionId = plan.sessionId := congrArg Prod.fst hk
  have hi : record.planId = plan.planId := congrArg Prod.snd hk
  unfold PlanOpen Store.savePlan
  constructor
  · rintro ⟨p, hpm, h1, h2, h3⟩
    rcases (Table.mem_save_over hp hk).1 hpm with rfl | ⟨hpm, _⟩
    · exact absurd ⟨hs ▸ h1, hi ▸ h2⟩ hne
    · exact ⟨p, hpm, h1, h2, h3⟩
  · rintro ⟨p, hpm, h1, h2, h3⟩
    refine ⟨p, (Table.mem_save_over hp hk).2 (.inr ⟨hpm, ?_⟩), h1, h2, h3⟩
    rintro rfl
    exact hne ⟨h1, h2⟩

/-- A plan may be closed once none of its tasks is open. -/
theorem policy_interruptPlan {plan : PlanRecord} {tasks : List TaskRecord}
    (hp : plan ∈ σ.plans.rows) (ho : plan.status ∈ openPlanStates)
    (ht : ∀ task ∈ σ.tasks.rows, plan.sessionId = task.sessionId → plan.planId = task.planId →
      task.status ∉ openTaskStates) :
    policy R (σ.savePlan (interruptedPlan plan tasks now)) = policy R σ := by
  have hplans : (σ.plans.save (interruptedPlan plan tasks now)).rows.map
      (fun p => planIn p (planAfter p)) = σ.plans.rows.map fun p => planIn p (planAfter p) :=
    Table.map_save_over hp rfl
      (by rw [planAfter, planAfter, if_pos ho, if_neg (by simp [openPlanStates])]; rfl)
      fun _ _ _ => rfl
  have htasks : σ.tasks.rows.map
      (fun t => taskIn t (taskAfter (σ.savePlan (interruptedPlan plan tasks now)) t)) =
      σ.tasks.rows.map fun t => taskIn t (taskAfter σ t) := by
    refine List.map_congr_left fun t htm => ?_
    by_cases h : plan.sessionId = t.sessionId ∧ plan.planId = t.planId
    · have hno := ht t htm h.1 h.2
      simp only [taskAfter, hno, false_and]
    · have : PlanOpen (σ.savePlan (interruptedPlan plan tasks now)) t ↔ PlanOpen σ t :=
        planOpen_savePlan_of_ne hp rfl h
      simp only [taskAfter, this]
  exact congrArg₂ (fun ps ts => { policy R σ with plans := ps, tasks := ts }) hplans htasks

/-! ## Cycles -/

theorem policy_interruptCycle {cycle : CycleRecord} (hc : cycle ∈ σ.cycles.rows)
    (hi : cycleAfter R σ cycle = .interrupted) :
    policy R (σ.saveCycle (interruptedCycle cycle now)) = policy R σ := by
  have hrows : (σ.cycles.save (interruptedCycle cycle now)).rows.map
      (fun c => cycleIn c (cycleAfter R (σ.saveCycle (interruptedCycle cycle now)) c)) =
      σ.cycles.rows.map fun c => cycleIn c (cycleAfter R σ c) :=
    Table.map_save_over hc rfl
      (by rw [hi, cycleAfter, if_neg (by simp)]; rfl) fun _ _ _ => rfl
  exact congrArg (fun cs => { policy R σ with cycles := cs }) hrows

/-- Settled cycles stay settled when fewer conversations are looked at. -/
theorem cyclesSettled_mono (σ' : Store) (h : CyclesSettled R σ) (hc : σ'.cycles = σ.cycles)
    (hs : ∀ cid ∈ scannedConversations σ', cid ∈ scannedConversations σ) : CyclesSettled R σ' :=
  fun cycle hm hr hsc => h cycle (hc ▸ hm) hr (hs _ hsc)

theorem map_cycleAfter_eq (σ' : Store) (h : CyclesSettled R σ) (h' : CyclesSettled R σ')
    (hc : σ'.cycles = σ.cycles) :
    σ'.cycles.rows.map (fun c => cycleIn c (cycleAfter R σ' c)) =
      σ.cycles.rows.map fun c => cycleIn c (cycleAfter R σ c) := by
  rw [hc]
  refine List.map_congr_left fun c hm => ?_
  rw [cycleAfter_of_settled h hm, cycleAfter_of_settled h' (hc ▸ hm)]

/-! ## Conversations -/

/-- `r` is `x` in another state. -/
def SameConversation (r x : ConversationRecord) : Prop :=
  ∀ status, conversationIn r status = conversationIn x status

theorem SameConversation.key {r x : ConversationRecord} (h : SameConversation r x) :
    Keyed.key r = Keyed.key x := by
  change (conversationIn r .new).conversationId = (conversationIn x .new).conversationId
  rw [h]

theorem SameConversation.sessionId {r x : ConversationRecord} (h : SameConversation r x) :
    r.sessionId = x.sessionId := by
  change (conversationIn r .new).sessionId = (conversationIn x .new).sessionId
  rw [h]

theorem getConversation_save {r x : ConversationRecord} (h : SameConversation r x)
    (cid : String) : (σ.saveConversation r).getConversation cid =
      if x.conversationId = cid then some r else σ.getConversation cid := by
  have hk : r.conversationId = x.conversationId := h.key
  unfold Store.getConversation Store.saveConversation
  rw [Table.find_save, key_conversation, hk]

/-- A conversation that leaves the active states takes no conversation into view. -/
theorem scanned_saveConversation {r x : ConversationRecord} (hx : x ∈ σ.conversations.rows)
    (h : SameConversation r x) (ha : r.status ∉ activeConversationStates) :
    ∀ cid ∈ scannedConversations (σ.saveConversation r), cid ∈ scannedConversations σ := by
  intro cid hm
  rw [mem_scannedConversations] at hm ⊢
  obtain ⟨c, hc, rfl, hs⟩ := hm
  rcases (Table.mem_save_over hx h.key).1 hc with rfl | ⟨hc, _⟩
  · rcases hs with hs | ⟨s, hs, ho, he⟩
    · exact absurd hs ha
    · exact ⟨x, hx, h.key.symm, .inr ⟨s, hs, ho, h.sessionId ▸ he⟩⟩
  · exact ⟨c, hc, rfl, hs⟩

/-- A conversation that is not waiting for its reply may go where the policy sends it, once the
cycles are settled; the sessions in it see no difference. -/
theorem policy_saveConversation {r x : ConversationRecord} (hx : x ∈ σ.conversations.rows)
    (h : SameConversation r x) (hn : x.conversationId ∉ R) (hcycles : CyclesSettled R σ)
    (ha : r.status ∉ activeConversationStates) (hr : r.status ≠ .completed)
    (hself : conversationAfter R σ x = r.status)
    (hses : ∀ status, openSessionAfter R status (some r) = openSessionAfter R status (some x)) :
    policy R (σ.saveConversation r) = policy R σ := by
  have hk : r.conversationId = x.conversationId := h.key
  have hconversations : (σ.conversations.save r).rows.map
      (fun c => conversationIn c (conversationAfter R (σ.saveConversation r) c)) =
      σ.conversations.rows.map fun c => conversationIn c (conversationAfter R σ c) := by
    refine Table.map_save_over hx h.key ?_ fun _ _ _ => rfl
    have : conversationAfter R (σ.saveConversation r) r = r.status := by
      rw [conversationAfter, if_neg (hk ▸ hn), if_neg ha, if_neg fun e => hr e.1]
    rw [this, hself, h]
  have hsessions : σ.sessions.rows.map
      (fun s => sessionIn s (sessionAfter R (σ.saveConversation r) s)) =
      σ.sessions.rows.map fun s => sessionIn s (sessionAfter R σ s) := by
    refine List.map_congr_left fun s _ => ?_
    have hbind : openSessionAfter R s.status
          (s.currentConversationId.bind (σ.saveConversation r).getConversation) =
        openSessionAfter R s.status (s.currentConversationId.bind σ.getConversation) := by
      cases s.currentConversationId with
      | none => rfl
      | some cid =>
        simp only [Option.bind_some, getConversation_save h]
        split
        · rename_i he
          have : σ.getConversation cid = some x := he ▸ Table.find_of_mem hx
          rw [this, hses]
        · rfl
    simp only [sessionAfter, hbind]
  have hcyc := map_cycleAfter_eq (σ.saveConversation r) hcycles
    (cyclesSettled_mono _ hcycles rfl (scanned_saveConversation hx h ha)) rfl
  simp only [policy, EntityStates.mk.injEq]
  exact ⟨rfl, rfl, hcyc, hconversations, hsessions, rfl, rfl⟩

/-! ## Sessions -/

/-- `r` is `x` in another state. -/
def SameSession (r x : SessionRecord) : Prop := ∀ status, sessionIn r status = sessionIn x status

theorem SameSession.key {r x : SessionRecord} (h : SameSession r x) :
    Keyed.key r = Keyed.key x := by
  change (sessionIn r .ready).sessionId = (sessionIn x .ready).sessionId
  rw [h]

theorem SameSession.current {r x : SessionRecord} (h : SameSession r x) :
    r.currentConversationId = x.currentConversationId := by
  change (sessionIn r .ready).currentConversationId = (sessionIn x .ready).currentConversationId
  rw [h]

/-- An open session that moves on takes no conversation into view. -/
theorem scanned_saveSession {r x : SessionRecord} (hx : x ∈ σ.sessions.rows)
    (h : SameSession r x) (ho : x.status ∈ openSessionStates) :
    ∀ cid ∈ scannedConversations (σ.saveSession r), cid ∈ scannedConversations σ := by
  intro cid hm
  rw [mem_scannedConversations] at hm ⊢
  obtain ⟨c, hc, rfl, ha | ⟨s, hs, hso, he⟩⟩ := hm
  · exact ⟨c, hc, rfl, .inl ha⟩
  · rcases (Table.mem_save_over hx h.key).1 hs with rfl | ⟨hs, _⟩
    · exact ⟨c, hc, rfl, .inr ⟨x, hx, ho, he.trans h.key⟩⟩
    · exact ⟨c, hc, rfl, .inr ⟨s, hs, hso, he⟩⟩

/-- An open session may go where the policy sends it once the cycles are settled, unless it is the
one for which a completed conversation is to be finished. -/
theorem policy_saveSession {r x : SessionRecord} (hx : x ∈ σ.sessions.rows) (h : SameSession r x)
    (ho : x.status ∈ openSessionStates) (hcycles : CyclesSettled R σ)
    (hself : sessionAfter R σ r = sessionAfter R σ x)
    (hfin : ∀ c ∈ σ.conversations.rows, c.status = .completed → c.conversationId ∉ R →
      x.currentConversationId = some c.conversationId → (r.status = .running ↔ x.status = .running)) :
    policy R (σ.saveSession r) = policy R σ := by
  have hrunning : ∀ c ∈ σ.conversations.rows, c.status = .completed → c.conversationId ∉ R →
      (RunningIn (σ.saveSession r) c.conversationId ↔ RunningIn σ c.conversationId) := by
    intro c hc hcomp hn
    unfold RunningIn
    constructor
    · rintro ⟨s, hs, hrun, hcur⟩
      rcases (Table.mem_save_over hx h.key).1 hs with rfl | ⟨hs, _⟩
      · have hcur' := h.current ▸ hcur
        exact ⟨x, hx, (hfin c hc hcomp hn hcur').1 hrun, hcur'⟩
      · exact ⟨s, hs, hrun, hcur⟩
    · rintro ⟨s, hs, hrun, hcur⟩
      by_cases hsx : s = x
      · subst hsx
        exact ⟨r, (Table.mem_save_over hx h.key).2 (.inl rfl), (hfin c hc hcomp hn hcur).2 hrun,
          h.current.trans hcur⟩
      · exact ⟨s, (Table.mem_save_over hx h.key).2 (.inr ⟨hs, hsx⟩), hrun, hcur⟩
  have hconversations : σ.conversations.rows.map
      (fun c => conversationIn c (conversationAfter R (σ.saveSession r) c)) =
      σ.conversations.rows.map fun c => conversationIn c (conversationAfter R σ c) := by
    refine List.map_congr_left fun c hc => ?_
    unfold conversationAfter
    by_cases hn : c.conversationId ∈ R
    · simp only [hn, if_true]
    · by_cases hcomp : c.status = .completed
      · simp only [hrunning c hc hcomp hn]
      · simp only [hcomp, false_and]
  have hsessions : (σ.sessions.save r).rows.map
      (fun s => sessionIn s (sessionAfter R (σ.saveSession r) s)) =
      σ.sessions.rows.map fun s => sessionIn s (sessionAfter R σ s) := by
    refine Table.map_save_over hx h.key ?_ fun _ _ _ => rfl
    have : sessionAfter R (σ.saveSession r) r = sessionAfter R σ x := hself
    rw [this, h]
  have hcyc := map_cycleAfter_eq (σ.saveSession r) hcycles
    (cyclesSettled_mono _ hcycles rfl (scanned_saveSession hx h ho)) rfl
  simp only [policy, EntityStates.mk.injEq]
  exact ⟨rfl, rfl, hcyc, hconversations, hsessions, rfl, rfl⟩

end Recovery

end AgenticLocalApp
