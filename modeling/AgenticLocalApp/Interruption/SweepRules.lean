import AgenticLocalApp.Interruption.InterruptionHandler
import AgenticLocalApp.Library.Contracts
import AgenticLocalApp.Library.RowChanges
import AgenticLocalApp.Orchestration.RecoverySettling

/-!
# What a sweep changes

A sweep asks nothing but the time, so nobody else runs during it.  It takes records of its scope to
`INTERRUPTED`, along their tables, and leaves every other row where and as it was.
-/

namespace AgenticLocalApp

open Prog

/-- The clock or an identifier is asked for, and nothing that lets others run. -/
def Op.Reads : Op → Prop
  | .now | .monotonicMs | .newId _ => True
  | _ => False

/-- The contract of a program that asks nothing else, and writes what `keeps` says. -/
def quietly (keeps : Store → Store → Prop) : Contract App where
  rely := alone
  guar w w' := keeps w.store w'.store ∧ w' = { w with store := w'.store }
  wait op _ := op.Reads
  stuck _ := False

theorem quiet_quietly (keeps : Store → Store → Prop) : Quiet (quietly keeps) where
  now _ _ _ h := h.1
  monotonicMs _ _ _ h := h.1
  newId _ _ _ _ h := h
  wait_now _ := trivial
  wait_monotonicMs _ := trivial
  wait_newId _ _ := trivial

theorem quietly_weaker {keeps keeps' : Store → Store → Prop}
    (h : ∀ σ σ', keeps σ σ' → keeps' σ σ') : (quietly keeps).Weaker (quietly keeps') where
  rely _ _ _ _ _ ha := ha
  guar _ _ hg := ⟨h _ _ hg.1, hg.2⟩
  wait _ _ hw := hw
  stuck _ hs := hs

namespace Interruption

variable {reason : String} {scope : List ConversationRecord}

/-! ## Changes -/

/-- A task of the current plan of a conversation in the scope is interrupted. -/
def TaskSwept (reason : String) (scope : List ConversationRecord) (t t' : TaskRecord) : Prop :=
  (∃ c ∈ scope, t.sessionId = c.sessionId ∧ c.currentPlanId = some t.planId) ∧
    t.status ∈ interruptibleTaskStates ∧ ∃ now, t' = interruptedTask reason t now

def PlanSwept (reason : String) (scope : List ConversationRecord) (p p' : PlanRecord) : Prop :=
  (∃ c ∈ scope, p.sessionId = c.sessionId ∧ c.currentPlanId = some p.planId) ∧
    p.status ∈ openPlanStates ∧ ∃ tasks now, p' = interruptedPlan reason p tasks now

def CycleSwept (scope : List ConversationRecord) (y y' : CycleRecord) : Prop :=
  (∃ c ∈ scope, c.currentCycleId = some y.cycleId) ∧ y.status = .running ∧
    ∃ now, y' = Recovery.interruptedCycle y now

def ConversationSwept (scope : List ConversationRecord) (v v' : ConversationRecord) : Prop :=
  (∃ c ∈ scope, v.conversationId = c.conversationId) ∧ v.status ∈ activeConversationStates ∧
    ∃ now, v' = v.moveTo .interrupted now

/-- Rows of the scope may have been interrupted, and nothing else has changed. -/
structure Swept (reason : String) (scope : List ConversationRecord) (σ σ' : Store) : Prop where
  tasks : σ.tasks.Changed (TaskSwept reason scope) σ'.tasks
  plans : σ.plans.Changed (PlanSwept reason scope) σ'.plans
  cycles : σ.cycles.Changed (CycleSwept scope) σ'.cycles
  conversations : σ.conversations.Changed (ConversationSwept scope) σ'.conversations
  rest : σ' = { σ with
    tasks := σ'.tasks
    plans := σ'.plans
    cycles := σ'.cycles
    conversations := σ'.conversations }

section Changes

theorem TaskSwept.key {t t' : TaskRecord} (h : TaskSwept reason scope t t') :
    Keyed.key t' = Keyed.key t := by
  obtain ⟨-, -, now, rfl⟩ := h
  rfl

theorem PlanSwept.key {p p' : PlanRecord} (h : PlanSwept reason scope p p') :
    Keyed.key p' = Keyed.key p := by
  obtain ⟨-, -, tasks, now, rfl⟩ := h
  rfl

theorem CycleSwept.key {y y' : CycleRecord} (h : CycleSwept scope y y') :
    Keyed.key y' = Keyed.key y := by
  obtain ⟨-, -, now, rfl⟩ := h
  rfl

theorem ConversationSwept.key {v v' : ConversationRecord} (h : ConversationSwept scope v v') :
    Keyed.key v' = Keyed.key v := by
  obtain ⟨-, -, now, rfl⟩ := h
  exact (Recovery.sameConversation_moveTo v _ _).key

theorem TaskSwept.status {t t' : TaskRecord} (h : TaskSwept reason scope t t') :
    t'.status = .interrupted := by
  obtain ⟨-, -, now, rfl⟩ := h
  rfl

theorem PlanSwept.status {p p' : PlanRecord} (h : PlanSwept reason scope p p') :
    p'.status = .interrupted := by
  obtain ⟨-, -, tasks, now, rfl⟩ := h
  rfl

theorem CycleSwept.status {y y' : CycleRecord} (h : CycleSwept scope y y') :
    y'.status = .interrupted := by
  obtain ⟨-, -, now, rfl⟩ := h
  rfl

theorem ConversationSwept.status {v v' : ConversationRecord} (h : ConversationSwept scope v v') :
    v'.status = .interrupted := by
  obtain ⟨-, -, now, rfl⟩ := h
  exact Recovery.moveTo_status v _ _

namespace Swept

theorem refl (reason : String) (scope : List ConversationRecord) (σ : Store) :
    Swept reason scope σ σ :=
  ⟨.refl _ _, .refl _ _, .refl _ _, .refl _ _, rfl⟩

/-- What is interrupted stays as it is: two sweeps change what one may. -/
theorem trans {σ σ' σ'' : Store} (h : Swept reason scope σ σ') (h' : Swept reason scope σ' σ'') :
    Swept reason scope σ σ'' where
  tasks := h.tasks.trans (fun x y z hxy hyz =>
    absurd hyz.2.1 (by rw [hxy.status]; decide)) h'.tasks
  plans := h.plans.trans (fun x y z hxy hyz =>
    absurd hyz.2.1 (by rw [hxy.status]; decide)) h'.plans
  cycles := h.cycles.trans (fun x y z hxy hyz =>
    absurd hyz.2.1 (by rw [hxy.status]; decide)) h'.cycles
  conversations := h.conversations.trans (fun x y z hxy hyz =>
    absurd hyz.2.1 (by rw [hxy.status]; decide)) h'.conversations
  rest := by
    rw [h'.rest, h.rest]

theorem mono {scope' : List ConversationRecord} {σ σ' : Store} (h : Swept reason scope σ σ')
    (hs : ∀ c ∈ scope, c ∈ scope') : Swept reason scope' σ σ' where
  tasks := h.tasks.mono fun x y hxy => by
    obtain ⟨⟨c, hc, hx⟩, hrest⟩ := hxy
    exact ⟨⟨c, hs c hc, hx⟩, hrest⟩
  plans := h.plans.mono fun x y hxy => by
    obtain ⟨⟨c, hc, hx⟩, hrest⟩ := hxy
    exact ⟨⟨c, hs c hc, hx⟩, hrest⟩
  cycles := h.cycles.mono fun x y hxy => by
    obtain ⟨⟨c, hc, hx⟩, hrest⟩ := hxy
    exact ⟨⟨c, hs c hc, hx⟩, hrest⟩
  conversations := h.conversations.mono fun x y hxy => by
    obtain ⟨⟨c, hc, hx⟩, hrest⟩ := hxy
    exact ⟨⟨c, hs c hc, hx⟩, hrest⟩
  rest := h.rest

variable {σ σ' : Store}

theorem sessions (h : Swept reason scope σ σ') : σ'.sessions = σ.sessions := by
  rw [h.rest]

theorem saveTask (reason : String) {t : TaskRecord} {c : ConversationRecord} (ht : t ∈ σ.tasks.rows)
    (hc : c ∈ scope) (hs : t.sessionId = c.sessionId) (hp : c.currentPlanId = some t.planId)
    (ho : t.status ∈ interruptibleTaskStates) (now : Instant) :
    Swept reason scope σ (σ.saveTask (interruptedTask reason t now)) where
  tasks := .save_over _ ht rfl ⟨⟨c, hc, hs, hp⟩, ho, now, rfl⟩
  plans := .refl _ _
  cycles := .refl _ _
  conversations := .refl _ _
  rest := rfl

theorem savePlan (reason : String) {p : PlanRecord} {c : ConversationRecord} (hp : p ∈ σ.plans.rows)
    (hc : c ∈ scope) (hs : p.sessionId = c.sessionId) (hcur : c.currentPlanId = some p.planId)
    (ho : p.status ∈ openPlanStates) (tasks : List TaskRecord) (now : Instant) :
    Swept reason scope σ (σ.savePlan (interruptedPlan reason p tasks now)) where
  tasks := .refl _ _
  plans := .save_over _ hp rfl ⟨⟨c, hc, hs, hcur⟩, ho, tasks, now, rfl⟩
  cycles := .refl _ _
  conversations := .refl _ _
  rest := rfl

theorem saveCycle (reason : String) {y : CycleRecord} {c : ConversationRecord}
    (hy : y ∈ σ.cycles.rows)
    (hc : c ∈ scope) (hcur : c.currentCycleId = some y.cycleId) (hr : y.status = .running)
    (now : Instant) : Swept reason scope σ (σ.saveCycle (Recovery.interruptedCycle y now)) where
  tasks := .refl _ _
  plans := .refl _ _
  cycles := .save_over _ hy rfl ⟨⟨c, hc, hcur⟩, hr, now, rfl⟩
  conversations := .refl _ _
  rest := rfl

theorem saveConversation (reason : String) {v c : ConversationRecord}
    (hv : v ∈ σ.conversations.rows)
    (hc : c ∈ scope) (hid : v.conversationId = c.conversationId)
    (ha : v.status ∈ activeConversationStates) (now : Instant) :
    Swept reason scope σ (σ.saveConversation (v.moveTo .interrupted now)) where
  tasks := .refl _ _
  plans := .refl _ _
  cycles := .refl _ _
  conversations := .save_over _ hv (Recovery.sameConversation_moveTo v _ _).key
    ⟨⟨c, hc, hid⟩, ha, now, rfl⟩
  rest := rfl

end Swept

end Changes

/-! ## What a sweep leaves -/

/-- Nothing of the conversation is under way: not its plan, not its cycle, not itself. -/
structure Settled (σ : Store) (c : ConversationRecord) : Prop where
  plan : ∀ p, currentPlan σ c = some p → p.status ∉ openPlanStates
  cycle : ∀ y, currentCycle σ c = some y → y.status ≠ .running
  conversation : ∀ v, σ.getConversation c.conversationId = some v →
    v.status ∉ activeConversationStates

/-- No task of the plan can still run. -/
def TasksOver (σ : Store) (p : PlanRecord) : Prop :=
  ∀ t ∈ σ.tasks.rows, t.sessionId = p.sessionId → t.planId = p.planId →
    t.status ∉ interruptibleTaskStates

section Stable

variable {σ σ' : Store} {c : ConversationRecord}

theorem currentPlan_of_swept (h : Swept reason scope σ σ') {p : PlanRecord}
    (hp : currentPlan σ' c = some p) :
    ∃ q, currentPlan σ c = some q ∧ (p = q ∨ PlanSwept reason scope q p) := by
  obtain ⟨planId, hid, hfind⟩ := Option.bind_eq_some_iff.1 hp
  obtain ⟨q, hq, hpq⟩ := h.plans.find_of (fun x y hxy => hxy.key) hfind
  exact ⟨q, Option.bind_eq_some_iff.2 ⟨planId, hid, hq⟩, hpq⟩

theorem currentCycle_of_swept (h : Swept reason scope σ σ') {y : CycleRecord}
    (hy : currentCycle σ' c = some y) :
    ∃ x, currentCycle σ c = some x ∧ (y = x ∨ CycleSwept scope x y) := by
  obtain ⟨cycleId, hid, hfind⟩ := Option.bind_eq_some_iff.1 hy
  obtain ⟨x, hx, hxy⟩ := h.cycles.find_of (fun x y hxy => hxy.key) hfind
  exact ⟨x, Option.bind_eq_some_iff.2 ⟨cycleId, hid, hx⟩, hxy⟩

/-- What is settled stays so through a sweep. -/
theorem Settled.swept (hc : Settled σ c) (h : Swept reason scope σ σ') : Settled σ' c where
  plan p hp := by
    obtain ⟨q, hq, rfl | hswept⟩ := currentPlan_of_swept h hp
    · exact hc.plan p hq
    · rw [hswept.status]
      decide
  cycle y hy := by
    obtain ⟨x, hx, rfl | hswept⟩ := currentCycle_of_swept h hy
    · exact hc.cycle y hx
    · rw [hswept.status]
      decide
  conversation v hv := by
    obtain ⟨u, hu, rfl | hswept⟩ := h.conversations.find_of (fun x y hxy => hxy.key) hv
    · exact hc.conversation v hu
    · rw [hswept.status]
      decide

theorem TasksOver.swept {p : PlanRecord} (hp : TasksOver σ p) (h : Swept reason scope σ σ') :
    TasksOver σ' p := by
  intro t ht hs hi
  obtain ⟨u, hu, rfl | hswept⟩ := h.tasks.mem_of ht
  · exact hp t hu hs hi
  · rw [hswept.status]
    decide

end Stable

end Interruption

end AgenticLocalApp
