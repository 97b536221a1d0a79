import AgenticLocalApp.Orchestration.RecoverySessions

/-!
# Runs of the recovery

A recovery that comes to its end leaves every entity where the policy sends it.  From that one fact
follow what is left open, that a second recovery has nothing to do, and when a recovery cut short
and started again ends where an uncut one does.
-/

namespace AgenticLocalApp

open Prog

namespace Recovery

variable {R : List String} {ordered : Prop} {w : World}

/-- Nothing is open but what waits for the replies to the conversations of `R`. -/
structure Quiescent (R : List String) (σ : Store) : Prop where
  tasks : ∀ task ∈ σ.tasks.rows, task.status ≠ .running
  plans : ∀ plan ∈ σ.plans.rows, plan.status ∉ openPlanStates
  cycles : CyclesSettled R σ
  conversations : ∀ c ∈ σ.conversations.rows, c.status ∈ activeConversationStates → c.conversationId ∈ R
  sessions : ∀ s ∈ σ.sessions.rows, s.status ∈ openSessionStates → StaysRunning R s
  found : ∀ cid ∈ R, ∃ c ∈ σ.conversations.rows, c.conversationId = cid

theorem sessionAfter_of_staysRunning {σ : Store} {s : SessionRecord}
    (found : ∀ cid ∈ R, ∃ c ∈ σ.conversations.rows, c.conversationId = cid)
    (h : StaysRunning R s) : sessionAfter R σ s = .running := by
  obtain ⟨hrun, cid, hcid, hcur⟩ := h
  obtain ⟨c, hc, rfl⟩ := found cid hcid
  have hget : σ.getConversation c.conversationId = some c := Table.find_of_mem hc
  simp [sessionAfter, hcur, hget, openSessionAfter, hcid, hrun, openSessionStates]

theorem running_of_sessionAfter {σ : Store} {s : SessionRecord}
    (h : sessionAfter R σ s = .running) : s.status = .running := by
  unfold sessionAfter openSessionAfter at h
  grind

/-- The policy has nothing left to do on a quiescent store. -/
theorem Quiescent.policy_eq {σ : Store} (h : Quiescent R σ) : policy R σ = entityStates σ := by
  have htasks : ∀ t ∈ σ.tasks.rows, taskAfter σ t = t.status := by
    intro t ht
    rw [taskAfter, if_neg]
    rintro (hr | ⟨_, p, hp, _, _, ho⟩)
    · exact h.tasks t ht hr
    · exact h.plans p hp ho
  have hplans : ∀ p ∈ σ.plans.rows, planAfter p = p.status :=
    fun p hp => by rw [planAfter, if_neg (h.plans p hp)]
  have hconversations : ∀ c ∈ σ.conversations.rows, conversationAfter R σ c = c.status := by
    intro c hc
    unfold conversationAfter
    split
    · rfl
    · rename_i hn
      rw [if_neg fun ha => hn (h.conversations c hc ha), if_neg]
      rintro ⟨_, s, hs, hrun, hcur⟩
      obtain ⟨_, cid, hcid, he⟩ := h.sessions s hs (by rw [hrun]; decide)
      exact hn (Option.some.inj (hcur.symm.trans he) ▸ hcid)
  have hsessions : ∀ s ∈ σ.sessions.rows, sessionAfter R σ s = s.status := by
    intro s hs
    by_cases ho : s.status ∈ openSessionStates
    · have hstay := h.sessions s hs ho
      rw [sessionAfter_of_staysRunning h.found hstay, hstay.1]
    · rw [sessionAfter, if_neg ho]
  simp only [policy, entityStates, EntityStates.mk.injEq]
  refine ⟨?_, ?_, ?_, ?_, ?_, trivial, trivial⟩
  · exact List.map_congr_left fun t ht => by rw [htasks t ht]
  · exact List.map_congr_left fun p hp => by rw [hplans p hp]
  · exact List.map_congr_left fun c hc => by rw [cycleAfter_of_settled h.cycles hc]
  · exact List.map_congr_left fun c hc => by rw [hconversations c hc]
  · exact List.map_congr_left fun s hs => by rw [hsessions s hs]

theorem policy_conversationIds (R : List String) (σ : Store) :
    (policy R σ).conversations.map ConversationRecord.conversationId =
      σ.conversations.rows.map ConversationRecord.conversationId := by
  unfold policy
  rw [List.map_map]
  rfl

/-- Who is resumable is found among the conversations as long as the policy stays what it was. -/
theorem found_of_policy {σ σ' : Store} (hR : resumableConversations σ = R)
    (h : policy R σ' = policy R σ) :
    ∀ cid ∈ R, ∃ c ∈ σ'.conversations.rows, c.conversationId = cid := by
  intro cid hcid
  obtain ⟨c, hc, rfl, _⟩ := mem_resumableConversations.1 (hR ▸ hcid)
  have hids : σ'.conversations.rows.map ConversationRecord.conversationId =
      σ.conversations.rows.map ConversationRecord.conversationId := by
    rw [← policy_conversationIds R σ', h, policy_conversationIds]
  exact List.mem_map.1 (hids ▸ List.mem_map_of_mem hc)

theorem recover_spec (hasPlatform : Bool) (hR : resumableConversations w.store = R)
    (hord : ordered → RotationsOrdered w.store) :
    wp (during (Progress R ordered)) (recover hasPlatform)
      (returns fun _ w' => policy R w'.store = policy R w.store ∧ Quiescent R w'.store) w := by
  unfold recover
  rw [wp_bind]
  refine wp_mono (interruptRunningTasks_spec hasPlatform w) ?_
  rintro (e | _) w₁ h₁
  · exact h₁
  rw [after_ok, wp_bind]
  refine wp_mono (interruptPendingTasksAndPlans_spec h₁) ?_
  rintro (e | _) w₂ h₂
  · exact h₂
  obtain ⟨⟨tasks, plans, hw₂⟩, hpol₂, hrun, hclosed⟩ := h₂
  have hR₂ : resumableConversations w₂.store = R := by
    rw [← hR]
    exact resumableConversations_congr (by rw [hw₂]) (by rw [hw₂]) (by rw [hw₂])
  have hord₂ : ordered → RotationsOrdered w₂.store := fun ho => by rw [hw₂]; exact hord ho
  rw [after_ok, wp_bind]
  refine wp_mono (settleConversations_spec hR₂ hord₂) ?_
  rintro (e | resumable) w₃ h₃
  · exact h₃
  obtain ⟨rfl, ⟨cycles, conversations, hw₃⟩, hpol₃, hcyc, hact⟩ := h₃
  have hpol : policy resumable w₃.store = policy resumable w.store := hpol₃.trans hpol₂
  have hset : Settled resumable w₃.store w₃.store :=
    ⟨⟨_, _, rfl⟩, rfl, hcyc, hact, found_of_policy hR hpol⟩
  refine wp_mono (settleSessions_spec hset) ?_
  rintro (e | _) w₄ h₄
  · exact h₄
  obtain ⟨conversations', sessions, hw₄⟩ := h₄.frame
  refine ⟨h₄.policy.trans hpol, ?_, ?_, h₄.cycles, h₄.active, fun s hs ho => ?_, h₄.found⟩
  · rw [hw₄, hw₃]
    exact hrun
  · rw [hw₄, hw₃]
    exact hclosed
  · by_contra hn
    exact h₄.todo.done hs ⟨ho, hn⟩

/-! ## Reading the end state -/

/-- What is at stake in the order of `R` and in its repetitions: nothing. -/
theorem policy_congr {R' : List String} (h : ∀ cid, cid ∈ R ↔ cid ∈ R') (σ : Store) :
    policy R σ = policy R' σ := by
  have hcycle : cycleAfter R σ = cycleAfter R' σ := by
    funext c
    simp only [cycleAfter, h]
  have hconversation : conversationAfter R σ = conversationAfter R' σ := by
    funext c
    simp only [conversationAfter, h]
  have hsession : sessionAfter R σ = sessionAfter R' σ := by
    funext s
    have hopen : openSessionAfter R s.status = openSessionAfter R' s.status := by
      funext c
      cases c with
      | none => rfl
      | some c => simp only [openSessionAfter, h]
    simp only [sessionAfter, hopen]
  simp only [policy, hcycle, hconversation, hsession]

theorem Quiescent.congr {R' : List String} {σ : Store} (h : ∀ cid, cid ∈ R ↔ cid ∈ R')
    (hq : Quiescent R σ) : Quiescent R' σ where
  tasks := hq.tasks
  plans := hq.plans
  cycles c hc hr hs := (h _).1 (hq.cycles c hc hr hs)
  conversations c hc ha := (h _).1 (hq.conversations c hc ha)
  sessions s hs ho := by
    obtain ⟨hrun, cid, hcid, he⟩ := hq.sessions s hs ho
    exact ⟨hrun, cid, (h _).1 hcid, he⟩
  found cid hcid := hq.found cid ((h _).2 hcid)

section Outcome

variable {σ σ' : Store}

theorem conversations_of_outcome (h : entityStates σ' = policy R σ) :
    σ'.conversations.rows.map (fun c => conversationIn c c.status) =
      σ.conversations.rows.map fun c => conversationIn c (conversationAfter R σ c) :=
  congrArg EntityStates.conversations h

theorem sessions_of_outcome (h : entityStates σ' = policy R σ) :
    σ'.sessions.rows.map (fun s => sessionIn s s.status) =
      σ.sessions.rows.map fun s => sessionIn s (sessionAfter R σ s) :=
  congrArg EntityStates.sessions h

/-- The conversation that a recovered conversation was. -/
theorem conversation_before (h : entityStates σ' = policy R σ) {c' : ConversationRecord}
    (hc : c' ∈ σ'.conversations.rows) :
    ∃ c ∈ σ.conversations.rows,
      conversationIn c (conversationAfter R σ c) = conversationIn c' c'.status := by
  have := List.mem_map_of_mem (f := fun c : ConversationRecord => conversationIn c c.status) hc
  rw [conversations_of_outcome h] at this
  exact List.mem_map.1 this

/-- The recovered conversation that a conversation becomes. -/
theorem conversation_after (h : entityStates σ' = policy R σ) {c : ConversationRecord}
    (hc : c ∈ σ.conversations.rows) :
    ∃ c' ∈ σ'.conversations.rows,
      conversationIn c' c'.status = conversationIn c (conversationAfter R σ c) := by
  have := List.mem_map_of_mem (f := fun c => conversationIn c (conversationAfter R σ c)) hc
  rw [← conversations_of_outcome h] at this
  exact List.mem_map.1 this

theorem session_before (h : entityStates σ' = policy R σ) {s' : SessionRecord}
    (hs : s' ∈ σ'.sessions.rows) :
    ∃ s ∈ σ.sessions.rows, sessionIn s (sessionAfter R σ s) = sessionIn s' s'.status := by
  have := List.mem_map_of_mem (f := fun s : SessionRecord => sessionIn s s.status) hs
  rw [sessions_of_outcome h] at this
  exact List.mem_map.1 this

theorem session_after (h : entityStates σ' = policy R σ) {s : SessionRecord}
    (hs : s ∈ σ.sessions.rows) :
    ∃ s' ∈ σ'.sessions.rows, sessionIn s' s'.status = sessionIn s (sessionAfter R σ s) := by
  have := List.mem_map_of_mem (f := fun s => sessionIn s (sessionAfter R σ s)) hs
  rw [← sessions_of_outcome h] at this
  exact List.mem_map.1 this

theorem sameConversation_of_states {c c' : ConversationRecord} {status status' : ConversationState}
    (h : conversationIn c status = conversationIn c' status') :
    c.conversationId = c'.conversationId ∧ c.sessionId = c'.sessionId ∧
      c.parentConversationId = c'.parentConversationId ∧ status = status' := by
  simp only [conversationIn, ConversationRecord.mk.injEq] at h
  exact ⟨h.1, h.2.1, h.2.2.1, h.2.2.2.2.1⟩

theorem sameSession_of_states {s s' : SessionRecord} {status status' : SessionState}
    (h : sessionIn s status = sessionIn s' status') :
    s.sessionId = s'.sessionId ∧ s.currentConversationId = s'.currentConversationId ∧
      status = status' := by
  simp only [sessionIn, SessionRecord.mk.injEq] at h
  exact ⟨h.1, h.2.2.2.2.2.2.2.2.2.2.1, h.2.1⟩

/-- A conversation of `R` waits as before, and so does its session. -/
theorem resumable_after (hR : ResumableAre R σ) (h : entityStates σ' = policy R σ)
    (hq : Quiescent R σ') {c : ConversationRecord} (hc : c ∈ σ.conversations.rows)
    (hcR : c.conversationId ∈ R) :
    ∃ c' ∈ σ'.conversations.rows, c'.conversationId = c.conversationId ∧
      c'.sessionId = c.sessionId ∧ isResumable σ' c' := by
  have hres := (hR.iff hc).1 hcR
  obtain ⟨hwait, ⟨s, hget, hrun, hcur⟩, hpending⟩ :=
    resumableButForRotation_iff.1 (isResumable_iff.1 hres).1
  obtain ⟨hs, hsid⟩ := Table.find_eq_some_iff.1 hget
  obtain ⟨c', hc', he⟩ := conversation_after h hc
  obtain ⟨hid, hsess, hpar, hstatus⟩ := sameConversation_of_states he
  obtain ⟨s', hs', hse⟩ := session_after h hs
  obtain ⟨hsid', hcur', hstatus'⟩ := sameSession_of_states hse
  have hstay : sessionAfter R σ s = .running :=
    sessionAfter_of_staysRunning hR.found ⟨hrun, _, hcR, hcur⟩
  have hmessages : σ'.messages = σ.messages := congrArg EntityStates.messages h
  refine ⟨c', hc', hid, hsess, isResumable_iff.2 ⟨resumableButForRotation_iff.2 ⟨?_, ?_, ?_⟩, ?_⟩⟩
  · rw [hstatus, conversationAfter, if_pos hcR, hwait]
  · refine ⟨s', ?_, hstatus'.trans hstay, by rw [hcur', hcur, hid]⟩
    rw [hsess, ← hsid, key_session, ← hsid']
    exact Table.find_of_mem hs'
  · rw [pendingOutbound_congr σ' hmessages]
    unfold pendingOutbound at hpending ⊢
    rwa [hid]
  · -- a rotating parent would be active, so one of `R`, whose members all wait
    rw [← Bool.not_eq_true, rotationInFlight_iff]
    rintro ⟨p', hp', _, hrot⟩
    have hpR := hq.conversations p' hp' (by rw [hrot]; decide)
    obtain ⟨p, hp, hpe⟩ := conversation_before h hp'
    obtain ⟨hpid, _, _, hpstatus⟩ := sameConversation_of_states hpe
    rw [← hpid] at hpR
    have hpwait := (resumableButForRotation_iff.1 (isResumable_iff.1 ((hR.iff hp).1 hpR)).1).1
    rw [conversationAfter, if_pos hpR, hpwait, hrot] at hpstatus
    exact absurd hpstatus (by decide)

/-- The recovery leaves the same conversations resumable as it found. -/
theorem resumableAre_after (hR : ResumableAre R σ) (h : entityStates σ' = policy R σ)
    (hq : Quiescent R σ') : ResumableAre R σ' := by
  intro cid
  constructor
  · intro hcid
    obtain ⟨c, hc, rfl, hres⟩ := mem_resumableConversations.1 hcid
    have hwait := (resumableButForRotation_iff.1 (isResumable_iff.1 hres).1).1
    exact hq.conversations c hc (by rw [hwait]; decide)
  · intro hcid
    obtain ⟨c, hc, rfl, _⟩ := mem_resumableConversations.1 ((hR cid).2 hcid)
    obtain ⟨c', hc', hid, _, hres⟩ := resumable_after hR h hq hc hcid
    exact mem_resumableConversations.2 ⟨c', hc', hid, hres⟩

end Outcome

/-! ## A second recovery -/

/-- The contract of a program that writes nothing. -/
abbrev idle : Contract App := during fun _ _ => False

/-- A loop that does nothing for each element does nothing. -/
theorem wp_idle_forM {α : Type} {f : α → Prog App PUnit} {xs : List α}
    (h : ∀ x ∈ xs, wp idle (f x) (returns fun _ w' => w' = w) w) :
    wp idle (forM xs f) (returns fun _ w' => w' = w) w := by
  let I (rest : List α) (w' : World) : Prop := w' = w ∧ ∀ x ∈ rest, x ∈ xs
  have step : ∀ x rest w', I (x :: rest) w' → wp idle (f x) (returns fun _ => I rest) w' := by
    rintro x rest w' ⟨rfl, hrest⟩
    refine wp_mono (h x (hrest x List.mem_cons_self)) ?_
    rintro (e | _) w'' hw
    · exact hw
    · exact ⟨hw, fun y hy => hrest y (List.mem_cons_of_mem _ hy)⟩
  have init : I xs w := ⟨rfl, fun _ hx => hx⟩
  refine wp_mono (wp_forM step init) ?_
  rintro (e | _) w' hw
  · exact hw
  · exact hw.1

theorem settleCycles_idle (h : CyclesSettled R w.store) {seen cids : List String}
    (hs : ∀ cid ∈ cids, cid ∈ scannedConversations w.store) :
    wp idle (settleCycles R seen cids) (returns fun _ w' => w' = w) w := by
  induction cids generalizing seen with
  | nil => exact rfl
  | cons cid rest ih =>
    have hs' : ∀ c ∈ rest, c ∈ scannedConversations w.store :=
      fun c hc => hs c (List.mem_cons_of_mem _ hc)
    unfold settleCycles
    simp only [wp_ite, wp_bind]
    refine ⟨fun _ => ih hs', fun _ => ⟨fun _ => ih hs', fun hn => ?_⟩⟩
    have hcid : wp idle (interruptCycles cid) (returns fun _ w' => w' = w) w := by
      unfold interruptCycles
      simp only [wp_bind, wp_readStore, after_ok]
      refine wp_idle_forM fun c hc => ?_
      obtain ⟨hmem, rfl⟩ := Store.mem_listCycles.1 hc
      rw [wp_ite]
      exact ⟨fun hr => absurd (h c hmem hr (hs _ List.mem_cons_self)) hn, fun _ => rfl⟩
    refine wp_mono hcid ?_
    rintro (e | _) w' hw
    · exact hw
    · obtain rfl : w' = w := hw
      exact ih hs'

/-- On a quiescent store the recovery writes nothing. -/
theorem recover_idle (hasPlatform : Bool)
    (h : Quiescent (resumableConversations w.store) w.store) :
    wp idle (recover hasPlatform) (returns fun _ w' => w' = w) w := by
  have htasks : w.store.findTasksInStates [.running] = [] := by
    refine List.eq_nil_iff_forall_not_mem.2 fun t ht => ?_
    obtain ⟨ht, hs⟩ := Store.mem_findTasksInStates.1 ht
    exact h.tasks t ht (List.mem_singleton.1 hs)
  have hplans : w.store.findPlansInStates openPlanStates = [] := by
    refine List.eq_nil_iff_forall_not_mem.2 fun p hp => ?_
    obtain ⟨hp, ho⟩ := Store.mem_findPlansInStates.1 hp
    exact h.plans p hp ho
  have hconversations : ∀ c ∈ w.store.findConversationsInStates activeConversationStates,
      c.conversationId ∈ resumableConversations w.store := by
    intro c hc
    obtain ⟨hc, ha⟩ := Store.mem_findConversationsInStates.1 hc
    exact h.conversations c hc ha
  have hsessions : ∀ s ∈ w.store.listSessions openSessionStates,
      wp idle (settleSession (resumableConversations w.store) s) (returns fun _ w' => w' = w) w := by
    intro s hs
    obtain ⟨hs, ho⟩ := Store.mem_listSessions.1 hs
    obtain ⟨hrun, cid, hcid, hcur⟩ := h.sessions s hs ho
    obtain ⟨c, hc, rfl⟩ := h.found cid hcid
    have hget : w.store.getConversation c.conversationId = some c := Table.find_of_mem hc
    unfold settleSession
    simp only [wp_bind, wp_readStore, after_ok, hcur, Option.bind_some, hget]
    rw [if_pos ⟨hcid, hrun⟩]
    exact rfl
  unfold recover interruptRunningTasks interruptPendingTasksAndPlans settleConversations settleSessions
  simp only [wp_bind, wp_readStore, after_ok, htasks, hplans, List.forM_nil, wp_pure]
  refine wp_mono (settleCycles_idle h.cycles fun _ hc => hc) ?_
  rintro (e | _) w₁ hw
  · exact hw
  obtain rfl : w₁ = w := hw
  refine wp_mono (wp_idle_forM fun c hc => ?_) ?_
  · rw [if_pos (hconversations c hc)]
    exact rfl
  · rintro (e | _) w₂ hw
    · exact hw
    obtain rfl : w₂ = w₁ := hw
    exact wp_idle_forM hsessions

end Recovery

end AgenticLocalApp
