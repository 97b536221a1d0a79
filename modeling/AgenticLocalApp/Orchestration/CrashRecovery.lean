import AgenticLocalApp.Orchestration.RecoveryRuns

/-!
# Recovering from a crash

A crash keeps the store and loses everything else.  The recovery is sound from a store when no run
of it raises, what it leaves is clean, a second one changes nothing, and one that is itself cut by a
crash and started again ends in the same entity states.  The stores from which it is sound are
characterised by two conditions: every running cycle is looked at or belongs to a resumable
session, and no rotating conversation precedes a child that it alone holds back.
-/

namespace AgenticLocalApp

open Prog

theorem alone_answered (keeps : Store → Store → Prop) (op : Op) (w : World) :
    ∃ a w', (during keeps).rely op w a w' := by
  exact ⟨op.answer w.store, w, rfl, op.answers_answer w.store⟩

/-- A program that may count on being alone has a run to its end. -/
theorem exists_end_alone {α : Type} {keeps : Store → Store → Prop} {p : Prog App α} {w : World} {Q}
    (h : wp (during keeps) p Q w) : ∃ r w', Reaches alone (p, w) (.ret r, w') ∧ Q r w' :=
  exists_end (C := during keeps) (fun op w _ => alone_answered keeps op w) (fun _ h => h) h

/-- Surroundings that leave the program alone and in which nothing goes wrong. -/
def aloneScript : Script App := fun _ op w => (op.answer w.store, w)

theorem drive_aloneScript {α : Type} (fuel : Nat) (c : Config App α) :
    Reaches alone c (drive aloneScript fuel 0 c) :=
  drive_reaches (fun _ op w => ⟨rfl, op.answers_answer w.store⟩) fuel 0 c

namespace Recovery

/-- A new process finds the store and nothing else. -/
def boot (σ : Store) : World := { store := σ }

/-- A recovery that starts from `σ` may have written `σ'` by the time it is cut. -/
def CutAt (hasPlatform : Bool) (σ σ' : Store) : Prop :=
  ∃ w', Passes alone (recover hasPlatform) (boot σ) w' ∧ w'.store = σ'

/-- A recovery that starts from `σ` may come to its end and leave `σ'`. -/
def Recovers (hasPlatform : Bool) (σ σ' : Store) : Prop :=
  ∃ w', Reaches alone (recover hasPlatform, boot σ) (.ret (.ok ()), w') ∧ w'.store = σ'

/-- The session runs, and the conversation it is in waits for its reply. -/
def ResumableSession (σ : Store) (sid : String) : Prop :=
  ∃ session ∈ σ.sessions.rows, session.sessionId = sid ∧
    StaysRunning (resumableConversations σ) session

instance (σ : Store) (sid : String) : Decidable (ResumableSession σ sid) := by
  unfold ResumableSession; infer_instance

/-- The states in which a session may be left that has nothing to resume. -/
def restingSessionStates : List SessionState := [.ready, .completed, .failed, .paused]

/-- Nothing is open but what belongs to resumable sessions. -/
structure Clean (σ : Store) : Prop where
  tasks : ∀ task ∈ σ.tasks.rows, task.status ≠ .running
  plans : ∀ plan ∈ σ.plans.rows, plan.status ∉ [.pending, .running]
  conversations : ∀ c ∈ σ.conversations.rows, c.status ∈ activeConversationStates →
    ResumableSession σ c.sessionId
  cycles : ∀ cycle ∈ σ.cycles.rows, cycle.status = .running → ResumableSession σ cycle.sessionId
  sessions : ∀ s ∈ σ.sessions.rows, s.status ∈ restingSessionStates ∨
    s.status = .running ∧ ResumableSession σ s.sessionId

/-- What is asked of the recovery of one store. -/
structure Sound (hasPlatform : Bool) (σ : Store) : Prop where
  /-- No run raises, hangs or gets stuck: it can go on, or it has returned. -/
  returns : ∀ c, Reaches alone (recover hasPlatform, boot σ) c →
    (∃ c', Step alone c c') ∨ c.1 = .ret (.ok ())
  clean : ∀ σ', Recovers hasPlatform σ σ' → Clean σ'
  again : ∀ σ' σ'', Recovers hasPlatform σ σ' → CutAt hasPlatform σ' σ'' → σ'' = σ'
  crash : ∀ σ₁ σ₂ σ', CutAt hasPlatform σ σ₁ → Recovers hasPlatform σ₁ σ₂ →
    Recovers hasPlatform σ σ' → entityStates σ₂ = entityStates σ'

/-- Every running cycle is under a conversation whose cycles the recovery interrupts, or belongs to
a resumable session. -/
def CyclesReached (σ : Store) : Prop :=
  ∀ cycle ∈ σ.cycles.rows, cycle.status = .running →
    cycle.conversationId ∈ scannedConversations σ ∧
        cycle.conversationId ∉ resumableConversations σ ∨
      ResumableSession σ cycle.sessionId

instance (σ : Store) : Decidable (CyclesReached σ) := by unfold CyclesReached; infer_instance

variable {hasPlatform : Bool} {σ σ' : Store}

/-! ## What every recovery does -/

theorem recover_kept (hasPlatform : Bool) (σ : Store) :
    wp (during (Progress (resumableConversations σ) (RotationsOrdered σ))) (recover hasPlatform)
      (returns fun _ w' => policy (resumableConversations σ) w'.store =
        policy (resumableConversations σ) σ ∧ Quiescent (resumableConversations σ) w'.store)
      (boot σ) :=
  recover_spec (w := boot σ) hasPlatform rfl id

theorem recover_returns (c : Config App Unit)
    (h : Reaches alone (recover hasPlatform, boot σ) c) :
    (∃ c', Step alone c c') ∨ c.1 = .ret (.ok ()) := by
  have hw := wp_reaches (C := during _) (recover_kept hasPlatform σ) h
  obtain ⟨p, w⟩ := c
  rcases wp_progress (fun op w _ => alone_answered _ op w) hw with hs | ⟨r, rfl, hr⟩ | ⟨_, hstuck⟩
  · exact .inl hs
  · cases r with
    | error e => exact absurd hr id
    | ok _ => exact .inr rfl
  · exact absurd hstuck id

/-- There is a complete recovery from every store. -/
theorem exists_recovers (hasPlatform : Bool) (σ : Store) : ∃ σ', Recovers hasPlatform σ σ' := by
  obtain ⟨r, w', hr, hQ⟩ := exists_end_alone (recover_kept hasPlatform σ)
  cases r with
  | error e => exact absurd hQ id
  | ok _ => exact ⟨w'.store, w', hr, rfl⟩

/-- Where a complete recovery ends: where the policy sends every entity. -/
theorem Recovers.outcome (h : Recovers hasPlatform σ σ') :
    entityStates σ' = policy (resumableConversations σ) σ ∧
      Quiescent (resumableConversations σ) σ' := by
  obtain ⟨w', hr, rfl⟩ := h
  obtain ⟨hpol, hq⟩ := wp_reaches (C := during _) (recover_kept hasPlatform σ) hr
  exact ⟨hq.policy_eq.symm.trans hpol, hq⟩

theorem resumableAre_self (σ : Store) : ResumableAre (resumableConversations σ) σ := fun _ => Iff.rfl

theorem Recovers.resumable (h : Recovers hasPlatform σ σ') :
    ResumableAre (resumableConversations σ) σ' :=
  resumableAre_after (resumableAre_self σ) h.outcome.1 h.outcome.2

/-- A second recovery, cut or not, changes nothing. -/
theorem recovers_again {σ'' : Store} (h : Recovers hasPlatform σ σ')
    (h' : CutAt hasPlatform σ' σ'') : σ'' = σ' := by
  obtain ⟨w', ⟨p, hr⟩, rfl⟩ := h'
  have hq : Quiescent (resumableConversations σ') σ' :=
    h.outcome.2.congr fun cid => (h.resumable cid).symm
  let I (w : World) : Prop := w.store = σ'
  have hidle := recover_idle (w := boot σ') hasPlatform hq
  refine invariant_reaches (C := idle) (I := I) hidle hr rfl (fun _ _ _ hg => hg.elim) ?_
  rintro op w₁ a w₂ hw ha
  obtain rfl : w₂ = w₁ := ha.1
  exact hw

/-- Where rotations are ordered, a recovery that was cut left the policy and the resumable
conversations as they were. -/
theorem CutAt.kept (h : CutAt hasPlatform σ σ') (hord : RotationsOrdered σ) :
    policy (resumableConversations σ) σ' = policy (resumableConversations σ) σ ∧
      ResumableAre (resumableConversations σ) σ' := by
  obtain ⟨w', ⟨p, hr⟩, rfl⟩ := h
  let I (w : World) : Prop :=
    policy (resumableConversations σ) w.store = policy (resumableConversations σ) σ ∧
      ResumableAre (resumableConversations σ) w.store
  refine invariant_reaches (C := during _) (I := I) (recover_kept hasPlatform σ) hr
    ⟨rfl, resumableAre_self σ⟩ ?_ ?_
  · rintro w₁ w₂ ⟨hpol, hres⟩ hg
    exact ⟨hg.policy.trans hpol, hg.resumable hord hres⟩
  · rintro op w₁ a w₂ h ha
    obtain rfl : w₂ = w₁ := ha.1
    exact h

theorem crash_equivalent (hord : RotationsOrdered σ) {σ₁ σ₂ : Store}
    (h₁ : CutAt hasPlatform σ σ₁) (h₂ : Recovers hasPlatform σ₁ σ₂)
    (h : Recovers hasPlatform σ σ') : entityStates σ₂ = entityStates σ' := by
  obtain ⟨hpol, hres⟩ := h₁.kept hord
  calc entityStates σ₂ = policy (resumableConversations σ₁) σ₁ := h₂.outcome.1
    _ = policy (resumableConversations σ) σ₁ := policy_congr hres σ₁
    _ = policy (resumableConversations σ) σ := hpol
    _ = entityStates σ' := h.outcome.1.symm

/-! ## What is left open -/

theorem Recovers.resumableSession_iff (h : Recovers hasPlatform σ σ') (sid : String) :
    ResumableSession σ' sid ↔ ResumableSession σ sid := by
  obtain ⟨hout, hq⟩ := h.outcome
  constructor
  · rintro ⟨s', hs', rfl, hrun, cid, hcid, hcur⟩
    obtain ⟨s, hs, he⟩ := session_before hout hs'
    obtain ⟨hsid, hcur', hstatus⟩ := sameSession_of_states he
    exact ⟨s, hs, hsid, running_of_sessionAfter (hstatus.trans hrun), cid, (h.resumable cid).1 hcid,
      hcur'.trans hcur⟩
  · rintro ⟨s, hs, rfl, hstay⟩
    obtain ⟨s', hs', he⟩ := session_after hout hs
    obtain ⟨hsid, hcur', hstatus⟩ := sameSession_of_states he
    have hafter := sessionAfter_of_staysRunning (resumableAre_self σ).found hstay
    obtain ⟨_, cid, hcid, hcur⟩ := hstay
    exact ⟨s', hs', hsid, hstatus.trans hafter, cid, (h.resumable cid).2 hcid, hcur'.trans hcur⟩

theorem cycles_of_outcome (h : Recovers hasPlatform σ σ') :
    σ'.cycles.rows.map (fun c => cycleIn c c.status) =
      σ.cycles.rows.map fun c => cycleIn c (cycleAfter (resumableConversations σ) σ c) :=
  congrArg EntityStates.cycles h.outcome.1

/-- The cycles that still run after a recovery are those that it did not reach. -/
theorem Recovers.clean_cycles_iff (h : Recovers hasPlatform σ σ') :
    (∀ cycle ∈ σ'.cycles.rows, cycle.status = .running → ResumableSession σ' cycle.sessionId) ↔
      CyclesReached σ := by
  have hrows := cycles_of_outcome h
  have after_eq (c : CycleRecord) : cycleAfter (resumableConversations σ) σ c = .running ↔
      c.status = .running ∧ ¬ (c.conversationId ∈ scannedConversations σ ∧
        c.conversationId ∉ resumableConversations σ) := by
    rw [cycleAfter_eq_running_iff, not_and_not_right]
    tauto
  constructor
  · intro hclean c hc hrun
    by_contra hn
    obtain ⟨hreach, hsess⟩ := not_or.1 hn
    have hmem := List.mem_map_of_mem
      (f := fun c => cycleIn c (cycleAfter (resumableConversations σ) σ c)) hc
    rw [← hrows] at hmem
    obtain ⟨c', hc', he⟩ := List.mem_map.1 hmem
    simp only [cycleIn, CycleRecord.mk.injEq] at he
    have := hclean c' hc' (he.2.2.2.2.1.trans ((after_eq c).2 ⟨hrun, hreach⟩))
    exact hsess ((h.resumableSession_iff _).1 (he.2.2.1 ▸ this))
  · intro hreach c' hc' hrun
    have hmem := List.mem_map_of_mem (f := fun c : CycleRecord => cycleIn c c.status) hc'
    rw [hrows] at hmem
    obtain ⟨c, hc, he⟩ := List.mem_map.1 hmem
    simp only [cycleIn, CycleRecord.mk.injEq] at he
    obtain ⟨hrun', hnot⟩ := (after_eq c).1 (he.2.2.2.2.1.trans hrun)
    rw [← he.2.2.1, h.resumableSession_iff]
    exact (hreach c hc hrun').resolve_left hnot

theorem Recovers.clean_iff (h : Recovers hasPlatform σ σ') : Clean σ' ↔ CyclesReached σ := by
  refine ⟨fun hc => h.clean_cycles_iff.1 hc.cycles, fun hreach => ?_⟩
  obtain ⟨hout, hq⟩ := h.outcome
  refine ⟨hq.tasks, hq.plans, fun c hc ha => ?_, h.clean_cycles_iff.2 hreach, fun s hs => ?_⟩
  · have hR := (h.resumable _).2 (hq.conversations c hc ha)
    have hres := ((resumableAre_self σ').iff hc).1 hR
    obtain ⟨s, hget, hrun, hcur⟩ :=
      (resumableButForRotation_iff.1 (isResumable_iff.1 hres).1).2.1
    obtain ⟨hs, hsid⟩ := Table.find_eq_some_iff.1 hget
    exact ⟨s, hs, hsid, hrun, _, hR, hcur⟩
  · by_cases ho : s.status ∈ openSessionStates
    · obtain ⟨hrun, cid, hcid, hcur⟩ := hq.sessions s hs ho
      exact .inr ⟨hrun, s, hs, rfl, hrun, cid, (h.resumable cid).2 hcid, hcur⟩
    · refine .inl ?_
      cases hst : s.status <;> rw [hst] at ho <;> first | decide | exact absurd (by decide) ho

/-! ## A cut that lets a conversation go -/

theorem exists_end_returns {α : Type} {keeps : Store → Store → Prop} {p : Prog App α} {w : World}
    {Q : α → World → Prop} (h : wp (during keeps) p (returns Q) w) :
    ∃ a w', Reaches alone (p, w) (.ret (.ok a), w') ∧ Q a w' := by
  obtain ⟨r, w', hr, hQ⟩ := exists_end_alone h
  cases r with
  | error e => exact absurd hQ id
  | ok a => exact ⟨a, w', hr, hQ⟩

theorem passes_readStore {β : Type} {k : Store → Prog App β} {w w' : World}
    (h : Passes alone (k w.store) w w') : Passes alone (readStore >>= k) w w' := .get h

variable (hasPlatform) in
/-- A recovery may be cut after each of the conversations that it interrupts. -/
theorem cutAt_interrupting {first rest : List ConversationRecord}
    (hsplit : σ.findConversationsInStates activeConversationStates = first ++ rest) :
    ∃ σ₀ σ₁, CutAt hasPlatform σ σ₁ ∧ σ₀.conversations = σ.conversations ∧
      σ₀.sessions = σ.sessions ∧ σ₀.messages = σ.messages ∧
      Interrupting (resumableConversations σ) False σ₀ rest σ₁ := by
  let R := resumableConversations σ
  let C : Contract App := during (Progress R False)
  have spec₁ : wp C _ _ _ := interruptRunningTasks_spec hasPlatform (boot σ)
  obtain ⟨⟨⟩, w₁, run₁, h₁⟩ := exists_end_returns spec₁
  have spec₂ : wp C _ _ _ := interruptPendingTasksAndPlans_spec h₁
  obtain ⟨⟨⟩, w₂, run₂, ⟨tasks, plans, hw₂⟩, -, -, -⟩ := exists_end_returns spec₂
  have spec₃ : wp C _ _ w₂ := settleScannedCycles_spec
  obtain ⟨⟨⟩, w₃, run₃, ⟨cycles, hw₃⟩, -, hcyc⟩ := exists_end_returns spec₃
  have hinit : Interrupting R False w₃.store (first ++ rest) w₃.store := by
    have hfind : w₃.store.findConversationsInStates activeConversationStates = first ++ rest := by
      rw [← hsplit, hw₃, hw₂]
      rfl
    exact hfind ▸ interrupting_init hcyc False.elim
  have spec₄ : wp C _ _ _ := interruptConversations_spec hinit
  obtain ⟨⟨⟩, w₄, run₄, h₄⟩ := exists_end_returns spec₄
  have hR₂ : resumableConversations w₂.store = R :=
    resumableConversations_congr (by rw [hw₂]; rfl) (by rw [hw₂]; rfl) (by rw [hw₂]; rfl)
  have hfind₂ : w₂.store.findConversationsInStates activeConversationStates = first ++ rest := by
    rw [← hsplit, hw₂]
    rfl
  refine ⟨w₃.store, w₄.store, ⟨w₄, ?_, rfl⟩, by rw [hw₃, hw₂]; rfl, by rw [hw₃, hw₂]; rfl,
    by rw [hw₃, hw₂]; rfl, h₄⟩
  refine .bind_right run₁ (.bind_right run₂ (.bind_left (passes_readStore ?_)))
  simp only [hR₂, hfind₂, List.forM_append]
  exact .bind_right run₃ (.bind_left (.bind_left (.of_reaches run₄)))

/-- A rotating conversation that precedes the child it holds back is interrupted before it, and a
recovery cut in between makes the child resumable. -/
theorem exists_cut_of_not_ordered (hasPlatform : Bool) (h : ¬ RotationsOrdered σ) :
    ∃ σ₁, CutAt hasPlatform σ σ₁ ∧ ∃ c ∈ σ.conversations.rows,
      c ∈ σ₁.conversations.rows ∧ ¬ isResumable σ c ∧ isResumable σ₁ c := by
  unfold RotationsOrdered at h
  simp only [List.pairwise_iff_forall_sublist, not_forall, not_not] at h
  obtain ⟨p, c, hsub, hrot, hpar, hbut⟩ := h
  have hp : p ∈ σ.conversations.rows := hsub.subset (by simp)
  have hc : c ∈ σ.conversations.rows := hsub.subset (by simp)
  have hwait := (resumableButForRotation_iff.1 hbut).1
  have hpa : p.status ∈ activeConversationStates := by rw [hrot]; decide
  have hca : c.status ∈ activeConversationStates := by rw [hwait]; decide
  have hlist : [p, c].Sublist (σ.findConversationsInStates activeConversationStates) := by
    have := hsub.filter fun c => decide (c.status ∈ activeConversationStates)
    simpa [hpa, hca, Store.findConversationsInStates] using this
  obtain ⟨first, rest, hsplit, hpf, hcr⟩ := List.cons_sublist_iff.1 hlist
  rw [List.singleton_sublist] at hcr
  obtain ⟨σ₀, σ₁, hcut, hconv, hsess, hmsg, hint⟩ := cutAt_interrupting hasPlatform hsplit
  have hnodup : (first ++ rest).Nodup := hsplit ▸ σ.conversations.rows_nodup.filter _
  have hpnot : p ∉ rest := fun hpr => (List.nodup_append.1 hnodup).2.2 p hpf p hpr rfl
  obtain ⟨conversations, hframe⟩ := hint.frame
  have hbut₁ : resumableButForRotation σ₁ c :=
    (resumableButForRotation_congr σ₁ (by rw [hframe]; exact hsess) (by rw [hframe]; exact hmsg) c).trans
      hbut
  have hheld : ¬ isResumable σ c := fun hres => by
    have := (isResumable_iff.1 hres).2
    rw [← Bool.not_eq_true, rotationInFlight_iff] at this
    exact this ⟨p, hp, hpar, hrot⟩
  refine ⟨σ₁, hcut, c, hc, hint.todo.sub c hcr, hheld, isResumable_iff.2 ⟨hbut₁, ?_⟩⟩
  -- a parent still rotating would be to come, but it came first
  rw [← Bool.not_eq_true, rotationInFlight_iff]
  rintro ⟨q, hq, hqpar, hqrot⟩
  have hqa : q.status ∈ activeConversationStates := by rw [hqrot]; decide
  have hqid : q.conversationId = p.conversationId := Option.some.inj (hqpar.symm.trans hpar)
  have hqR : q.conversationId ∉ resumableConversations σ := by
    rw [hqid, mem_resumable_iff hp]
    intro hres
    have := (resumableButForRotation_iff.1 (isResumable_iff.1 hres).1).1
    exact absurd (hrot.symm.trans this) (by decide)
  have hqrest := hint.todo.all q hq ⟨hqa, hqR⟩
  have hqσ : q ∈ σ.conversations.rows :=
    (Store.mem_findConversationsInStates.1 (hsplit ▸ List.mem_append_right first hqrest)).1
  exact hpnot (Table.key_inj hqσ hp hqid ▸ hqrest)

theorem ordered_of_crash (h : ∀ σ₁ σ₂ σ', CutAt hasPlatform σ σ₁ → Recovers hasPlatform σ₁ σ₂ →
    Recovers hasPlatform σ σ' → entityStates σ₂ = entityStates σ') : RotationsOrdered σ := by
  by_contra hno
  obtain ⟨σ₁, hcut, c, hc, hc₁, hres, hres₁⟩ := exists_cut_of_not_ordered hasPlatform hno
  obtain ⟨σ₂, h₂⟩ := exists_recovers hasPlatform σ₁
  obtain ⟨σ', h'⟩ := exists_recovers hasPlatform σ
  have hwait := (resumableButForRotation_iff.1 (isResumable_iff.1 hres₁).1).1
  have hn : c.conversationId ∉ resumableConversations σ := fun hR => hres ((mem_resumable_iff hc).1 hR)
  obtain ⟨c₂, hc₂, he₂⟩ := conversation_after h₂.outcome.1 hc₁
  have hstates : entityStates σ₂ = policy (resumableConversations σ) σ :=
    (h σ₁ σ₂ σ' hcut h₂ h').trans h'.outcome.1
  obtain ⟨d, hd, hde⟩ := conversation_before hstates hc₂
  obtain ⟨hid, _, _, hstatus⟩ := sameConversation_of_states (hde.trans he₂)
  obtain rfl : d = c := Table.key_inj hd hc hid
  have hafter₁ : conversationAfter (resumableConversations σ₁) σ₁ d = .waitingModelResponse := by
    rw [conversationAfter, if_pos ((mem_resumable_iff hc₁).2 hres₁), hwait]
  have hafter : conversationAfter (resumableConversations σ) σ d = .interrupted := by
    rw [conversationAfter, if_neg hn, if_pos (by rw [hwait]; decide)]
  exact absurd (hafter.symm.trans (hstatus.trans hafter₁)) (by decide)

theorem cyclesReached_of_sound (h : Sound hasPlatform σ) : CyclesReached σ := by
  obtain ⟨σ', hrec⟩ := exists_recovers hasPlatform σ
  exact hrec.clean_iff.1 (h.clean σ' hrec)

/-- Exactly the stores from which the recovery is sound. -/
theorem recover_sound_iff (hasPlatform : Bool) (σ : Store) :
    Sound hasPlatform σ ↔ CyclesReached σ ∧ RotationsOrdered σ := by
  refine ⟨fun h => ⟨cyclesReached_of_sound h, ordered_of_crash h.crash⟩, ?_⟩
  rintro ⟨hreach, hord⟩
  exact ⟨recover_returns, fun _ h => h.clean_iff.2 hreach, fun _ _ => recovers_again,
    fun _ _ _ => crash_equivalent hord⟩

/-- A session that was paused on the first reply after a rotation: the cycle of the message that
waits is recorded under the parent, which is closed. -/
def pausedAfterRotation : Store where
  sessions := .ofRows [.sample "s" .paused (some "child")]
  conversations := .ofRows [.sample "parent" "s" .closed,
    { ConversationRecord.sample "child" "s" .waitingModelResponse with
      parentConversationId := some "parent", currentCycleId := some "cycle" }]
  cycles := .ofRows [.sample "cycle" "s" "parent" .running]
  messages := .ofRows [.sample "m1" "s" "parent" .outbound .userRequest (some "cycle"),
    .sample "m2" "s" "child" .outbound .contextResumeRequest (some "resume"),
    .sample "m3" "s" "child" .inbound .contextResumeAck (some "resume"),
    .sample "m4" "s" "child" .outbound .userRequest (some "cycle")]

theorem recover_not_sound_pausedAfterRotation : ¬ Sound true pausedAfterRotation := fun h =>
  absurd (cyclesReached_of_sound h) (by decide)

end Recovery

end AgenticLocalApp
