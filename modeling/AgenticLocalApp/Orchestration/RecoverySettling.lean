import AgenticLocalApp.Orchestration.RecoveryPasses

/-!
# Settling cycles and conversations

Cycles come first: once they are settled, a conversation may leave the active states without
changing where any cycle goes.
-/

namespace AgenticLocalApp

open Prog

namespace Recovery

variable {R : List String} {ordered : Prop} {w : World}

/-! ## Cycles -/

/-- No cycle of `cid` is running, and only cycles have changed, none of them by starting. -/
structure CyclesStopped (R : List String) (σ : Store) (settled : String → Prop) (σ' : Store) :
    Prop where
  frame : ∃ cycles, σ' = { σ with cycles := cycles }
  policy : policy R σ' = policy R σ
  stopped : ∀ cycle ∈ σ'.cycles.rows, cycle.status = .running →
    cycle ∈ σ.cycles.rows ∧ ¬ settled cycle.conversationId

theorem wp_interruptCycle {cycle : CycleRecord} {Q} (hc : cycle ∈ w.store.cycles.rows)
    (hrun : cycle.status = .running) (hs : cycle.conversationId ∈ scannedConversations w.store)
    (hn : cycle.conversationId ∉ R)
    (h : ∀ now, policy R (w.store.saveCycle (interruptedCycle cycle now)) = policy R w.store →
      Q (.ok ()) { w with store := w.store.saveCycle (interruptedCycle cycle now) }) :
    wp (during (Progress R ordered)) (interruptCycle cycle) Q w := by
  unfold interruptCycle
  rw [wp_bind]
  refine wp_checkTransition (by rw [hrun]; rfl) ?_
  rw [after_ok, wp_bind]
  refine wp_now (quiet_during _) fun now => ?_
  have hp : policy R (w.store.saveCycle (interruptedCycle cycle now)) = policy R w.store :=
    policy_interruptCycle hc (by rw [cycleAfter, if_pos ⟨hrun, hs, hn⟩])
  exact ⟨.of_policy hp rfl rfl rfl, h now hp⟩

theorem interruptCycles_spec {cid : String} (hs : cid ∈ scannedConversations w.store) (hn : cid ∉ R) :
    wp (during (Progress R ordered)) (interruptCycles cid)
      (returns fun _ w' => CyclesStopped R w.store (· = cid) w'.store) w := by
  unfold interruptCycles
  simp only [wp_bind, wp_readStore, after_ok]
  let I (rest : List CycleRecord) (w' : World) : Prop :=
    (∃ cycles, w'.store = { w.store with cycles := cycles }) ∧ policy R w'.store = policy R w.store ∧
      w'.store.cycles.ToDo rest (fun c => c.status = .running ∧ c.conversationId = cid) ∧
      (∀ c ∈ rest, c.conversationId = cid) ∧
      ∀ c ∈ w'.store.cycles.rows, c.status = .running → c ∈ w.store.cycles.rows
  have step : ∀ cycle rest w', I (cycle :: rest) w' →
      wp (during (Progress R ordered))
        (if cycle.status = .running then interruptCycle cycle else pure ())
        (returns fun _ => I rest) w' := by
    rintro cycle rest w' ⟨⟨cycles, hw⟩, hpol, htodo, hof, hsub⟩
    have hof' : ∀ c ∈ rest, c.conversationId = cid := fun c hc => hof c (List.mem_cons_of_mem _ hc)
    rw [wp_ite]
    refine ⟨fun hrun => ?_, fun hrun => ?_⟩
    · have hid : cycle.conversationId = cid := hof cycle List.mem_cons_self
      have hscan : cycle.conversationId ∈ scannedConversations w'.store := by
        rw [hid, hw]
        exact hs
      refine wp_interruptCycle htodo.head hrun hscan (hid ▸ hn) fun now hpol' => ?_
      refine ⟨⟨_, by rw [hw]; rfl⟩, hpol'.trans hpol,
        htodo.save (interruptedCycle_key cycle now) (by simp), hof', fun c hc hr => ?_⟩
      rcases (Table.mem_save_over htodo.head (interruptedCycle_key cycle now)).1 hc with rfl | ⟨hc, _⟩
      · exact absurd hr (by simp)
      · exact hsub c hc hr
    · exact ⟨⟨_, hw⟩, hpol, htodo.skip fun h => hrun h.1, hof', hsub⟩
  have init : I (w.store.listCycles cid) w := by
    refine ⟨⟨_, rfl⟩, rfl, .of_perm_filter (List.Perm.refl _) fun c _ hc => by simpa using hc.2,
      fun c hc => (Store.mem_listCycles.1 hc).2, fun c hc _ => hc⟩
  refine wp_mono (wp_forM step init) ?_
  rintro (e | _) w' ⟨hw, hpol, htodo, _, hsub⟩
  exact ⟨hw, hpol, fun c hc hr => ⟨hsub c hc hr, fun hid => htodo.done hc ⟨hr, hid⟩⟩⟩

/-- The conversations of the list that are not seen yet are settled one by one. -/
theorem settleCycles_spec {seen cids : List String}
    (hs : ∀ cid ∈ cids, cid ∈ scannedConversations w.store)
    (hseen : ∀ cycle ∈ w.store.cycles.rows, cycle.status = .running →
      cycle.conversationId ∈ seen → cycle.conversationId ∈ R) :
    wp (during (Progress R ordered)) (settleCycles R seen cids)
      (returns fun _ w' =>
        CyclesStopped R w.store (fun cid => (cid ∈ seen ∨ cid ∈ cids) ∧ cid ∉ R) w'.store) w := by
  induction cids generalizing seen w with
  | nil =>
    exact ⟨⟨_, rfl⟩, rfl, fun c hc hr => ⟨hc, fun h =>
      h.2 (hseen c hc hr (h.1.resolve_right List.not_mem_nil))⟩⟩
  | cons cid rest ih =>
    have hs' : ∀ c ∈ rest, c ∈ scannedConversations w.store :=
      fun c hc => hs c (List.mem_cons_of_mem _ hc)
    unfold settleCycles
    rw [wp_ite]
    refine ⟨fun hmem => ?_, fun _ => ?_⟩
    · refine wp_mono (ih hs' hseen) ?_
      rintro (e | _) w' h
      · exact h
      · refine ⟨h.frame, h.policy, fun c hc hr => ⟨(h.stopped c hc hr).1, fun hcid => ?_⟩⟩
        refine (h.stopped c hc hr).2 ⟨?_, hcid.2⟩
        rcases hcid.1 with hm | hm
        · exact .inl hm
        · rcases List.mem_cons.1 hm with he | hm
          · exact .inl (he ▸ hmem)
          · exact .inr hm
    · -- what is left after this conversation, whether it was to be settled or not
      have go (w' : World) (h : CyclesStopped R w.store (fun c => c = cid ∧ c ∉ R) w'.store) :
          wp (during (Progress R ordered)) (settleCycles R (cid :: seen) rest)
            (returns fun _ w'' => CyclesStopped R w.store
              (fun c => (c ∈ seen ∨ c ∈ cid :: rest) ∧ c ∉ R) w''.store) w' := by
        obtain ⟨⟨cycles, hw⟩, hpol, hstop⟩ := h
        have hseen' : ∀ c ∈ w'.store.cycles.rows, c.status = .running →
            c.conversationId ∈ cid :: seen → c.conversationId ∈ R := by
          intro c hc hr hm
          by_contra hn
          rcases List.mem_cons.1 hm with he | hm
          · exact (hstop c hc hr).2 ⟨he, hn⟩
          · exact hn (hseen c (hstop c hc hr).1 hr hm)
        refine wp_mono (ih (by rw [hw]; exact hs') hseen') ?_
        rintro (e | _) w'' h
        · exact h
        · obtain ⟨⟨cycles', hw'⟩, hpol', hstop'⟩ := h
          refine ⟨⟨cycles', by rw [hw', hw]⟩, hpol'.trans hpol, fun c hc hr => ?_⟩
          obtain ⟨hc', hn⟩ := hstop' c hc hr
          refine ⟨(hstop c hc' hr).1, fun hcid => hn ⟨?_, hcid.2⟩⟩
          simp only [List.mem_cons] at hcid ⊢
          tauto
      simp only [wp_ite, wp_bind]
      refine ⟨fun hR => ?_, fun hR => ?_⟩
      · exact go w ⟨⟨_, rfl⟩, rfl, fun c hc _ => ⟨hc, fun h => h.2 (h.1 ▸ hR)⟩⟩
      · refine wp_mono (interruptCycles_spec (hs cid List.mem_cons_self) hR) ?_
        rintro (e | _) w' h
        · exact h
        · exact go w' ⟨h.frame, h.policy, fun c hc hr =>
            ⟨(h.stopped c hc hr).1, fun hcid => (h.stopped c hc hr).2 hcid.1⟩⟩

/-! ## Conversations -/

theorem sameConversation_moveTo (c : ConversationRecord) (target : ConversationState) (now : Instant) :
    SameConversation (c.moveTo target now) c := by
  intro status
  unfold ConversationRecord.moveTo
  dsimp only
  split <;> rfl

@[simp] theorem moveTo_status (c : ConversationRecord) (target : ConversationState) (now : Instant) :
    (c.moveTo target now).status = target := by
  unfold ConversationRecord.moveTo
  dsimp only
  split <;> rfl

/-- An active conversation that is not in `R` sends its sessions to `READY`, and so does an
interrupted one. -/
theorem openSessionAfter_of_active {status : SessionState} {c : ConversationRecord}
    (hn : c.conversationId ∉ R)
    (hc : c.status ∈ activeConversationStates ∨ c.status = .interrupted) :
    openSessionAfter R status (some c) = .ready := by
  have hfail : c.status ≠ .failed := by
    rintro e
    rw [e] at hc
    exact absurd hc (by decide)
  have hfin : c.status ∉ finishedConversationStates := by
    rcases hc with h | h
    · cases hs : c.status <;> rw [hs] at h <;> first | decide | exact absurd h (by decide)
    · rw [h]
      decide
  simp only [openSessionAfter, hn, hfail, hfin, false_and, and_false, if_false]

theorem policy_interruptConversation {σ : Store} {c : ConversationRecord} {now : Instant}
    (hc : c ∈ σ.conversations.rows) (hn : c.conversationId ∉ R) (hcycles : CyclesSettled R σ)
    (ha : c.status ∈ activeConversationStates) :
    policy R (σ.saveConversation (c.moveTo .interrupted now)) = policy R σ := by
  refine policy_saveConversation hc (sameConversation_moveTo c _ _) hn hcycles (by simp [activeConversationStates])
    (by simp) ?_ fun status => ?_
  · rw [moveTo_status, conversationAfter, if_neg hn, if_pos ha]
  · have hk : (c.moveTo .interrupted now).conversationId = c.conversationId :=
      (sameConversation_moveTo c _ _).key
    rw [openSessionAfter_of_active (hk ▸ hn) (.inr (moveTo_status c _ _)),
      openSessionAfter_of_active hn (.inl ha)]

/-- No conversation is active but those of `R`, and the cycles are settled. -/
structure ConversationsSettled (R : List String) (σ σ' : Store) : Prop where
  frame : ∃ cycles conversations, σ' = { σ with cycles := cycles, conversations := conversations }
  policy : policy R σ' = policy R σ
  cycles : CyclesSettled R σ'
  settled : ∀ c ∈ σ'.conversations.rows, c.status ∈ activeConversationStates → c.conversationId ∈ R

/-- `p` is a rotating conversation, and `c` its child that would be resumable but for that. -/
def HeldBack (σ : Store) (p c : ConversationRecord) : Prop :=
  p.status = .rotating ∧ c.parentConversationId = some p.conversationId ∧
    resumableButForRotation σ c

/-- Where the loop over the active conversations stands. -/
structure Interrupting (R : List String) (ordered : Prop) (σ : Store)
    (rest : List ConversationRecord) (σ' : Store) : Prop where
  frame : ∃ conversations, σ' = { σ with conversations := conversations }
  policy : Recovery.policy R σ' = Recovery.policy R σ
  cycles : CyclesSettled R σ'
  todo : σ'.conversations.ToDo rest fun c =>
    c.status ∈ activeConversationStates ∧ c.conversationId ∉ R
  active : ∀ c ∈ rest, c.status ∈ activeConversationStates
  order : ordered → rest.Pairwise fun p c => ¬ HeldBack σ p c

theorem interruptConversations_step {σ : Store} {c : ConversationRecord}
    {rest : List ConversationRecord} (h : Interrupting R ordered σ (c :: rest) w.store) :
    wp (during (Progress R ordered))
      (if c.conversationId ∈ R then pure () else do
        let _ ← interruptConversation c.conversationId)
      (returns fun _ w' => Interrupting R ordered σ rest w'.store) w := by
  obtain ⟨⟨conversations, hw⟩, hpol, hcyc, htodo, hact, hord⟩ := h
  have hact' : ∀ d ∈ rest, d.status ∈ activeConversationStates :=
    fun d hd => hact d (List.mem_cons_of_mem _ hd)
  have hord' : ordered → rest.Pairwise fun p c => ¬ HeldBack σ p c :=
    fun ho => (List.pairwise_cons.1 (hord ho)).2
  simp only [wp_ite, wp_bind]
  refine ⟨fun hR => ?_, fun hR => ?_⟩
  · exact ⟨⟨_, hw⟩, hpol, hcyc, htodo.skip fun h => h.2 hR, hact', hord'⟩
  · have ha := hact c List.mem_cons_self
    have hsame (now : Instant) := sameConversation_moveTo c .interrupted now
    refine wp_interruptConversation (quiet_during _) (Table.find_of_mem htodo.head) ha fun now => ?_
    have hna : (c.moveTo .interrupted now).status ∉ activeConversationStates := by
      simp [activeConversationStates]
    have hpol' : policy R (w.store.saveConversation (c.moveTo .interrupted now)) = policy R w.store :=
      policy_interruptConversation htodo.head hR hcyc ha
    refine ⟨⟨hpol', fun ho hres => ?_⟩, ⟨_, by rw [hw]; rfl⟩, hpol'.trans hpol, ?_, ?_, hact', hord'⟩
    · -- a child that this rotation alone holds back would still be to come, after its parent
      refine resumableAre_saveConversation hres htodo.head (hsame now) hR hna ?_
      intro hrot d hd hdc hpar hbut
      have hdR : d.conversationId ∉ R := fun hdR => by
        have := (isResumable_iff.1 ((hres.iff hd).1 hdR)).2
        rw [← Bool.not_eq_true, rotationInFlight_iff] at this
        exact this ⟨c, htodo.head, hpar, hrot⟩
      have hda : d.status ∈ activeConversationStates := by
        rw [(resumableButForRotation_iff.1 hbut).1]
        decide
      have hdrest := (List.mem_cons.1 (htodo.all d hd ⟨hda, hdR⟩)).resolve_left hdc
      refine (List.pairwise_cons.1 (hord ho)).1 d hdrest ⟨hrot, hpar, ?_⟩
      rwa [resumableButForRotation_congr w.store (by rw [hw]) (by rw [hw])] at hbut
    · exact cyclesSettled_mono _ hcyc rfl (scanned_saveConversation htodo.head (hsame now) hna)
    · exact htodo.save (hsame now).key fun h => hna h.1

theorem interrupting_init {σ : Store} (hcyc : CyclesSettled R σ)
    (hord : ordered → RotationsOrdered σ) :
    Interrupting R ordered σ (σ.findConversationsInStates activeConversationStates) σ where
  frame := ⟨_, rfl⟩
  policy := rfl
  cycles := hcyc
  todo := .of_perm_filter (List.Perm.refl _) fun c _ hc => by simpa using hc.1
  active c hc := (Store.mem_findConversationsInStates.1 hc).2
  order ho := (hord ho).sublist List.filter_sublist

/-- The first conversations of the list, `rest` being the others. -/
theorem interruptConversations_spec {σ : Store} {first rest : List ConversationRecord}
    (h : Interrupting R ordered σ (first ++ rest) w.store) :
    wp (during (Progress R ordered))
      (forM first fun conversation =>
        if conversation.conversationId ∈ R then pure () else do
          let _ ← interruptConversation conversation.conversationId)
      (returns fun _ w' => Interrupting R ordered σ rest w'.store) w := by
  let I (todo : List ConversationRecord) (w' : World) : Prop :=
    Interrupting R ordered σ (todo ++ rest) w'.store
  have init : I first w := h
  have step (c : ConversationRecord) (todo : List ConversationRecord) (w' : World)
      (h : I (c :: todo) w') := interruptConversations_step h
  exact wp_mono (wp_forM step init) fun _ _ h => h

/-- The pass over the cycles: afterwards those of the conversations in view are settled. -/
theorem settleScannedCycles_spec :
    wp (during (Progress R ordered)) (settleCycles R [] (scannedConversations w.store))
      (returns fun _ w' => (∃ cycles, w'.store = { w.store with cycles := cycles }) ∧
        policy R w'.store = policy R w.store ∧ CyclesSettled R w'.store) w := by
  refine wp_mono (settleCycles_spec (fun _ h => h) (by simp)) ?_
  rintro (e | _) w' h
  · exact h
  · obtain ⟨⟨cycles, hw⟩, hpol, hstop⟩ := h
    refine ⟨⟨cycles, hw⟩, hpol, fun c hc hr hs => ?_⟩
    by_contra hn
    rw [hw] at hs
    exact (hstop c hc hr).2 ⟨.inr hs, hn⟩

theorem settleConversations_spec (hR : resumableConversations w.store = R)
    (hord : ordered → RotationsOrdered w.store) :
    wp (during (Progress R ordered)) settleConversations
      (returns fun resumable w' => resumable = R ∧ ConversationsSettled R w.store w'.store) w := by
  unfold settleConversations
  simp only [wp_bind, wp_readStore, after_ok, hR, wp_pure, true_and]
  refine wp_mono settleScannedCycles_spec ?_
  rintro (e | _) w₁ h₁
  · exact h₁
  · obtain ⟨⟨cycles, hw₁⟩, hpol₁, hcyc⟩ := h₁
    have hord₁ : ordered → RotationsOrdered w₁.store := fun ho => by
      rw [hw₁]
      exact hord ho
    have hfind : w.store.findConversationsInStates activeConversationStates =
        w₁.store.findConversationsInStates activeConversationStates ++ [] := by
      rw [hw₁, List.append_nil]
      rfl
    have hinit := interrupting_init hcyc hord₁
    rw [after_ok, hfind]
    rw [← List.append_nil (w₁.store.findConversationsInStates activeConversationStates)] at hinit
    rw [List.append_nil]
    refine wp_mono (interruptConversations_spec hinit) ?_
    rintro (e | _) w₂ h
    · exact h
    · obtain ⟨conversations, hw₂⟩ := h.frame
      exact ⟨⟨cycles, conversations, by rw [hw₂, hw₁]⟩, h.policy.trans hpol₁, h.cycles,
        fun c hc ha => by
          by_contra hn
          exact h.todo.done hc ⟨ha, hn⟩⟩

end Recovery

end AgenticLocalApp
