import AgenticLocalApp.Orchestration.Resumption
import AgenticLocalApp.Orchestration.SessionRun

/-!
# A crash in the conclusion

The end of a run takes the conversation to `COMPLETED`, then closes it or leaves it to the user, and
completes the session.  A crash between these writes leaves the rest to the recovery, which takes the
same decision from the record of the conversation alone.
-/

namespace AgenticLocalApp

open Prog

namespace Recovery

/-- The run is about to conclude: its conversation `c` waits for a reply, and its session `s` is open
and in it. -/
structure Finishing (σ : Store) (run : SessionRun) (s : SessionRecord) (c : ConversationRecord) :
    Prop where
  session : σ.getSession run.sid = some s
  opened : s.status ∈ openSessionStates
  conv : ∃ c₀, run.conv = some c₀ ∧ σ.getConversation c₀.conversationId = some c
  waiting : c.status = .waitingModelResponse
  current : s.currentConversationId = some c.conversationId

/-- Where the conclusion takes the conversation. -/
def concludedState (s : SessionRecord) (inbound : InboundMessage) : ConversationState :=
  if SessionRun.closes s inbound.content then .closed else .waitingUser

/-- The final answer of the session once the message is taken into account. -/
def finalAnswerAfter (s : SessionRecord) (inbound : InboundMessage) : Option Json :=
  match inbound.content with
  | .userResponse _ => s.finalAnswer
  | .other content => some content

/-- How far the conclusion has come, from the records `s'` and `c'`. -/
inductive Stage (s : SessionRecord) (inbound : InboundMessage) (s' : SessionRecord)
    (c' : ConversationRecord) : Prop
  | before (hc : c'.status = .waitingModelResponse)
  | completed (hc : c'.status = .completed) (hs : s'.status = s.status)
      (hf : s'.finalAnswer = finalAnswerAfter s inbound)
  | decided (hc : c'.status = concludedState s inbound) (hs : s'.status = s.status)
      (hf : s'.finalAnswer = finalAnswerAfter s inbound)
  | ended (hc : c'.status = concludedState s inbound) (hr : s.status = .running)
      (hs : s'.status = .completed) (hf : s'.finalAnswer = finalAnswerAfter s inbound)

/-- The store during the conclusion. -/
structure Concluding (sid : String) (s : SessionRecord) (c : ConversationRecord) (σ : Store)
    (s' : SessionRecord) (c' : ConversationRecord) : Prop where
  session : σ.getSession sid = some s'
  conversation : σ.getConversation c.conversationId = some c'
  current : s'.currentConversationId = some c.conversationId
  autoClose : s'.autoCloseOnFinalAnswer = s.autoCloseOnFinalAnswer
  convAutoClose : c'.autoCloseOnFinalAnswer = c.autoCloseOnFinalAnswer

def ConcludingIn (sid : String) (s : SessionRecord) (c : ConversationRecord)
    (inbound : InboundMessage) (σ : Store) : Prop :=
  ∃ s' c', Concluding sid s c σ s' c' ∧ Stage s inbound s' c'

namespace Concluding

variable {sid : String} {s s' : SessionRecord} {c c' : ConversationRecord} {σ σ' : Store}

theorem congr (h : Concluding sid s c σ s' c') (hs : σ'.sessions = σ.sessions)
    (hc : σ'.conversations = σ.conversations) : Concluding sid s c σ' s' c' where
  session := by
    unfold Store.getSession
    rw [hs]
    exact h.session
  conversation := by
    unfold Store.getConversation
    rw [hc]
    exact h.conversation
  current := h.current
  autoClose := h.autoClose
  convAutoClose := h.convAutoClose

theorem saveConversation {r : ConversationRecord} (h : Concluding sid s c σ s' c')
    (hk : r.conversationId = c'.conversationId)
    (ha : r.autoCloseOnFinalAnswer = c'.autoCloseOnFinalAnswer) :
    Concluding sid s c (σ.saveConversation r) s' r where
  session := h.session
  conversation := by
    have hk' : Keyed.key r = c.conversationId :=
      hk.trans (Table.find_eq_some_iff.1 h.conversation).2
    rw [← hk']
    exact Table.find_save_self _ _
  current := h.current
  autoClose := h.autoClose
  convAutoClose := ha.trans h.convAutoClose

theorem saveSession {r : SessionRecord} (h : Concluding sid s c σ s' c')
    (hk : r.sessionId = s'.sessionId) (hcur : r.currentConversationId = s'.currentConversationId)
    (ha : r.autoCloseOnFinalAnswer = s'.autoCloseOnFinalAnswer) :
    Concluding sid s c (σ.saveSession r) r c' where
  session := by
    have hk' : Keyed.key r = sid := hk.trans (Table.find_eq_some_iff.1 h.session).2
    rw [← hk']
    exact Table.find_save_self _ _
  conversation := h.conversation
  current := hcur.trans h.current
  autoClose := ha.trans h.autoClose
  convAutoClose := h.convAutoClose

theorem currentConversation (h : Concluding sid s c σ s' c') :
    AgenticLocalApp.currentConversation σ s' = some c' := by
  rw [AgenticLocalApp.currentConversation, h.current, Option.bind_some, h.conversation]

end Concluding

/-! ## The steps of the conclusion -/

section Steps

variable {sid : String} {s : SessionRecord} {c : ConversationRecord} {inbound : InboundMessage}

/-- The contract of the conclusion: each write leaves it at one of its stages. -/
abbrev concluding (sid : String) (s : SessionRecord) (c : ConversationRecord)
    (inbound : InboundMessage) : Contract App :=
  during fun σ σ' => ConcludingIn sid s c inbound σ → ConcludingIn sid s c inbound σ'

theorem concluding_refl (w : World) : (concluding sid s c inbound).guar w w := id

/-- The run is in the conversation, between two writes. -/
structure RunIn (sid : String) (s : SessionRecord) (c : ConversationRecord) (w : World)
    (run : SessionRun) (s' : SessionRecord) (c' : ConversationRecord) : Prop where
  runs : run.sid = sid
  conv : ∃ c₀, run.conv = some c₀ ∧ c₀.conversationId = c.conversationId
  store : Concluding sid s c w.store s' c'

variable {w : World} {run : SessionRun} {s' : SessionRecord} {c' : ConversationRecord}

theorem RunIn.conversationId (h : RunIn sid s c w run s' c') :
    c'.conversationId = c.conversationId := (Table.find_eq_some_iff.1 h.store.conversation).2

theorem RunIn.session (h : RunIn sid s c w run s' c') : w.store.getSession run.sid = some s' := by
  rw [h.runs]
  exact h.store.session

@[simp] theorem moveTo_conversationId (c : ConversationRecord) (target : ConversationState)
    (now : Instant) : (c.moveTo target now).conversationId = c.conversationId :=
  (sameConversation_moveTo c target now).key

@[simp] theorem moveTo_autoClose (c : ConversationRecord) (target : ConversationState)
    (now : Instant) : (c.moveTo target now).autoCloseOnFinalAnswer = c.autoCloseOnFinalAnswer := by
  unfold ConversationRecord.moveTo
  dsimp only
  split <;> rfl

/-- A step of the conversation to the next stage. -/
theorem wp_conclude {target : ConversationState} {updates : ConversationRecord → ConversationRecord}
    {Q} (h : RunIn sid s c w run s' c') (ht : canTransition conversationTransitions c'.status target)
    (hid : (updates c').conversationId = c'.conversationId)
    (ha : (updates c').autoCloseOnFinalAnswer = c'.autoCloseOnFinalAnswer)
    (hstage : ∀ d : ConversationRecord, d.status = target → Stage s inbound s' d)
    (hQ : ∀ w' run' d, RunIn sid s c w' run' s' d → d.status = target → Q (.ok d) (w', run')) :
    wp ((concluding sid s c inbound).withLocal SessionRun) (SessionRun.transition target updates) Q
      (w, run) := by
  obtain ⟨c₀, hrun, hc₀⟩ := h.conv
  refine SessionRun.wp_transition (quiet_during _) concluding_refl hrun
    (by rw [hc₀]; exact h.store.conversation) ht fun now => ?_
  let d := (updates c').moveTo target now
  have hd : d.conversationId = c'.conversationId := (moveTo_conversationId _ _ _).trans hid
  have hstore := h.store.saveConversation hd ((moveTo_autoClose _ _ _).trans ha)
  refine ⟨fun _ => ⟨s', d, hstore, hstage d (moveTo_status _ _ _)⟩, hQ _ _ d ?_ (moveTo_status _ _ _)⟩
  exact ⟨h.runs, ⟨d, rfl, hd.trans h.conversationId⟩, hstore⟩

theorem wp_completeCycle {Q} {messageId : String} (h : RunIn sid s c w run s' c')
    (hstage : Stage s inbound s' c')
    (hQ : ∀ w' run', RunIn sid s c w' run' s' c' → Q (.ok ()) (w', run')) :
    wp ((concluding sid s c inbound).withLocal SessionRun) (SessionRun.completeCycle messageId) Q
      (w, run) := by
  unfold SessionRun.completeCycle
  rw [wp_bind]
  refine SessionRun.wp_run_get ?_
  rw [after_ok]
  cases run.cycle with
  | none => exact hQ w run h
  | some cycle =>
    simp only [wp_bind]
    refine wp_lift_app ?_
    simp only [wp_readStore, after_ok, wp_ite, wp_bind]
    refine ⟨fun _ => ?_, fun hrun => ?_⟩
    · refine SessionRun.wp_run_modify concluding_refl (hQ _ _ ?_)
      exact ⟨h.runs, h.conv, h.store⟩
    · refine wp_lift_app (wp_checkTransition (by rw [not_not.1 hrun]; rfl) ?_)
      rw [after_ok]
      refine wp_lift_app (wp_now (quiet_during _) fun endedAt => ?_)
      rw [after_ok]
      refine wp_lift_app ((wp_writeStore _ _).2 ⟨fun _ => ⟨s', c', h.store.congr rfl rfl, hstage⟩, ?_⟩)
      rw [after_ok]
      refine SessionRun.wp_run_modify concluding_refl (hQ _ _ ?_)
      exact ⟨h.runs, h.conv, h.store.congr rfl rfl⟩

theorem wp_closeRemote {C : Contract App} (hclose : ∀ remote w, C.wait (.closeConversation remote) w)
    (hstill : ∀ remote w a w', C.rely (.closeConversation remote) w a w' → w' = w)
    {conversations : List ConversationRecord} {Q} (hQ : Q (.ok ()) (w, run)) :
    wp (C.withLocal SessionRun) (SessionRun.closeRemote conversations) Q (w, run) := by
  unfold SessionRun.closeRemote
  let I (_ : List ConversationRecord) (st : World × SessionRun) : Prop := st = (w, run)
  refine wp_mono (wp_forM (I := I) (E := fun _ _ => False) ?_ rfl) ?_
  · rintro d rest st rfl
    split
    · exact rfl
    · rw [wp_bind]
      refine ⟨hclose _ _, fun a st' ha => ?_⟩
      exact Prod.ext (hstill _ _ _ _ ha.1) ha.2
  · rintro (e | _) st hst
    · exact hst.elim
    · obtain rfl : st = (w, run) := hst
      exact hQ

/-- The message is taken into account before the conversation moves. -/
theorem wp_answered {Q} (h : RunIn sid s c w run s c) (hwait : c.status = .waitingModelResponse)
    (hQ : ∀ w' s', RunIn sid s c w' run s' c → s'.status = s.status →
      s'.finalAnswer = finalAnswerAfter s inbound → Q (.ok s') (w', run)) :
    wp ((concluding sid s c inbound).withLocal SessionRun) (SessionRun.answered inbound) Q
      (w, run) := by
  unfold SessionRun.answered
  cases hin : inbound.content with
  | userResponse content =>
    exact SessionRun.wp_session h.session
      (hQ w s h rfl (by rw [finalAnswerAfter, hin]))
  | other content =>
    simp only [wp_bind]
    refine SessionRun.wp_run_get ?_
    rw [after_ok]
    refine wp_lift_app (wp_updateSession (quiet_during _) h.session fun now => ?_)
    have hstore := h.store.saveSession
      (r := { s with finalAnswer := some content, updatedAt := now }) rfl rfl rfl
    refine ⟨fun _ => ⟨_, c, hstore, .before hwait⟩, hQ _ _ ⟨h.runs, h.conv, hstore⟩ rfl ?_⟩
    rw [finalAnswerAfter, hin]

theorem wp_closeOrWait {Q} (h : RunIn sid s c w run s' c') (hc : c'.status = .completed)
    (hs : s'.status = s.status) (hf : s'.finalAnswer = finalAnswerAfter s inbound)
    (hQ : ∀ w' run' d, RunIn sid s c w' run' s' d → d.status = concludedState s inbound →
      Q (.ok d) (w', run')) :
    wp ((concluding sid s c inbound).withLocal SessionRun)
      (SessionRun.closeOrWait (SessionRun.closes s inbound.content)) Q (w, run) := by
  unfold SessionRun.closeOrWait
  rw [wp_ite]
  refine ⟨fun hyes => ?_, fun hno => ?_⟩
  · have htarget : concludedState s inbound = .closed := if_pos hyes
    exact wp_conclude h (by rw [hc]; rfl) rfl rfl
      (fun d hd => .decided (hd.trans htarget.symm) hs hf)
      fun w' run' d h' hd => hQ w' run' d h' (hd.trans htarget.symm)
  · have htarget : concludedState s inbound = .waitingUser := if_neg hno
    exact wp_conclude h (by rw [hc]; rfl) rfl rfl
      (fun d hd => .decided (hd.trans htarget.symm) hs hf)
      fun w' run' d h' hd => hQ w' run' d h' (hd.trans htarget.symm)

end Steps

/-! ## The conclusion as a whole -/

/-- The store once the conclusion is over. -/
def Concluded (sid : String) (s : SessionRecord) (c : ConversationRecord) (inbound : InboundMessage)
    (σ : Store) : Prop :=
  ∃ s' c', Concluding sid s c σ s' c' ∧ c'.status = concludedState s inbound ∧
    s'.status = (if s.status = .running then .completed else s.status) ∧
    s'.finalAnswer = finalAnswerAfter s inbound

theorem closes_congr {s s' : SessionRecord} (h : s'.autoCloseOnFinalAnswer = s.autoCloseOnFinalAnswer)
    (content : InboundContent) : SessionRun.closes s' content = SessionRun.closes s content := by
  cases content <;> simp only [SessionRun.closes, h]

@[simp] theorem moveTo_sessionId (s : SessionRecord) (target : SessionState) (now : Instant) :
    (s.moveTo target now).sessionId = s.sessionId := by cases target <;> rfl

theorem finish_spec {w : World} {run : SessionRun} {s : SessionRecord} {c : ConversationRecord}
    (inbound : InboundMessage) (h : Finishing w.store run s c) :
    wp (concluding run.sid s c inbound) ((SessionRun.finish inbound).hide run)
      (returns fun _ w' => Concluded run.sid s c inbound w'.store) w := by
  obtain ⟨c₀, hrun, hc₀⟩ := h.conv
  have hid : c.conversationId = c₀.conversationId := (Table.find_eq_some_iff.1 hc₀).2
  have hin : RunIn run.sid s c w run s c :=
    ⟨rfl, ⟨c₀, hrun, hid.symm⟩, ⟨h.session, hid ▸ hc₀, h.current, rfl, rfl⟩⟩
  refine wp_hide (Contract.withLocal_covers _ _) ?_
  unfold SessionRun.finish
  rw [wp_bind]
  refine wp_answered hin h.waiting fun w₁ s₁ h₁ hs₁ hf₁ => ?_
  have hclose : SessionRun.closes s₁ inbound.content = SessionRun.closes s inbound.content :=
    closes_congr h₁.store.autoClose _
  simp only [after_ok, hclose]
  rw [wp_bind]
  refine wp_conclude h₁ (by rw [h.waiting]; rfl) rfl rfl (fun d hd => .completed hd hs₁ hf₁)
    fun w₂ run₂ c₂ h₂ hc₂ => ?_
  rw [after_ok, wp_bind]
  refine wp_completeCycle h₂ (.completed hc₂ hs₁ hf₁) fun w₃ run₃ h₃ => ?_
  rw [after_ok, wp_bind]
  refine wp_closeOrWait h₃ hc₂ hs₁ hf₁ fun w₄ run₄ d h₄ hd => ?_
  rw [after_ok, wp_bind]
  refine SessionRun.wp_session h₄.session ?_
  have finished {w' : World} (s' : SessionRecord) (hin : RunIn run.sid s c w' run₄ s' d)
      (hs : s'.status = if s.status = .running then .completed else s.status)
      (hf : s'.finalAnswer = finalAnswerAfter s inbound) :
      wp ((concluding run.sid s c inbound).withLocal SessionRun)
        (if d.status = .closed then SessionRun.closeRemote [d] else pure ())
        (fun r st => returns (fun _ w' => Concluded run.sid s c inbound w'.store) r st.1)
        (w', run₄) := by
    have hend : Concluded run.sid s c inbound w'.store := ⟨s', d, hin.store, hd, hs, hf⟩
    rw [wp_ite]
    refine ⟨fun _ => ?_, fun _ => hend⟩
    exact wp_closeRemote (C := concluding run.sid s c inbound) (fun _ _ => trivial)
      (fun _ _ _ _ ha => ha.1) hend
  simp only [after_ok, wp_ite, wp_bind, hs₁]
  refine ⟨fun hr => ?_, fun hnr => ?_⟩
  · have hsid : s₁.sessionId = run.sid := (Table.find_eq_some_iff.1 h₄.store.session).2
    have hs₁r : s₁.status = .running := hs₁.trans hr
    refine wp_lift_app (wp_transitionSession (quiet_during _) (by rw [hsid]; exact h₄.store.session)
      (by rw [hs₁r]; rfl) (fun hc => absurd (hs₁r.symm.trans hc) (by decide)) fun now => ?_)
    have hstore := h₄.store.saveSession (r := s₁.moveTo .completed now) rfl rfl rfl
    refine ⟨fun _ => ⟨_, d, hstore, .ended hd hr rfl hf₁⟩, ?_⟩
    simp only [after_ok, ← wp_ite]
    exact finished _ ⟨h₄.runs, h₄.conv, hstore⟩ (by rw [if_pos hr]; rfl) hf₁
  · simp only [← wp_ite]
    exact finished s₁ h₄ (by rw [if_neg hnr, hs₁]) hf₁

/-! ## What a recovery makes of it -/

variable {hasPlatform : Bool} {σ σ' : Store}

theorem getSession_recovered (h : Recovers hasPlatform σ σ') {sid : String} {s : SessionRecord}
    (hs : σ.getSession sid = some s) : ∃ s', σ'.getSession sid = some s' ∧
      sessionIn s' s'.status = sessionIn s (sessionAfter (resumableConversations σ) σ s) := by
  obtain ⟨hmem, rfl⟩ := Table.find_eq_some_iff.1 hs
  obtain ⟨s', hs', he⟩ := session_after h.outcome.1 hmem
  refine ⟨s', ?_, he⟩
  rw [key_session, ← (sameSession_of_states he).1]
  exact Table.find_of_mem hs'

theorem getConversation_recovered (h : Recovers hasPlatform σ σ') {cid : String}
    {c : ConversationRecord} (hc : σ.getConversation cid = some c) :
    ∃ c', σ'.getConversation cid = some c' ∧ conversationIn c' c'.status =
      conversationIn c (conversationAfter (resumableConversations σ) σ c) := by
  obtain ⟨hmem, rfl⟩ := Table.find_eq_some_iff.1 hc
  obtain ⟨c', hc', he⟩ := conversation_after h.outcome.1 hmem
  refine ⟨c', ?_, he⟩
  rw [key_conversation, ← (sameConversation_of_states he).1]
  exact Table.find_of_mem hc'

section Recovered

variable {R : List String} {sid : String} {s s' : SessionRecord} {c c' : ConversationRecord}
  {inbound : InboundMessage}

theorem concludedState_eq (s : SessionRecord) (inbound : InboundMessage) :
    concludedState s inbound = .closed ∨ concludedState s inbound = .waitingUser := by
  unfold concludedState
  split
  · exact .inl rfl
  · exact .inr rfl

theorem conversationAfter_completed (hcur : s'.currentConversationId = some c'.conversationId)
    (hmem : s' ∈ σ.sessions.rows) (hrun : s'.status = .running) (hR : c'.conversationId ∉ R)
    (hc : c'.status = .completed) : conversationAfter R σ c' = finishTarget c' := by
  rw [conversationAfter, if_neg hR, if_neg (by rw [hc]; decide), if_pos]
  exact ⟨hc, s', hmem, hrun, hcur⟩

theorem conversationAfter_concluded (hR : c'.conversationId ∉ R)
    (hc : c'.status = concludedState s inbound) :
    conversationAfter R σ c' = concludedState s inbound := by
  have hactive : c'.status ∉ activeConversationStates := by
    rcases concludedState_eq s inbound with he | he <;> rw [hc, he] <;> decide
  have hopen : c'.status ≠ .completed := by
    rcases concludedState_eq s inbound with he | he <;> rw [hc, he] <;> decide
  rw [conversationAfter, if_neg hR, if_neg hactive, if_neg fun h => hopen h.1, hc]

theorem sessionAfter_concluded (hget : s'.currentConversationId.bind σ.getConversation = some c')
    (hR : c'.conversationId ∉ R) (hopen : s'.status ∈ openSessionStates)
    (hfin : c'.status ∈ finishedConversationStates) :
    sessionAfter R σ s' = if s'.status = .running then .completed else .ready := by
  have hfailed : c'.status ≠ .failed := by
    intro he
    rw [he] at hfin
    exact absurd hfin (by decide)
  rw [sessionAfter, if_pos hopen, hget]
  simp only [openSessionAfter, hR, hfailed, hfin, and_true, false_and, and_false, if_false]

/-- Past the completion of the conversation, where the recovery leaves the two records. -/
theorem Concluding.after (h : Concluding sid s c σ s' c') (hstage : Stage s inbound s' c')
    (hopen : s.status ∈ openSessionStates) (hpast : c'.status ≠ .waitingModelResponse)
    (hR : c'.conversationId ∉ R) :
    s'.finalAnswer = finalAnswerAfter s inbound ∧
      sessionAfter R σ s' = (if s.status = .running then .completed else .ready) ∧
      (s.status = .running → conversationAfter R σ c' =
        if c'.status = .completed then finishTarget c' else concludedState s inbound) := by
  obtain ⟨hmem, -⟩ := Table.find_eq_some_iff.1 h.session
  have hid : c'.conversationId = c.conversationId := (Table.find_eq_some_iff.1 h.conversation).2
  have hcur : s'.currentConversationId = some c'.conversationId := by rw [hid, h.current]
  have hget : s'.currentConversationId.bind σ.getConversation = some c' := by
    rw [h.current, Option.bind_some, h.conversation]
  have hfin : concludedState s inbound ∈ finishedConversationStates := by
    rcases concludedState_eq s inbound with he | he <;> rw [he] <;> decide
  have hne : concludedState s inbound ≠ .completed := by
    rcases concludedState_eq s inbound with he | he <;> rw [he] <;> decide
  cases hstage with
  | before hc => exact absurd hc hpast
  | completed hc hs hf =>
    refine ⟨hf, ?_, fun hr => ?_⟩
    · rw [sessionAfter_concluded hget hR (hs ▸ hopen) (by rw [hc]; decide), hs]
    · rw [conversationAfter_completed hcur hmem (hs.trans hr) hR hc, if_pos hc]
  | decided hc hs hf =>
    refine ⟨hf, ?_, fun _ => ?_⟩
    · rw [sessionAfter_concluded hget hR (hs ▸ hopen) (hc ▸ hfin), hs]
    · rw [conversationAfter_concluded hR hc, if_neg (hc ▸ hne)]
  | ended hc hr hs hf =>
    refine ⟨hf, ?_, fun _ => ?_⟩
    · rw [sessionAfter, hs, if_neg (by decide), if_pos hr]
    · rw [conversationAfter_concluded hR hc, if_neg (hc ▸ hne)]

end Recovered

/-! ## The same conclusion -/

/-- A further message of the user is accepted in a new process. -/
def Continues (σ : Store) (sid userMessage : String) : Prop :=
  ∃ a w', Reaches alone (continueSession false sid userMessage, boot σ) (.ret (.ok a), w')

theorem continues_iff {sid userMessage : String} {s : SessionRecord} (hs : σ.getSession sid = some s)
    (hdone : s.status = .completed) : Continues σ sid userMessage ↔ continuable σ s := by
  have hspec := continueSession_spec (w := boot σ) (quiet_during fun _ _ => True)
    (fun _ _ => trivial) userMessage hs hdone
  constructor
  · rintro ⟨a, w', hr⟩
    exact wp_reaches (C := during _) hspec hr
  · intro hc
    obtain ⟨r, w', hr, hQ⟩ := exists_end_alone hspec
    cases r with
    | error e => exact absurd hc hQ
    | ok a => exact ⟨a, w', hr⟩

/-- The session and its conversation came to the same end, for the user too. -/
structure SameConclusion (sid cid : String) (σ σ' : Store) : Prop where
  conversation : (σ.getConversation cid).map ConversationRecord.status =
    (σ'.getConversation cid).map ConversationRecord.status
  session : (σ.getSession sid).map SessionRecord.status =
    (σ'.getSession sid).map SessionRecord.status
  finalAnswer : (σ.getSession sid).bind SessionRecord.finalAnswer =
    (σ'.getSession sid).bind SessionRecord.finalAnswer
  continues : ∀ userMessage, Continues σ sid userMessage ↔ Continues σ' sid userMessage

/-- A conclusion that starts in `w` may have written `σ'` by the time it is cut. -/
def FinishCutAt (inbound : InboundMessage) (run : SessionRun) (w : World) (σ' : Store) : Prop :=
  ∃ w', Passes alone ((SessionRun.finish inbound).hide run) w w' ∧ w'.store = σ'

/-- A conclusion that starts in `w` may come to its end and leave `σ'`. -/
def Finishes (inbound : InboundMessage) (run : SessionRun) (w : World) (σ' : Store) : Prop :=
  ∃ r w', Reaches alone ((SessionRun.finish inbound).hide run, w) (.ret r, w') ∧ w'.store = σ'

theorem finishTarget_eq_iff {s : SessionRecord} {c : ConversationRecord} {inbound : InboundMessage} :
    finishTarget c = concludedState s inbound ↔
      c.autoCloseOnFinalAnswer = SessionRun.closes s inbound.content := by
  unfold finishTarget concludedState
  cases c.autoCloseOnFinalAnswer <;> cases SessionRun.closes s inbound.content <;> simp

theorem answer_of_states {s s' : SessionRecord} {status status' : SessionState}
    (h : sessionIn s status = sessionIn s' status') :
    s.finalAnswer = s'.finalAnswer ∧ s.autoCloseOnFinalAnswer = s'.autoCloseOnFinalAnswer := by
  simp only [sessionIn, SessionRecord.mk.injEq] at h
  exact ⟨h.2.2.2.2.2.2.2.2.2.2.2.1, h.2.2.2.2.2.1⟩

theorem autoClose_of_states {c c' : ConversationRecord} {status status' : ConversationState}
    (h : conversationIn c status = conversationIn c' status') :
    c.autoCloseOnFinalAnswer = c'.autoCloseOnFinalAnswer := by
  simp only [conversationIn, ConversationRecord.mk.injEq] at h
  exact h.2.2.2.2.2.1

section Conclusion

variable {inbound : InboundMessage} {run : SessionRun} {w : World} {s : SessionRecord}
  {c : ConversationRecord} {σ₁ σ₂ : Store}

theorem FinishCutAt.concluding (h : Finishing w.store run s c)
    (hcut : FinishCutAt inbound run w σ₁) : ConcludingIn run.sid s c inbound σ₁ := by
  obtain ⟨w', ⟨p, hr⟩, rfl⟩ := hcut
  let I (w : World) : Prop := ConcludingIn run.sid s c inbound w.store
  obtain ⟨c₀, hrun, hc₀⟩ := h.conv
  have hid : c.conversationId = c₀.conversationId := (Table.find_eq_some_iff.1 hc₀).2
  have init : ConcludingIn run.sid s c inbound w.store :=
    ⟨s, c, ⟨h.session, hid ▸ hc₀, h.current, rfl, rfl⟩, .before h.waiting⟩
  refine invariant_reaches (C := during _) (I := I) (finish_spec inbound h) hr init
    (fun _ _ hI hg => hg hI) ?_
  rintro op w₁ a w₂ hI ha
  obtain rfl : w₂ = w₁ := ha.1
  exact hI

theorem Finishes.concluded (h : Finishing w.store run s c) (hend : Finishes inbound run w σ') :
    Concluded run.sid s c inbound σ' := by
  obtain ⟨r, w', hr, rfl⟩ := hend
  have hQ := wp_reaches (C := during _) (finish_spec inbound h) hr
  cases r with
  | error e => exact absurd hQ id
  | ok _ => exact hQ

/-- Where a recovery after a cut past the completion leaves the two records. -/
structure Resettled (sid : String) (s : SessionRecord) (c c₁ : ConversationRecord)
    (inbound : InboundMessage) (σ₂ : Store) (s₂ : SessionRecord) (c₂ : ConversationRecord) : Prop where
  store : Concluding sid s c σ₂ s₂ c₂
  finalAnswer : s₂.finalAnswer = finalAnswerAfter s inbound
  session : s₂.status = if s.status = .running then .completed else .ready
  conversation : s.status = .running →
    c₂.status = if c₁.status = .completed then finishTarget c else concludedState s inbound

theorem FinishCutAt.resettled (h : Finishing w.store run s c) (hcut : FinishCutAt inbound run w σ₁)
    {c₁ : ConversationRecord} (hc₁ : σ₁.getConversation c.conversationId = some c₁)
    (hpast : c₁.status ≠ .waitingModelResponse) (hrec : Recovers hasPlatform σ₁ σ₂) :
    ∃ s₂ c₂, Resettled run.sid s c c₁ inbound σ₂ s₂ c₂ := by
  obtain ⟨s₁, d, hin, hstage⟩ := hcut.concluding h
  obtain rfl : d = c₁ := Option.some.inj (hin.conversation.symm.trans hc₁)
  obtain ⟨hmem, hid⟩ := Table.find_eq_some_iff.1 hc₁
  have hkey : d.conversationId = c.conversationId := hid
  have hR : d.conversationId ∉ resumableConversations σ₁ := fun hR =>
    hpast (resumableButForRotation_iff.1 (isResumable_iff.1 ((mem_resumable_iff hmem).1 hR)).1).1
  obtain ⟨hf, hsession, hconversation⟩ := hin.after hstage h.opened hpast hR
  obtain ⟨s₂, hs₂, he⟩ := getSession_recovered hrec hin.session
  obtain ⟨c₂, hc₂, hce⟩ := getConversation_recovered hrec hc₁
  obtain ⟨-, hcur, hstatus⟩ := sameSession_of_states he
  obtain ⟨hanswer, hclose⟩ := answer_of_states he
  have hcstatus := (sameConversation_of_states hce).2.2.2
  have hfinish : finishTarget d = finishTarget c := by
    unfold finishTarget
    rw [hin.convAutoClose]
  refine ⟨s₂, c₂, ⟨hs₂, hc₂, hcur.trans hin.current, hclose.trans hin.autoClose,
    (autoClose_of_states hce).trans hin.convAutoClose⟩, hanswer.trans hf, hstatus.trans hsession,
    fun hr => ?_⟩
  rw [hcstatus, hconversation hr, hfinish]

theorem decided_of_same (h : Finishing w.store run s c) (hcut : FinishCutAt inbound run w σ₁)
    {c₁ : ConversationRecord} (hc₁ : σ₁.getConversation c.conversationId = some c₁)
    (hpast : c₁.status ≠ .waitingModelResponse) (hend : Finishes inbound run w σ')
    (hrec : Recovers hasPlatform σ₁ σ₂) (hsame : SameConclusion run.sid c.conversationId σ₂ σ') :
    s.status = .running ∧ (c₁.status = .completed →
      c.autoCloseOnFinalAnswer = SessionRun.closes s inbound.content) := by
  obtain ⟨s₂, c₂, h₂⟩ := hcut.resettled h hc₁ hpast hrec
  obtain ⟨s', c', hin', hc', hs', -⟩ := hend.concluded h
  have hss : s₂.status = s'.status := by
    have := hsame.session
    rw [h₂.store.session, hin'.session] at this
    exact Option.some.inj this
  have hcc : c₂.status = c'.status := by
    have := hsame.conversation
    rw [h₂.store.conversation, hin'.conversation] at this
    exact Option.some.inj this
  have hr : s.status = .running := by
    by_contra hnr
    rw [h₂.session, if_neg hnr, hs', if_neg hnr] at hss
    have hopen := h.opened
    rw [← hss] at hopen
    exact absurd hopen (by decide)
  refine ⟨hr, fun hdone => finishTarget_eq_iff.1 ?_⟩
  rw [← hc', ← hcc, h₂.conversation hr, if_pos hdone]

theorem same_of_decided (h : Finishing w.store run s c) (hcut : FinishCutAt inbound run w σ₁)
    {c₁ : ConversationRecord} (hc₁ : σ₁.getConversation c.conversationId = some c₁)
    (hpast : c₁.status ≠ .waitingModelResponse) (hend : Finishes inbound run w σ')
    (hrec : Recovers hasPlatform σ₁ σ₂) (hr : s.status = .running)
    (hauto : c₁.status = .completed →
      c.autoCloseOnFinalAnswer = SessionRun.closes s inbound.content) :
    SameConclusion run.sid c.conversationId σ₂ σ' := by
  obtain ⟨s₂, c₂, h₂⟩ := hcut.resettled h hc₁ hpast hrec
  obtain ⟨s', c', hin', hc', hs', hf'⟩ := hend.concluded h
  have hss : s₂.status = .completed := by rw [h₂.session, if_pos hr]
  have hss' : s'.status = .completed := by rw [hs', if_pos hr]
  have hcc : c₂.status = c'.status := by
    rw [h₂.conversation hr, hc']
    split
    · rename_i hdone
      exact finishTarget_eq_iff.2 (hauto hdone)
    · rfl
  refine ⟨?_, ?_, ?_, fun userMessage => ?_⟩
  · rw [h₂.store.conversation, hin'.conversation, Option.map_some, Option.map_some, hcc]
  · rw [h₂.store.session, hin'.session, Option.map_some, Option.map_some, hss, hss']
  · rw [h₂.store.session, hin'.session, Option.bind_some, Option.bind_some, h₂.finalAnswer, hf']
  · rw [continues_iff h₂.store.session hss, continues_iff hin'.session hss']
    simp only [continuable, h₂.store.currentConversation, hin'.currentConversation, hcc,
      h₂.store.autoClose, hin'.autoClose]

/-- A cut leaves the same conclusion as no cut, whatever the recovery, exactly when the session is
running and, for a cut before the closing decision, the record of the conversation decides as the
message does. -/
theorem finish_crash_iff (h : Finishing w.store run s c) (hcut : FinishCutAt inbound run w σ₁)
    {c₁ : ConversationRecord} (hc₁ : σ₁.getConversation c.conversationId = some c₁)
    (hpast : c₁.status ≠ .waitingModelResponse) (hend : Finishes inbound run w σ') :
    (∀ σ₂, Recovers hasPlatform σ₁ σ₂ → SameConclusion run.sid c.conversationId σ₂ σ') ↔
      s.status = .running ∧ (c₁.status = .completed →
        c.autoCloseOnFinalAnswer = SessionRun.closes s inbound.content) := by
  constructor
  · intro hsame
    obtain ⟨σ₂, hrec⟩ := exists_recovers hasPlatform σ₁
    exact decided_of_same h hcut hc₁ hpast hend hrec (hsame σ₂ hrec)
  · rintro ⟨hr, hauto⟩ σ₂ hrec
    exact same_of_decided h hcut hc₁ hpast hend hrec hr hauto

end Conclusion

/-! ## A question under automatic closing -/

def questionSession : SessionRecord :=
  { SessionRecord.sample "s" .running (some "c") with autoCloseOnFinalAnswer := true }

def questionConversation : ConversationRecord :=
  { ConversationRecord.sample "c" "s" .waitingModelResponse with autoCloseOnFinalAnswer := true }

def questionRun : SessionRun where
  sid := "s"
  conv := some questionConversation

/-- The model asks the user something. -/
def question : InboundMessage where
  messageId := "m2"
  messageType := .userResponse
  payload := .obj []
  sizeBytes := 0
  content := .userResponse { format := "text", status := "ok", expectsReply := true, body := "?" }

def questionWorld : World :=
  boot { sessions := .ofRows [questionSession], conversations := .ofRows [questionConversation] }

theorem question_finishing :
    Finishing questionWorld.store questionRun questionSession questionConversation where
  session := rfl
  opened := by decide
  conv := ⟨_, rfl, rfl⟩
  waiting := rfl
  current := rfl

/-- The conclusion of the question after so many steps. -/
def questionAfter (steps : Nat) : Config App Unit :=
  drive aloneScript steps 0 ((SessionRun.finish question).hide questionRun, questionWorld)

theorem question_cutAt (steps : Nat) :
    FinishCutAt question questionRun questionWorld (questionAfter steps).2.store :=
  ⟨_, ⟨_, drive_aloneScript steps _⟩, rfl⟩

theorem question_finishes :
    Finishes question questionRun questionWorld (questionAfter 30).2.store :=
  ⟨.ok (), _, drive_aloneScript 30 _, rfl⟩

theorem question_crash_iff :
    (∀ σ₂, Recovers true (questionAfter 25).2.store σ₂ →
      SameConclusion "s" "c" σ₂ (questionAfter 30).2.store) ↔
      questionSession.status = .running ∧ (ConversationState.waitingUser = .completed →
        questionConversation.autoCloseOnFinalAnswer =
          SessionRun.closes questionSession question.content) :=
  have hc₁ : (questionAfter 25).2.store.getConversation "c" =
      some { questionConversation with status := .waitingUser, finalAnswerReceived := true } := rfl
  finish_crash_iff question_finishing (question_cutAt 25) hc₁ (by decide) question_finishes

theorem question_crash_differs :
    ¬ ∀ σ₁ σ₂ σ' c₁, FinishCutAt question questionRun questionWorld σ₁ →
      σ₁.getConversation "c" = some c₁ → c₁.status ≠ .waitingModelResponse →
      Finishes question questionRun questionWorld σ' → Recovers true σ₁ σ₂ →
      SameConclusion "s" "c" σ₂ σ' := by
  intro hall
  obtain ⟨σ₂, hrec⟩ := exists_recovers true (questionAfter 12).2.store
  have hc₁ : (questionAfter 12).2.store.getConversation "c" =
      some { questionConversation with status := .completed, finalAnswerReceived := true } := rfl
  have hsame := hall _ σ₂ _ _ (question_cutAt 12) hc₁ (by decide) question_finishes hrec
  have hdecided := decided_of_same question_finishing (question_cutAt 12) hc₁ (by decide)
    question_finishes hrec hsame
  exact absurd (hdecided.2 rfl) (by decide)

end Recovery

end AgenticLocalApp
