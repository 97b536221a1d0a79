import AgenticLocalApp.Orchestration.ProtocolLoop
import AgenticLocalApp.Orchestration.RecoveryPasses

/-!
# Rules of the loop

What each small step of the loop does when its records are there.
-/

namespace AgenticLocalApp

open Prog

/-! ## The window -/

theorem worse_canTransition {computed current : ContextWindowState}
    (h : ContextConfig.worse computed current ≠ current) :
    canTransition contextWindowTransitions current (ContextConfig.worse computed current) := by
  revert h
  cases computed <;> cases current <;> decide

/-- An evaluation leaves the window where it is, or moves it where the table allows. -/
theorem evaluate_canTransition {c : ContextConfig} {conversation : ConversationRecord}
    {projected : Nat} (h : c.evaluate conversation projected ≠ conversation.contextWindowState) :
    canTransition contextWindowTransitions conversation.contextWindowState
      (c.evaluate conversation projected) := worse_canTransition h

section Rules

variable {C : Contract App} {w : World}

theorem wp_transitionContextWindow (hC : Quiet C) {cid : String} {c : ConversationRecord}
    {target : ContextWindowState} {Q} (hc : w.store.getConversation cid = some c)
    (ht : canTransition contextWindowTransitions c.contextWindowState target)
    (h : ∀ now, C.guar w { w with
          store := w.store.saveConversation
            { c with contextWindowState := target, updatedAt := now } } ∧
      Q (.ok { c with contextWindowState := target, updatedAt := now }) { w with
        store := w.store.saveConversation
          { c with contextWindowState := target, updatedAt := now } }) :
    wp C (transitionContextWindow cid target) Q w := by
  unfold transitionContextWindow
  rw [wp_bind]
  refine wp_requireConversation hc ?_
  rw [after_ok, wp_bind]
  refine wp_checkTransition ht ?_
  rw [after_ok, wp_bind]
  refine wp_now hC fun now => ?_
  simp only [after_ok, wp_bind, wp_writeStore, wp_pure]
  exact h now

theorem wp_saveMessageWith (hC : Quiet C) {record : MessageRecord} {cid : String}
    {c : ConversationRecord} {updates : ConversationRecord → ConversationRecord} {Q}
    (hc : w.store.getConversation cid = some c)
    (h : ∀ now, C.guar w { w with
          store := (w.store.saveMessage record).saveConversation
            { updates c with updatedAt := now } } ∧
      Q (.ok { updates c with updatedAt := now }) { w with
        store := (w.store.saveMessage record).saveConversation
          { updates c with updatedAt := now } }) :
    wp C (saveMessageWith record cid updates) Q w := by
  unfold saveMessageWith
  rw [wp_bind]
  refine wp_requireConversation hc ?_
  rw [after_ok, wp_bind]
  refine wp_now hC fun now => ?_
  simp only [after_ok, wp_bind, wp_writeStore, wp_pure]
  exact h now

namespace SessionRun

variable {run : SessionRun}

theorem wp_saveMessageAnd (hC : Quiet C) (hrefl : ∀ w, C.guar w w) {record : MessageRecord}
    {cid : String} {c : ConversationRecord} {updates : ConversationRecord → ConversationRecord} {Q}
    (hc : w.store.getConversation cid = some c)
    (h : ∀ now, C.guar w { w with
          store := (w.store.saveMessage record).saveConversation
            { updates c with updatedAt := now } } ∧
      Q (.ok ()) ({ w with
        store := (w.store.saveMessage record).saveConversation
          { updates c with updatedAt := now } },
        { run with conv := some { updates c with updatedAt := now } })) :
    wp (C.withLocal SessionRun) (saveMessageAnd record cid updates) Q (w, run) := by
  unfold saveMessageAnd
  rw [wp_bind]
  refine wp_lift_app (wp_saveMessageWith hC hc fun now => ⟨(h now).1, ?_⟩)
  rw [after_ok]
  exact wp_run_modify hrefl (h now).2

theorem wp_applyWindow (hC : Quiet C) (hrefl : ∀ w, C.guar w w) {c₀ c : ConversationRecord}
    {state : ContextWindowState} {Q} (hrun : run.conv = some c₀)
    (hc : w.store.getConversation c₀.conversationId = some c)
    (ht : state ≠ c.contextWindowState →
      canTransition contextWindowTransitions c.contextWindowState state)
    (hstay : Q (.ok ()) (w, { run with conv := some c }))
    (h : ∀ now, C.guar w { w with
          store := w.store.saveConversation
            { c with contextWindowState := state, updatedAt := now } } ∧
      Q (.ok ()) ({ w with
        store := w.store.saveConversation
          { c with contextWindowState := state, updatedAt := now } },
        { run with conv := some { c with contextWindowState := state, updatedAt := now } })) :
    wp (C.withLocal SessionRun) (applyWindow state) Q (w, run) := by
  have hid : c.conversationId = c₀.conversationId := (Table.find_eq_some_iff.1 hc).2
  unfold applyWindow
  rw [wp_bind]
  refine wp_conversation hrefl hrun hc ?_
  rw [after_ok, wp_ite]
  refine ⟨fun hne => ?_, fun _ => hstay⟩
  rw [wp_bind]
  refine wp_lift_app (wp_transitionContextWindow hC (by rw [hid]; exact hc) (ht hne)
    fun now => ⟨(h now).1, ?_⟩)
  rw [after_ok]
  exact wp_run_modify hrefl (h now).2

theorem wp_requireOutbound {m : MessageRecord} {Q} (hm : run.lastOutbound = some m)
    (h : Q (.ok m) (w, run)) : wp (C.withLocal SessionRun) requireOutbound Q (w, run) := by
  unfold requireOutbound
  rw [wp_bind]
  refine wp_run_get ?_
  rw [after_ok, hm]
  exact h

theorem wp_requireCycle {cycle : CycleRecord} {Q} (hcycle : run.cycle = some cycle)
    (h : Q (.ok cycle) (w, run)) : wp (C.withLocal SessionRun) requireCycle Q (w, run) := by
  unfold requireCycle
  rw [wp_bind]
  refine wp_run_get ?_
  rw [after_ok, hcycle]
  exact h

end SessionRun

end Rules

/-! ## Accepted replies -/

/-- The contract of a program that runs alone, with nothing asked of its writes. -/
abbrev unwatched : Contract App := during fun _ _ => True

theorem unwatched_refl (w : World) : unwatched.guar w w := trivial

namespace SessionRun

variable {o : ProtocolOrchestrator} {run : SessionRun} {w : World} {conv : ConversationRecord}

/-- An accepted reply is written with its conversation, whose window may move after that. -/
theorem wp_judge_accepts {c₀ : ConversationRecord} {outbound : MessageRecord}
    {expected : List MessageType} {messages : List Json} {reply : GetResult}
    {inbound : InboundMessage} {Q}
    (hrun : run.conv = some c₀) (hc : w.store.getConversation c₀.conversationId = some conv)
    (hout : run.lastOutbound = some outbound)
    (hexp : o.adapter.expectedInbound (some outbound) conv = .ok expected)
    (hmeas : RawJson.measured reply.messages = .ok messages)
    (hparse : o.adapter.parseInbound messages expected conv (w.store.knownIds run.sid) = .ok inbound)
    (hstay : ∀ receivedAt received,
      received.conversationId = conv.conversationId → received.sessionId = conv.sessionId →
      Q (.ok (.inl inbound)) ({ w with
        store := (w.store.saveMessage (acceptedRecord inbound run.sid conv.conversationId
          run.cycleId receivedAt)).saveConversation received },
        { run with conv := some received, unusableReplies := 0 }))
    (hmove : ∀ receivedAt received moved,
      received.conversationId = conv.conversationId → received.sessionId = conv.sessionId →
      moved.conversationId = conv.conversationId → moved.sessionId = conv.sessionId →
      Q (.ok (.inl inbound)) ({ w with
        store := ((w.store.saveMessage (acceptedRecord inbound run.sid conv.conversationId
          run.cycleId receivedAt)).saveConversation received).saveConversation moved },
        { run with conv := some moved, unusableReplies := 0 })) :
    wp (unwatched.withLocal SessionRun) (judge o reply) Q (w, run) := by
  have hid : conv.conversationId = c₀.conversationId := (Table.find_eq_some_iff.1 hc).2
  rw [← hid] at hc
  have hQ : Quiet unwatched := quiet_during _
  unfold judge
  rw [wp_bind]
  refine wp_conversation unwatched_refl hrun (hid ▸ hc) ?_
  rw [after_ok, wp_bind]
  refine wp_requireOutbound hout ?_
  rw [after_ok, wp_bind, wp_ofExcept, hexp, after_ok, wp_bind]
  refine wp_run_get ?_
  rw [after_ok, wp_bind]
  refine wp_lift_app ?_
  rw [wp_readStore, after_ok, wp_bind, wp_ofExcept, hmeas, after_ok]
  simp only [hparse]
  rw [wp_bind]
  refine wp_run_modify unwatched_refl ?_
  rw [after_ok, wp_bind]
  refine wp_lift_app (wp_now hQ fun receivedAt => ?_)
  rw [after_ok, wp_bind]
  refine wp_saveMessageAnd hQ unwatched_refl hc fun now => ⟨trivial, ?_⟩
  rw [after_ok, wp_bind]
  refine wp_conversation unwatched_refl rfl (Table.find_save_self _ _) ?_
  rw [after_ok, wp_bind]
  refine wp_applyWindow hQ unwatched_refl rfl (Table.find_save_self _ _) evaluate_canTransition ?_
    fun moved => ⟨trivial, ?_⟩
  · exact hstay receivedAt _ rfl rfl
  · exact hmove receivedAt _ _ rfl rfl rfl rfl

end SessionRun

end AgenticLocalApp
