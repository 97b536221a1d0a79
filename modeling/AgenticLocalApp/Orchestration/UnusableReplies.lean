import AgenticLocalApp.Library.Contracts
import AgenticLocalApp.Library.Invariant
import AgenticLocalApp.Orchestration.RotationTable

/-!
# The answer to an unusable reply

An unusable reply is answered by a correction in the same conversation, by a rotation to a new one,
or by the end of the run.  The first two make remote calls, which may fail in their turn; whatever
they come to is one of the ends that a run names.
-/

namespace AgenticLocalApp

open Prog

/-- No correction is refused for its window, and what is read after the reply has an encoding. -/
def Op.Spares : (op : Op) → op.Ans → Prop
  | .postMessage _ payload, answer =>
    payload.text "type" = some (StrEnum.value MessageType.protocolCorrectionRequest) →
      ∀ e, answer = .error e → e.errorType ≠ .modelContextWindowError
  | .waitForReply _ _, answer =>
    ∀ reply, answer = .ok reply → (RawJson.encodeItems reply.messages).isSome
  | _, _ => True

/-- The contract of a program that runs alone, and whose remote calls are spared. -/
def spared : Contract App where
  rely op w a w' := alone op w a w' ∧ op.Spares a
  guar _ _ := True
  wait _ _ := True
  stuck _ := False

theorem quiet_spared : Quiet spared where
  now _ _ _ h := h.1.1
  monotonicMs _ _ _ h := h.1.1
  newId _ _ _ _ h := h.1
  wait_now _ := trivial
  wait_monotonicMs _ := trivial
  wait_newId _ _ := trivial

namespace SessionRun

/-- An exception that `run` names: the session is interrupted, pauses or fails, and a failure that
counts as recorded is in the store. -/
def Named (sid : String) (σ : Store) : Exc → Prop
  | .sessionInterrupted _ | .loopInterrupted | .loopPaused _ => True
  | .loopFailed failure => failure.recorded → Recorded σ sid failure.error
  | _ => False

variable {o : ProtocolOrchestrator} {run : SessionRun} {w : World} {conv : ConversationRecord}

/-! ## Remote calls -/

/-- While a remote call is tried, nothing changes of the session but its cycle, its failures and the
breaker. -/
structure Unmoved (w : World) (run : SessionRun) (s : World × SessionRun) : Prop where
  sessions : s.1.store.sessions = w.store.sessions
  conversations : s.1.store.conversations = w.store.conversations
  messages : s.1.store.messages = w.store.messages
  memory : ∃ cycle, s.2 = { run with cycle := cycle }

theorem Unmoved.sid {s : World × SessionRun} (h : Unmoved w run s) : s.2.sid = run.sid := by
  obtain ⟨cycle, h⟩ := h.memory
  rw [h]

/-- What a remote call may raise. -/
abbrev Fails (run : SessionRun) (e : Exc) (s : World × SessionRun) : Prop :=
  Named run.sid s.1.store e

variable {α : Type}

theorem wp_breakerAllows {fm : FailureManager} {w : World} {Q}
    (h : ∀ allowed b, Q (.ok allowed) { w with breaker := b }) :
    wp spared fm.breakerAllows Q w := by
  unfold FailureManager.breakerAllows
  rw [wp_bind]
  refine wp_monotonicMs quiet_spared fun nowMs => ?_
  rw [after_ok, wp_bind, wp_read, after_ok]
  dsimp only
  rw [wp_bind, wp_update]
  exact ⟨trivial, h _ _⟩

theorem wp_freshConversation {C : Contract App} (hrefl : ∀ w, C.guar w w) {cid : String}
    {c : ConversationRecord} {Q} (hc : w.store.getConversation cid = some c)
    (h : Q (.ok c) (w, { run with conv := some c })) :
    wp (C.withLocal SessionRun) (freshConversation cid) Q (w, run) := by
  unfold freshConversation
  rw [wp_bind]
  refine wp_lift_app (wp_requireConversation hc ?_)
  rw [after_ok, wp_bind]
  exact wp_run_modify hrefl h

/-- The run has read its conversation again. -/
theorem Waiting.read (h : Waiting o w.store run conv) :
    Waiting o w.store { run with conv := some conv } conv := by
  obtain ⟨c₀, -, hc⟩ := h.memory
  have hid : conv.conversationId = c₀.conversationId := Table.key_of_find hc
  exact { h with memory := ⟨conv, rfl, hid ▸ hc⟩ }

/-- The window of the conversation has moved. -/
theorem Waiting.saturated (h : Waiting o w.store run conv) (now : Instant) :
    Waiting o (w.store.saveConversation
        { conv with contextWindowState := .saturated, updatedAt := now })
      { run with conv := some { conv with contextWindowState := .saturated, updatedAt := now } }
      { conv with contextWindowState := .saturated, updatedAt := now } where
  memory := ⟨_, rfl, Table.find_save_self _ _⟩
  outbound := h.outbound
  session := h.session
  status := h.status
  pending := h.pending
  cycle := h.cycle
  messages := h.messages.saveConversation _

end SessionRun

end AgenticLocalApp
