import AgenticLocalApp.Orchestration.RotationStages
import AgenticLocalApp.Protocol.AdapterErrors

/-!
# What becomes of a reply

A reply is accepted, or it is an unusable one: kept, counted and recorded as a failure.  The reply is
measured before any of this, outside of what the loop guards, and a text without an encoding cannot be
measured.
-/

namespace AgenticLocalApp

open Prog

/-- There is something to build the pending message of. -/
def PendingMessage.Complete (pending : PendingMessage) : Prop :=
  pending.messageType = .userRequest ∨
    pending.messageType = .executionResult ∧ pending.content.isSome

namespace SessionRun

/-- The run waits in the conversation `conv` for the reply to a message that it sent. -/
structure Waiting (o : ProtocolOrchestrator) (σ : Store) (run : SessionRun)
    (conv : ConversationRecord) : Prop where
  memory : ∃ c₀, run.conv = some c₀ ∧ σ.getConversation c₀.conversationId = some conv
  outbound : ∃ record expected, run.lastOutbound = some record ∧
    o.adapter.expectedInbound (some record) conv = .ok expected
  session : ∃ s, σ.getSession run.sid = some s ∧ conv.sessionId = s.sessionId
  status : conv.status = .waitingModelResponse
  pending : ∃ pending, run.pending = some pending ∧ pending.Complete
  cycle : run.cycle.isSome
  messages : σ.MessagesHaveConversations

/-- The reply is accepted: its message is kept, and the correction budget starts again. -/
structure Accepted (conv : ConversationRecord) (inbound : InboundMessage) (s : World × SessionRun) :
    Prop where
  kept : ∃ m ∈ s.1.store.listMessages conv.conversationId, m.messageId = inbound.messageId ∧
    m.validationStatus = some "valid" ∧ m.payload = inbound.payload
  corrections : s.2.unusableReplies = 0

/-- A failure of the session is recorded with the type and the code of the error. -/
def Recorded (σ : Store) (sid : String) (error : NormalizedError) : Prop :=
  ∃ f ∈ σ.listFailures sid, f.errorType = error.errorType ∧ f.errorCode = error.errorCode

/-- The reply is an unusable one; the run waits on in the conversation, which is `c` now. -/
structure Refused (o : ProtocolOrchestrator) (σ : Store) (run : SessionRun)
    (conv : ConversationRecord) (messages : List Json) (error : NormalizedError)
    (c : ConversationRecord) (s : World × SessionRun) : Prop where
  kept : ∃ m ∈ s.1.store.listMessages conv.conversationId, m ∉ σ.messages.rows ∧
    m.validationStatus = some "invalid" ∧ m.payload = ProtocolAdapter.rejectedPayload messages
  current : s.1.store.getConversation conv.conversationId = some c
  counted : c.protocolErrorCount = conv.protocolErrorCount + 1 ∧
    c.contextBytes = conv.contextBytes + (messages.map Json.sizeBytes).sum
  corrections : s.2.sid = run.sid ∧ s.2.unusableReplies = run.unusableReplies + 1
  recorded : error.errorType = .modelProtocolError ∧ Recorded s.1.store run.sid error
  waiting : Waiting o s.1.store s.2 c

variable {o : ProtocolOrchestrator} {run : SessionRun} {w : World} {conv : ConversationRecord}

/-! ## Refusals -/

end SessionRun

end AgenticLocalApp
