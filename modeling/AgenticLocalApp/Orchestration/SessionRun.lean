import AgenticLocalApp.Lifecycle.ConversationLifecycle
import AgenticLocalApp.Protocol.Inbound

/-!
# The run of a session

What the loop of a session keeps in memory, and its small steps.  The store is the truth: the
current conversation is read again before it is used.
-/

namespace AgenticLocalApp

/-- The message that the loop is about to send, or waits for the reply to. -/
structure PendingMessage where
  messageType : MessageType
  cycleType : CycleType
  followUp : Bool := false
  userMessage : Option String := none
  content : Option ExecutionResultContent := none
  fitted : Bool := false

/-- The memory of `_SessionRun`. -/
structure SessionRun where
  sid : String
  conv : Option ConversationRecord := none
  cycle : Option CycleRecord := none
  lastOutbound : Option MessageRecord := none
  pending : Option PendingMessage := none
  /-- Unusable replies in a row in the current conversation. -/
  unusableReplies : Nat := 0

/-- The language of the loop. -/
abbrev Loop : Lang := App.withLocal SessionRun

namespace SessionRun

def get : Prog Loop SessionRun := do return (← Prog.read).2

def modify (f : SessionRun → SessionRun) : Prog Loop Unit := .update fun s => (s.1, f s.2)

/-! ## Records -/

/-- `_session`. -/
def session : Prog Loop SessionRecord := do
  let run ← get
  requireSession run.sid

/-- `_fresh_conversation`. -/
def freshConversation (cid : String) : Prog Loop ConversationRecord := do
  let conversation ← requireConversation cid
  modify fun run => { run with conv := some conversation }
  return conversation

/-- `_conversation`: the current conversation, read again from the store. -/
def conversation : Prog Loop ConversationRecord := do
  let run ← get
  let σ ← readStore
  match run.conv.bind fun c => σ.getConversation c.conversationId with
  | some fresh =>
    modify fun run => { run with conv := some fresh }
    return fresh
  | none =>
    let session ← session
    match session.currentConversationId with
    | none => throw (.keyError s!"session {run.sid} has no current conversation")
    | some cid => freshConversation cid

/-- `_transition`. -/
def transition (target : ConversationState)
    (updates : ConversationRecord → ConversationRecord := id) : Prog Loop ConversationRecord := do
  let conv ← conversation
  let moved ← transitionConversation conv.conversationId target updates
  modify fun run => { run with conv := some moved }
  return moved

/-! ## Cycles -/

/-- The record of a cycle that its reply completes. -/
def completedCycle (cycle : CycleRecord) (inboundMessageId : String) (endedAt : Instant) :
    CycleRecord :=
  { cycle with
    status := .completed, endedAt := some endedAt, inboundMessageId := some inboundMessageId }

/-- `_complete_cycle`. -/
def completeCycle (inboundMessageId : String) : Prog Loop Unit := do
  let run ← get
  match run.cycle with
  | none => return
  | some cycle =>
    let σ ← readStore
    let current := (σ.getCycle cycle.cycleId).getD cycle
    if current.status ≠ .running then
      modify fun run => { run with cycle := some current }
    else
      checkTransition cycleTransitions current.status .completed "cycle"
      let endedAt ← now
      let completed := completedCycle current inboundMessageId endedAt
      writeStore fun σ => σ.saveCycle completed
      modify fun run => { run with cycle := some completed }

/-! ## The end of a run -/

/-- `_close_remote`: best effort, whatever becomes of it. -/
def closeRemote (conversations : List ConversationRecord) : Prog Loop Unit :=
  forM conversations fun conversation =>
    match conversation.remoteConversationId with
    | none => pure ()
    | some remote => do
      let _ ← Prog.query (L := Loop) (.closeConversation remote)

/-- Whether the conversation is closed on this message: it is when the session closes on its final
answer, unless the message is a question to the user. -/
def closes (session : SessionRecord) : InboundContent → Bool
  | .userResponse content => session.autoCloseOnFinalAnswer && !content.expectsReply
  | .other _ => session.autoCloseOnFinalAnswer

/-- The session as the message leaves it: only a final answer is written to its record. -/
def answered (inbound : InboundMessage) : Prog Loop SessionRecord := do
  match inbound.content with
  | .userResponse _ => session
  | .other content =>
    let run ← get
    updateSession run.sid fun s => { s with finalAnswer := some content }

/-- The closing decision. -/
def closeOrWait (close : Bool) : Prog Loop ConversationRecord :=
  if close then
    transition .closed fun c => { c with closureReason := some "auto_close" }
  else
    transition .waitingUser

/-- `_finish`: the model's turn is concluded. -/
def finish (inbound : InboundMessage) : Prog Loop Unit := do
  let session ← answered inbound
  let close := closes session inbound.content
  let _ ← transition .completed fun c => { c with finalAnswerReceived := true }
  completeCycle inbound.messageId
  let conv ← closeOrWait close
  let current ← SessionRun.session
  if current.status = .running then
    let _ ← transitionSession current.sessionId .completed
  if conv.status = .closed then
    closeRemote [conv]

/-! ## Rules -/

section Rules

open Prog

variable {C : Contract App} {w : World} {run : SessionRun}

theorem wp_run_get {Q} (h : Q (.ok run) (w, run)) : wp (C.withLocal SessionRun) get Q (w, run) := h

theorem wp_run_modify (hrefl : ∀ w, C.guar w w) {f : SessionRun → SessionRun} {Q}
    (h : Q (.ok ()) (w, f run)) : wp (C.withLocal SessionRun) (modify f) Q (w, run) :=
  ⟨hrefl w, h⟩

theorem wp_session {s : SessionRecord} {Q} (hs : w.store.getSession run.sid = some s)
    (h : Q (.ok s) (w, run)) : wp (C.withLocal SessionRun) session Q (w, run) := by
  unfold session
  rw [wp_bind]
  refine wp_run_get ?_
  exact wp_lift_app (wp_requireSession hs h)

theorem wp_conversation (hrefl : ∀ w, C.guar w w) {c₀ c : ConversationRecord} {Q}
    (hrun : run.conv = some c₀) (hc : w.store.getConversation c₀.conversationId = some c)
    (h : Q (.ok c) (w, { run with conv := some c })) :
    wp (C.withLocal SessionRun) conversation Q (w, run) := by
  unfold conversation
  rw [wp_bind]
  refine wp_run_get ?_
  rw [after_ok, wp_bind]
  refine wp_lift_app ?_
  simp only [wp_readStore, after_ok, hrun, Option.bind_some, hc, wp_bind]
  exact wp_run_modify hrefl h

/-- A transition of the conversation that the run is in. -/
theorem wp_transition (hC : Quiet C) (hrefl : ∀ w, C.guar w w) {c₀ c : ConversationRecord}
    {target : ConversationState} {updates : ConversationRecord → ConversationRecord} {Q}
    (hrun : run.conv = some c₀) (hc : w.store.getConversation c₀.conversationId = some c)
    (ht : canTransition conversationTransitions c.status target)
    (h : ∀ now, C.guar w
        { w with store := w.store.saveConversation ((updates c).moveTo target now) } ∧
      Q (.ok ((updates c).moveTo target now))
        ({ w with store := w.store.saveConversation ((updates c).moveTo target now) },
          { run with conv := some ((updates c).moveTo target now) })) :
    wp (C.withLocal SessionRun) (transition target updates) Q (w, run) := by
  have hid : c.conversationId = c₀.conversationId := (Table.find_eq_some_iff.1 hc).2
  unfold transition
  rw [wp_bind]
  refine wp_conversation hrefl hrun hc ?_
  rw [after_ok, wp_bind]
  refine wp_lift_app (wp_transitionConversation hC (by rw [hid]; exact hc) ht fun now => ?_)
  refine ⟨(h now).1, ?_⟩
  rw [after_ok, wp_bind]
  exact wp_run_modify hrefl (h now).2

end Rules

end SessionRun

end AgenticLocalApp
