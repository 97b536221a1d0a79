import AgenticLocalApp.Runtime.World

/-!
# The conversation lifecycle

Sessions and conversations: create, transition, update.  Every operation reads the record again
before it writes, and every state change goes through the transition tables.
-/

namespace AgenticLocalApp

def sessionEntity : String := "session"
def conversationEntity : String := "conversation"
def contextWindowEntity : String := "context_window"

/-- `_require_session`. -/
def requireSession (sid : String) : Prog App SessionRecord := do
  match (← readStore).getSession sid with
  | some session => return session
  | none => throw (.keyError s!"unknown session: {sid}")

/-- `_require_conversation`. -/
def requireConversation (cid : String) : Prog App ConversationRecord := do
  match (← readStore).getConversation cid with
  | some conversation => return conversation
  | none => throw (.keyError s!"unknown conversation: {cid}")

/-- `assert_transition`, inside a program. -/
def checkTransition {S : Type} [DecidableEq S] [StrEnum S] (table : S → List S)
    (current target : S) (entity : String) : Prog App Unit :=
  .ofExcept (assertTransition table current target entity)

/-! ## Sessions -/

/-- The current conversation of the session is waiting for the user. -/
def conversationWaitsForUser (σ : Store) (session : SessionRecord) : Bool :=
  match session.currentConversationId.bind σ.getConversation with
  | some conversation => conversation.status = .waitingUser
  | none => false

/-- The record of a session once it has moved to `target`. -/
def SessionRecord.moveTo (session : SessionRecord) (target : SessionState) (now : Instant) :
    SessionRecord :=
  let moved := { session with status := target, updatedAt := now }
  match target with
  | .running => { moved with startedAt := session.startedAt.or (some now), endedAt := none }
  | .completed => { moved with endedAt := some now }
  | .failed => { moved with endedAt := some now }
  | .interrupting => { moved with interruptedAt := some now }
  | _ => moved

/-- `transition_session`.  A completed session that closes on its final answer runs again only to
let the user answer a question. -/
def transitionSession (sid : String) (target : SessionState)
    (updates : SessionRecord → SessionRecord := id) : Prog App SessionRecord := do
  let current ← requireSession sid
  checkTransition sessionTransitions current.status target sessionEntity
  let σ ← readStore
  if current.status = .completed ∧ target = .running ∧ current.autoCloseOnFinalAnswer ∧
      ¬ conversationWaitsForUser σ current then
    throw (.invalidTransition sessionEntity (StrEnum.value current.status) (StrEnum.value target))
  let now ← now
  let session := (updates current).moveTo target now
  writeStore fun σ => σ.saveSession session
  return session

/-- `update_session`. -/
def updateSession (sid : String) (updates : SessionRecord → SessionRecord) :
    Prog App SessionRecord := do
  let current ← requireSession sid
  let now ← now
  let session := { updates current with updatedAt := now }
  writeStore fun σ => σ.saveSession session
  return session

/-! ## Conversations -/

/-- The record of a new conversation of a session. -/
def ConversationRecord.create (conversationId : String) (session : SessionRecord)
    (parentConversationId : Option String) (contextWindowState : ContextWindowState)
    (now : Instant) : ConversationRecord where
  conversationId := conversationId
  sessionId := session.sessionId
  parentConversationId := parentConversationId
  status := .new
  autoCloseOnFinalAnswer := session.autoCloseOnFinalAnswer
  contextWindowState := contextWindowState
  sessionBudget := session.budget
  createdAt := now
  updatedAt := now

/-- `create_conversation`: a new conversation, to which the session now points. -/
def createConversation (sid : String) (parentConversationId : Option String := none)
    (contextWindowState : ContextWindowState := .healthy) : Prog App ConversationRecord := do
  let session ← requireSession sid
  if let some parentId := parentConversationId then
    let parent ← requireConversation parentId
    if parent.sessionId ≠ sid then
      throw (.valueError
        s!"parent conversation {parentId} belongs to session {parent.sessionId}, not {sid}")
  let now ← now
  let conversationId ← newId .conversation
  let conversation :=
    ConversationRecord.create conversationId session parentConversationId contextWindowState now
  let updated :=
    { session with currentConversationId := some conversationId, updatedAt := now }
  writeStore fun σ => (σ.saveConversation conversation).saveSession updated
  return conversation

/-- The record of a conversation once it has moved to `target`. -/
def ConversationRecord.moveTo (conversation : ConversationRecord) (target : ConversationState)
    (now : Instant) : ConversationRecord :=
  let moved := { conversation with status := target, updatedAt := now }
  if target = .interrupted then { moved with interruptedAt := some now } else moved

/-- `_commit_conversation_transition`: write a change that has been checked. -/
def commitConversationTransition (current : ConversationRecord) (target : ConversationState)
    (updates : ConversationRecord → ConversationRecord) : Prog App ConversationRecord := do
  let now ← now
  let conversation := (updates current).moveTo target now
  writeStore fun σ => σ.saveConversation conversation
  return conversation

/-- `transition_conversation`. -/
def transitionConversation (cid : String) (target : ConversationState)
    (updates : ConversationRecord → ConversationRecord := id) : Prog App ConversationRecord := do
  let current ← requireConversation cid
  checkTransition conversationTransitions current.status target conversationEntity
  commitConversationTransition current target updates

/-- `update_conversation`. -/
def updateConversation (cid : String) (updates : ConversationRecord → ConversationRecord) :
    Prog App ConversationRecord := do
  let current ← requireConversation cid
  let now ← now
  let conversation := { updates current with updatedAt := now }
  writeStore fun σ => σ.saveConversation conversation
  return conversation

/-- `interrupt_conversation`: any active state moves to `INTERRUPTED`, any other is refused. -/
def interruptConversation (cid : String) : Prog App ConversationRecord := do
  let current ← requireConversation cid
  if current.status ∉ activeConversationStates then
    throw (.invalidTransition conversationEntity (StrEnum.value current.status)
      (StrEnum.value ConversationState.interrupted))
  checkTransition conversationTransitions current.status .interrupted conversationEntity
  commitConversationTransition current .interrupted id

/-- `transition_context_window`. -/
def transitionContextWindow (cid : String) (target : ContextWindowState) :
    Prog App ConversationRecord := do
  let current ← requireConversation cid
  checkTransition contextWindowTransitions current.contextWindowState target contextWindowEntity
  let now ← now
  let conversation := { current with contextWindowState := target, updatedAt := now }
  writeStore fun σ => σ.saveConversation conversation
  return conversation

/-! ## Rules

What each operation does when the record is there and the table allows the change. -/

section Rules

open Prog

variable {C : Contract App} {w : World}

theorem wp_checkTransition {S : Type} [DecidableEq S] [StrEnum S] {table : S → List S}
    {current target : S} {entity : String} {Q} (ht : canTransition table current target)
    (h : Q (.ok ()) w) : wp C (checkTransition table current target entity) Q w := by
  unfold checkTransition
  rw [wp_ofExcept, assertTransition_eq_ok_iff.2 ht]
  exact h

theorem wp_requireSession {sid : String} {session : SessionRecord} {Q}
    (hs : w.store.getSession sid = some session) (h : Q (.ok session) w) :
    wp C (requireSession sid) Q w := by
  unfold requireSession
  simp only [wp_bind, wp_readStore, after_ok, hs]
  exact h

theorem wp_requireSession_none {sid : String} {Q} (hs : w.store.getSession sid = none)
    (h : Q (.error (.keyError s!"unknown session: {sid}")) w) : wp C (requireSession sid) Q w := by
  unfold requireSession
  simp only [wp_bind, wp_readStore, after_ok, hs]
  exact h

theorem wp_requireConversation {cid : String} {conversation : ConversationRecord} {Q}
    (hc : w.store.getConversation cid = some conversation) (h : Q (.ok conversation) w) :
    wp C (requireConversation cid) Q w := by
  unfold requireConversation
  simp only [wp_bind, wp_readStore, after_ok, hc]
  exact h

theorem wp_transitionSession (hC : Quiet C) {sid : String} {session : SessionRecord}
    {target : SessionState} {updates : SessionRecord → SessionRecord} {Q}
    (hs : w.store.getSession sid = some session)
    (ht : canTransition sessionTransitions session.status target)
    (hclosed : session.status = .completed → target = .running →
      session.autoCloseOnFinalAnswer → conversationWaitsForUser w.store session)
    (h : ∀ now, C.guar w { w with store := w.store.saveSession ((updates session).moveTo target now) } ∧
      Q (.ok ((updates session).moveTo target now))
        { w with store := w.store.saveSession ((updates session).moveTo target now) }) :
    wp C (transitionSession sid target updates) Q w := by
  unfold transitionSession
  rw [wp_bind]
  refine wp_requireSession hs ?_
  rw [after_ok, wp_bind]
  refine wp_checkTransition ht ?_
  simp only [after_ok, wp_bind, wp_readStore, wp_ite, wp_pure]
  refine ⟨fun hc => absurd (hclosed hc.1 hc.2.1 hc.2.2.1) hc.2.2.2, fun _ => ?_⟩
  refine wp_now hC fun now => ?_
  simp only [after_ok, wp_writeStore]
  exact h now

/-- A session that closed on its final answer does not run again. -/
theorem wp_transitionSession_closed {sid : String} {session : SessionRecord}
    {updates : SessionRecord → SessionRecord} {Q} (hs : w.store.getSession sid = some session)
    (hdone : session.status = .completed) (hclosed : session.autoCloseOnFinalAnswer)
    (hwaits : ¬ conversationWaitsForUser w.store session) (h : ∀ e, Q (.error e) w) :
    wp C (transitionSession sid .running updates) Q w := by
  unfold transitionSession
  rw [wp_bind]
  refine wp_requireSession hs ?_
  rw [after_ok, wp_bind]
  refine wp_checkTransition (by rw [hdone]; rfl) ?_
  simp only [after_ok, wp_bind, wp_readStore, wp_ite, wp_raise]
  exact ⟨fun _ => h _, fun hn => absurd ⟨hdone, trivial, hclosed, hwaits⟩ hn⟩

theorem wp_updateSession (hC : Quiet C) {sid : String} {session : SessionRecord}
    {updates : SessionRecord → SessionRecord} {Q} (hs : w.store.getSession sid = some session)
    (h : ∀ now, C.guar w
        { w with store := w.store.saveSession { updates session with updatedAt := now } } ∧
      Q (.ok { updates session with updatedAt := now })
        { w with store := w.store.saveSession { updates session with updatedAt := now } }) :
    wp C (updateSession sid updates) Q w := by
  unfold updateSession
  rw [wp_bind]
  refine wp_requireSession hs ?_
  rw [after_ok, wp_bind]
  refine wp_now hC fun now => ?_
  simp only [after_ok, wp_bind, wp_writeStore, wp_pure]
  exact h now

theorem wp_createConversation (hC : Quiet C) {sid parentId : String} {session : SessionRecord}
    {parent : ConversationRecord} {state : ContextWindowState} {Q}
    (hs : w.store.getSession sid = some session)
    (hp : w.store.getConversation parentId = some parent) (hsid : parent.sessionId = sid)
    (h : ∀ now id, id ∉ w.store.ids .conversation →
      let conversation := ConversationRecord.create id session (some parentId) state now
      let updated := { session with currentConversationId := some id, updatedAt := now }
      C.guar w { w with store := (w.store.saveConversation conversation).saveSession updated } ∧
        Q (.ok conversation)
          { w with store := (w.store.saveConversation conversation).saveSession updated }) :
    wp C (createConversation sid (some parentId) state) Q w := by
  unfold createConversation
  rw [wp_bind]
  refine wp_requireSession hs ?_
  rw [after_ok, wp_bind]
  refine wp_requireConversation hp ?_
  rw [after_ok]
  dsimp only
  rw [wp_ite]
  refine ⟨fun hne => absurd hsid hne, fun _ => ?_⟩
  rw [wp_bind]
  refine wp_now hC fun now => ?_
  rw [after_ok, wp_bind]
  refine wp_newId hC fun id hid => ?_
  rw [after_ok, wp_bind, wp_writeStore]
  exact h now id hid

theorem wp_commitConversationTransition (hC : Quiet C) {current : ConversationRecord}
    {target : ConversationState} {updates : ConversationRecord → ConversationRecord} {Q}
    (h : ∀ now,
      C.guar w { w with store := w.store.saveConversation ((updates current).moveTo target now) } ∧
      Q (.ok ((updates current).moveTo target now))
        { w with store := w.store.saveConversation ((updates current).moveTo target now) }) :
    wp C (commitConversationTransition current target updates) Q w := by
  unfold commitConversationTransition
  rw [wp_bind]
  refine wp_now hC fun now => ?_
  simp only [after_ok, wp_bind, wp_writeStore, wp_pure]
  exact h now

theorem wp_transitionConversation (hC : Quiet C) {cid : String} {conversation : ConversationRecord}
    {target : ConversationState} {updates : ConversationRecord → ConversationRecord} {Q}
    (hc : w.store.getConversation cid = some conversation)
    (ht : canTransition conversationTransitions conversation.status target)
    (h : ∀ now, C.guar w
        { w with store := w.store.saveConversation ((updates conversation).moveTo target now) } ∧
      Q (.ok ((updates conversation).moveTo target now))
        { w with store := w.store.saveConversation ((updates conversation).moveTo target now) }) :
    wp C (transitionConversation cid target updates) Q w := by
  unfold transitionConversation
  rw [wp_bind]
  refine wp_requireConversation hc ?_
  rw [after_ok, wp_bind]
  refine wp_checkTransition ht ?_
  rw [after_ok]
  exact wp_commitConversationTransition hC h

theorem wp_updateConversation (hC : Quiet C) {cid : String} {conversation : ConversationRecord}
    {updates : ConversationRecord → ConversationRecord} {Q}
    (hc : w.store.getConversation cid = some conversation)
    (h : ∀ now, C.guar w
        { w with store := w.store.saveConversation { updates conversation with updatedAt := now } } ∧
      Q (.ok { updates conversation with updatedAt := now })
        { w with store := w.store.saveConversation { updates conversation with updatedAt := now } }) :
    wp C (updateConversation cid updates) Q w := by
  unfold updateConversation
  rw [wp_bind]
  refine wp_requireConversation hc ?_
  rw [after_ok, wp_bind]
  refine wp_now hC fun now => ?_
  simp only [after_ok, wp_bind, wp_writeStore, wp_pure]
  exact h now

theorem canTransition_interrupted {status : ConversationState}
    (h : status ∈ activeConversationStates) :
    canTransition conversationTransitions status .interrupted := by
  cases status <;> first | rfl | exact absurd h (by decide)

theorem wp_interruptConversation (hC : Quiet C) {cid : String} {conversation : ConversationRecord}
    {Q} (hc : w.store.getConversation cid = some conversation)
    (ha : conversation.status ∈ activeConversationStates)
    (h : ∀ now, C.guar w
        { w with store := w.store.saveConversation (conversation.moveTo .interrupted now) } ∧
      Q (.ok (conversation.moveTo .interrupted now))
        { w with store := w.store.saveConversation (conversation.moveTo .interrupted now) }) :
    wp C (interruptConversation cid) Q w := by
  unfold interruptConversation
  rw [wp_bind]
  refine wp_requireConversation hc ?_
  simp only [after_ok, wp_bind, wp_ite]
  refine ⟨fun hn => absurd ha hn, fun _ => ?_⟩
  refine wp_checkTransition (canTransition_interrupted ha) ?_
  rw [after_ok]
  exact wp_commitConversationTransition hC h

end Rules

end AgenticLocalApp
