import AgenticLocalApp.Orchestration.PendingOutbound

/-!
# The conversation manager

The two requests that set a session going again: a further message of the user, and the resumption
of a session that was paused or that a restart left running.  Each ends by launching the loop of
the session, and says from which entry.
-/

namespace AgenticLocalApp

/-- The loop that a request launches. -/
inductive Launch where
  /-- `run_session`, with the message to open with where it is not the session's. -/
  | runSession (userMessage : Option String)
  /-- `continue_session`. -/
  | continueSession (userMessage : String)
  /-- `resume_session`. -/
  | resumeSession
  deriving DecidableEq

def reusableConversationStates : List ConversationState := [.waitingUser, .completed]
def resumableSessionStates : List SessionState := [.running, .paused]
def unsentConversationStates : List ConversationState := [.new, .active]

/-- The conversation that a session is in. -/
def currentConversation (σ : Store) (session : SessionRecord) : Option ConversationRecord :=
  session.currentConversationId.bind σ.getConversation

/-- Launch the loop and return the session. -/
def launchLoop (sid : String) (launch : Launch) : Prog App (SessionRecord × Launch) := do
  let session ← requireSession sid
  return (session, launch)

/-- `continue_session`. -/
def continueSession (loopRunning : Bool) (sid userMessage : String) :
    Prog App (SessionRecord × Launch) := do
  let session ← requireSession sid
  if loopRunning then
    throw (.valueError s!"session {sid} is still running")
  if session.status = .completed then
    let σ ← readStore
    let reusable : Bool := match currentConversation σ session with
      | some conversation => conversation.status ∈ reusableConversationStates
      | none => false
    if ¬ reusable then
      if session.autoCloseOnFinalAnswer then
        throw (.valueError s!"session {sid} was closed after its final answer")
      throw (.valueError s!"session {sid} has no reusable conversation")
    let _ ← transitionSession sid .running fun s => { s with finalAnswer := none }
    launchLoop sid (.continueSession userMessage)
  else if session.status = .ready then
    let _ ← transitionSession sid .running fun s =>
      { s with
        userMessage := userMessage
        finalAnswer := none
        goal := if session.goal = "" then userMessage else s.goal }
    let conversation ← createConversation sid session.currentConversationId
    let _ ← transitionConversation conversation.conversationId .active
    launchLoop sid (.runSession (some userMessage))
  else
    throw (.valueError s!"session {sid} is not reusable ({StrEnum.value session.status})")

/-- `_resumed`. -/
def resumed (sid : String) : Prog App Unit := do
  let _ ← transitionSession sid .running

/-- `resume_session`. -/
def resumeSession (loopRunning : Bool) (sid : String) : Prog App (SessionRecord × Launch) := do
  let session ← requireSession sid
  if loopRunning then
    throw (.valueError s!"session {sid} is already running")
  if session.status ∉ resumableSessionStates ∨ session.currentConversationId = none then
    throw (.valueError s!"session {sid} is not resumable ({StrEnum.value session.status})")
  let paused : Bool := session.status = .paused
  let σ ← readStore
  let conversation := currentConversation σ session
  match conversation, conversation.bind (pendingOutboundOf σ) with
  | some conversation, none =>
    if ¬ paused ∨ conversation.status ∉ unsentConversationStates then
      throw (.valueError s!"session {sid} has no pending outbound message to resume")
    resumed sid
    launchLoop sid (.runSession none)
  | none, _ => throw (.valueError s!"session {sid} has no pending outbound message to resume")
  | some _, some _ =>
    if paused then
      resumed sid
    launchLoop sid .resumeSession

/-! ## What is accepted -/

/-- Where the session would go on from, if its resumption is accepted. -/
def resumption (σ : Store) (session : SessionRecord) : Option Launch :=
  if session.status ∉ resumableSessionStates then none
  else
    match currentConversation σ session with
    | none => none
    | some conversation =>
      if (pendingOutboundOf σ conversation).isSome then some .resumeSession
      else if session.status = .paused ∧ conversation.status ∈ unsentConversationStates then
        some (.runSession none)
      else none

/-- Whether a completed session takes a further message of the user. -/
def continuable (σ : Store) (session : SessionRecord) : Bool :=
  match currentConversation σ session with
  | some conversation =>
    conversation.status = .waitingUser ∨
      conversation.status = .completed ∧ ¬ session.autoCloseOnFinalAnswer
  | none => false

section Rules

open Prog

variable {C : Contract App} {w : World}

/-- What the answer to a further message says of the completed session it was sent to. -/
def ContinuationAnswer (σ : Store) (session : SessionRecord) :
    Except Exc (SessionRecord × Launch) → Prop
  | .ok _ => continuable σ session
  | .error _ => ¬ continuable σ session

theorem wp_resumed (hC : Quiet C) {sid : String} {session : SessionRecord} {Q}
    (hs : w.store.getSession sid = some session) (hp : session.status = .paused)
    (h : ∀ now, C.guar w { w with store := w.store.saveSession (session.moveTo .running now) } ∧
      Q (.ok ()) { w with store := w.store.saveSession (session.moveTo .running now) }) :
    wp C (resumed sid) Q w := by
  unfold resumed
  rw [wp_bind]
  exact wp_transitionSession hC hs (by rw [hp]; rfl)
    (fun hc => absurd (hp.symm.trans hc) (by decide)) h

theorem getSession_saveSession_moveTo {σ : Store} {sid : String} {session : SessionRecord}
    (hsid : session.sessionId = sid) (target : SessionState) (now : Instant) :
    (σ.saveSession (session.moveTo target now)).getSession sid = some (session.moveTo target now) := by
  have hkey : Keyed.key (session.moveTo target now) = sid := by
    rw [← hsid]
    cases target <;> rfl
  rw [← hkey]
  exact Table.find_save_self _ _

/-- What the answer to a resumption says of the store it was made on. -/
def ResumptionAnswer (σ : Store) (sid : String) : Except Exc (SessionRecord × Launch) → Prop
  | .ok (_, launch) => ∃ session, σ.getSession sid = some session ∧ resumption σ session = some launch
  | .error _ => ∀ session, σ.getSession sid = some session → resumption σ session = none

theorem wp_launchLoop {sid : String} {session : SessionRecord} {launch : Launch} {Q}
    (hs : w.store.getSession sid = some session) (h : Q (.ok (session, launch)) w) :
    wp C (launchLoop sid launch) Q w := by
  unfold launchLoop
  rw [wp_bind]
  exact wp_requireSession hs h

/-- A paused session runs again and its loop is launched. -/
theorem wp_resumed_launch (hC : Quiet C) (hg : ∀ w w', C.guar w w') {sid : String}
    {session : SessionRecord} {launch : Launch} {Q : Except Exc (SessionRecord × Launch) → Prop}
    (hs : w.store.getSession sid = some session) (hp : session.status = .paused)
    (h : ∀ record, Q (.ok (record, launch))) :
    wp C (do resumed sid; launchLoop sid launch) (fun r _ => Q r) w := by
  rw [wp_bind]
  refine wp_resumed hC hs hp fun now => ⟨hg _ _, ?_⟩
  exact wp_launchLoop (getSession_saveSession_moveTo (Table.find_eq_some_iff.1 hs).2 _ now) (h _)

/-- `resume_session` accepts what `resumption` says, where no loop is running. -/
theorem resumeSession_spec (hC : Quiet C) (hg : ∀ w w', C.guar w w') (sid : String) (w : World) :
    wp C (resumeSession false sid) (fun r _ => ResumptionAnswer w.store sid r) w := by
  unfold resumeSession
  rw [wp_bind]
  cases hs : w.store.getSession sid with
  | none => exact wp_requireSession_none hs fun s hs' => absurd (hs.symm.trans hs') (by simp)
  | some session =>
    have refused (hnone : resumption w.store session = none) (e : Exc) :
        ResumptionAnswer w.store sid (.error e) :=
      fun s hs' => Option.some.inj (hs.symm.trans hs') ▸ hnone
    have accepted {launch : Launch} (hlaunch : resumption w.store session = some launch)
        (record : SessionRecord) : ResumptionAnswer w.store sid (.ok (record, launch)) :=
      ⟨session, hs, hlaunch⟩
    refine wp_requireSession hs ?_
    simp only [Bool.false_eq_true, if_false, wp_bind, wp_ite, wp_readStore, after_ok, wp_raise,
      after_error]
    refine ⟨fun hno => refused ?_ _, fun hok => ?_⟩
    · rcases hno with hno | hno
      · rw [resumption, if_pos hno]
      · simp [resumption, currentConversation, hno]
    · obtain ⟨hstatus, -⟩ := not_or.1 hok
      rw [not_not] at hstatus
      cases hc : currentConversation w.store session with
      | none =>
        simp only [wp_raise]
        exact refused (by simp [resumption, hc]) _
      | some conversation =>
        rw [Option.bind_some]
        cases hp : pendingOutboundOf w.store conversation with
        | none =>
          simp only [wp_ite, wp_bind, wp_raise, after_error]
          refine ⟨fun hno => refused ?_ _, fun hyes => ?_⟩
          · rcases hno with hno | hno <;> simp [resumption, hc, hp] at hno ⊢ <;> grind
          · obtain ⟨hpaused, hunsent⟩ := not_or.1 hyes
            simp only [decide_eq_true_eq, not_not] at hpaused hunsent
            rw [← wp_bind]
            exact wp_resumed_launch hC hg hs hpaused
              (accepted (by simp [resumption, hc, hp, hpaused, hunsent, resumableSessionStates]))
        | some m =>
          have hlaunch : resumption w.store session = some .resumeSession := by
            simp [resumption, hc, hp, hstatus]
          simp only [wp_ite]
          refine ⟨fun hpaused => ?_, fun _ => wp_launchLoop hs (accepted hlaunch _)⟩
          exact wp_resumed_launch hC hg hs (of_decide_eq_true hpaused) (accepted hlaunch)

theorem conversationWaitsForUser_eq {σ : Store} {session : SessionRecord}
    {conversation : ConversationRecord} (hc : currentConversation σ session = some conversation) :
    conversationWaitsForUser σ session = decide (conversation.status = .waitingUser) := by
  unfold currentConversation at hc
  rw [conversationWaitsForUser, hc]

/-- `continue_session` accepts what `continuable` says, of a completed session. -/
theorem continueSession_spec (hC : Quiet C) (hg : ∀ w w', C.guar w w') {sid : String}
    {session : SessionRecord} (userMessage : String) (hs : w.store.getSession sid = some session)
    (hdone : session.status = .completed) :
    wp C (continueSession false sid userMessage)
      (fun r _ => ContinuationAnswer w.store session r) w := by
  unfold continueSession
  rw [wp_bind]
  refine wp_requireSession hs ?_
  simp only [Bool.false_eq_true, if_false, hdone, if_true, wp_bind, after_ok, wp_readStore]
  cases hc : currentConversation w.store session with
  | none =>
    have hnot : ¬ continuable w.store session := by simp [continuable, hc]
    simp only [Bool.false_eq_true, not_false_eq_true, if_true, wp_ite, wp_bind, wp_raise, after_error]
    exact ⟨fun _ => hnot, fun _ => hnot⟩
  | some conversation =>
    have hwaits := conversationWaitsForUser_eq hc
    have hcont : continuable w.store session = decide (conversation.status = .waitingUser ∨
        conversation.status = .completed ∧ ¬ session.autoCloseOnFinalAnswer) := by
      simp only [continuable, hc]
    simp only [wp_ite, wp_bind, wp_raise, after_error]
    refine ⟨fun hno => ?_, fun hyes => ?_⟩
    · have hnot : ¬ continuable w.store session := by
        simp [reusableConversationStates] at hno
        simp [hcont, hno]
      exact ⟨fun _ => hnot, fun _ => hnot⟩
    · simp only [decide_eq_true_eq, not_not, reusableConversationStates, List.mem_cons,
        List.not_mem_nil, or_false] at hyes
      by_cases hclosed : session.autoCloseOnFinalAnswer ∧ ¬ conversation.status = .waitingUser
      · refine wp_transitionSession_closed hs hdone hclosed.1 (by simp [hwaits, hclosed.2]) fun e => ?_
        have hnot : ¬ continuable w.store session := by simp [hcont, hclosed]
        exact hnot
      · refine wp_transitionSession hC hs (by rw [hdone]; rfl) (fun _ _ ha => ?_) fun now =>
          ⟨hg _ _, ?_⟩
        · simpa [hwaits, ha] using hclosed
        · rw [after_ok]
          have hsid : session.sessionId = sid := (Table.find_eq_some_iff.1 hs).2
          let unanswered := { session with finalAnswer := none }
          have hun : unanswered.sessionId = sid := hsid
          refine wp_launchLoop (getSession_saveSession_moveTo hun _ now) ?_
          have hyes' : continuable w.store session := by
            simp only [hcont, decide_eq_true_eq]
            grind
          exact hyes'

end Rules

end AgenticLocalApp
