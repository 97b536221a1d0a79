import AgenticLocalApp.Lifecycle.LifecycleManager

/-!
# What an operation of the lifecycle does

A transition stores one change that its table allows and publishes one event that says so, or raises
and leaves everything as it was; a critical subscriber can still make it raise once the change is
stored and published.
-/

namespace AgenticLocalApp

open Prog

namespace LifecycleManager

/-- An operation of the manager, with its arguments. -/
inductive LifecycleOp where
  | createSession (goal userMessage userId : String) (budget : SessionBudget) (autoClose : Bool)
    (skills : List String) (effort : Option String)
  | transitionSession (sid : String) (target : SessionState) (reason : Option String)
    (updates : Kwargs)
  | updateSession (sid : String) (updates : Kwargs)
  | getSession (sid : String)
  | createConversation (sid : String) (parentConversationId : Option String)
    (contextWindowState : ContextWindowState)
  | transitionConversation (cid : String) (target : ConversationState) (reason : Option String)
    (updates : Kwargs)
  | updateConversation (cid : String) (updates : Kwargs)
  | interruptConversation (cid reason : String)
  | transitionContextWindow (cid : String) (target : ContextWindowState) (reason : Option String)
  | getConversation (cid : String)

namespace LifecycleOp

/-- What the operation returns. -/
abbrev Result : LifecycleOp → Type
  | createSession .. | transitionSession .. | updateSession .. => SessionRow
  | getSession .. => Option SessionRow
  | createConversation .. | transitionConversation .. | updateConversation ..
  | interruptConversation .. | transitionContextWindow .. => ConversationRow
  | getConversation .. => Option ConversationRow

/-- The program of the operation. -/
def run (library : Pydantic) : (op : LifecycleOp) → Prog Manager op.Result
  | createSession goal userMessage userId budget autoClose skills effort =>
    LifecycleManager.createSession goal userMessage userId budget autoClose skills effort
  | transitionSession sid target reason updates =>
    LifecycleManager.transitionSession library sid target reason updates
  | updateSession sid updates => LifecycleManager.updateSession library sid updates
  | getSession sid => LifecycleManager.getSession sid
  | createConversation sid parentConversationId contextWindowState =>
    LifecycleManager.createConversation library sid parentConversationId contextWindowState
  | transitionConversation cid target reason updates =>
    LifecycleManager.transitionConversation library cid target reason updates
  | updateConversation cid updates => LifecycleManager.updateConversation library cid updates
  | interruptConversation cid reason => LifecycleManager.interruptConversation library cid reason
  | transitionContextWindow cid target reason =>
    LifecycleManager.transitionContextWindow library cid target reason
  | getConversation cid => LifecycleManager.getConversation cid

end LifecycleOp

/-! ## Surroundings -/

/-- Any answer may come; the records and the bus are left alone meanwhile. -/
def anyAnswer : Rely Manager := fun _ s _ s' => s' = s

/-- The operations owe nothing but to come back. -/
def contract : Contract Manager where
  rely := anyAnswer
  guar _ _ := True
  wait _ _ := True
  stuck _ := False

section Rules

variable {s : ManagerState}

theorem wp_readRecords {α : Type} {f : LifecycleRecords → α} {Q}
    (hfault : ∀ e, Q (.error e) s) (h : Q (.ok (f s.records)) s) :
    wp contract (readRecords f) Q s := by
  unfold readRecords
  rw [wp_bind, wp_query]
  refine ⟨trivial, fun answer s' hs => ?_⟩
  obtain rfl : s' = s := hs
  cases answer with
  | none => exact h
  | some e => exact hfault e

theorem wp_writeRecords {f : LifecycleRecords → LifecycleRecords} {Q}
    (hfault : ∀ e, Q (.error e) s) (h : Q (.ok ()) { s with records := f s.records }) :
    wp contract (writeRecords f) Q s := by
  unfold writeRecords
  rw [wp_bind, wp_query]
  refine ⟨trivial, fun answer s' hs => ?_⟩
  obtain rfl : s' = s := hs
  cases answer with
  | none => exact ⟨trivial, h⟩
  | some e => exact hfault e

theorem wp_ask {op : ManagerOp} {Q} (h : ∀ a, Q (.ok a) s) :
    wp contract (query (L := Manager) op) Q s := by
  rw [wp_query]
  refine ⟨trivial, fun a s' hs => ?_⟩
  obtain rfl : s' = s := hs
  exact h a

theorem wp_requireSession {sid : String} {Q} (hfault : ∀ e, Q (.error e) s)
    (h : ∀ session, s.records.sessions.find sid = some session → Q (.ok session) s) :
    wp contract (requireSession sid) Q s := by
  unfold requireSession
  rw [wp_bind]
  refine wp_readRecords hfault ?_
  rw [after_ok]
  cases hf : s.records.sessions.find sid with
  | none => exact hfault _
  | some session => exact h session hf

theorem wp_requireConversation {cid : String} {Q} (hfault : ∀ e, Q (.error e) s)
    (h : ∀ conversation, s.records.conversations.find cid = some conversation →
      Q (.ok conversation) s) :
    wp contract (requireConversation cid) Q s := by
  unfold requireConversation
  rw [wp_bind]
  refine wp_readRecords hfault ?_
  rw [after_ok]
  cases hf : s.records.conversations.find cid with
  | none => exact hfault _
  | some conversation => exact h conversation hf

theorem wp_check {α : Type} {x : Except Exc α} {Q} (hfault : ∀ e, Q (.error e) s)
    (h : ∀ a, x = .ok a → Q (.ok a) s) : wp contract (ofExcept (L := Manager) x) Q s := by
  rw [wp_ofExcept]
  cases x with
  | ok a => exact h a rfl
  | error e => exact hfault e

end Rules

/-! ## Publication -/

/-- How the publication of an event ends: well, or with the exception of a critical subscriber that
wants it. -/
def Concluded {α : Type} (bus : EventBus) (event : LifecycleEvent) (a : α) :
    Except Exc α → Prop
  | .ok b => b = a
  | .error _ => ∃ sub ∈ bus.subscriptions, sub.critical ∧ sub.wants event.eventType

/-- `s'` is `s` with the records `rs` and one more event on the bus. -/
structure Committed (s s' : ManagerState) (rs : LifecycleRecords) (event : LifecycleEvent) :
    Prop where
  records : s'.records = rs
  published : s'.published = s.published ++ [event]
  subscriptions : s'.bus.subscriptions = s.bus.subscriptions

theorem wp_notify {s s₀ : ManagerState} {rs : LifecycleRecords} {event : LifecycleEvent}
    {sub : BusSubscription} (h : Committed s₀ s rs event) (hsub : sub ∈ s₀.bus.subscriptions) :
    wp contract (notify event sub) (after (fun _ s' => Committed s₀ s' rs event)
      (fun e s' => Committed s₀ s' rs event ∧ Concluded s₀.bus event () (.error e))) s := by
  unfold notify
  rw [wp_ite]
  refine ⟨fun hwants => ?_, fun _ => h⟩
  rw [wp_bind]
  refine wp_ask fun answer => ?_
  rw [after_ok]
  cases answer with
  | none => exact h
  | some e =>
    have hcounted : Committed s₀ { s with
        bus := { s.bus with subscriberErrors := s.bus.subscriberErrors + 1 } } rs event :=
      ⟨h.records, h.published, h.subscriptions⟩
    dsimp only
    rw [wp_bind, wp_update, after_ok, wp_ite]
    exact ⟨trivial, fun hcritical => ⟨hcounted, sub, hsub, hcritical, hwants⟩, fun _ => hcounted⟩

theorem wp_publish {s : ManagerState} {event : LifecycleEvent} {Q}
    (h : ∀ r s', Committed s s' s.records event → Concluded s.bus event () r → Q r s') :
    wp contract (publish event) Q s := by
  unfold publish
  rw [wp_bind, wp_update, after_ok, wp_bind, wp_read, after_ok]
  refine ⟨trivial, ?_⟩
  -- what is left to notify are subscribers of the bus as it was
  refine wp_mono (wp_forM (I := fun rest s' => Committed s s' s.records event ∧
      ∀ sub ∈ rest, sub ∈ s.bus.subscriptions)
    (E := fun e s' => Committed s s' s.records event ∧ Concluded s.bus event () (.error e))
    (fun sub rest s' hs => ?_) ⟨⟨rfl, rfl, rfl⟩, fun _ hsub => hsub⟩) fun r s' hr => ?_
  · refine wp_mono (wp_notify hs.1 (hs.2 sub List.mem_cons_self)) fun r s'' hr => ?_
    cases r with
    | ok _ => exact ⟨hr, fun x hx => hs.2 x (List.mem_cons_of_mem _ hx)⟩
    | error _ => exact hr
  · cases r with
    | ok _ => exact h _ _ hr.1 rfl
    | error _ => exact h _ _ hr.1 hr.2

/-- Write, publish and return: nothing has happened, or the write and the event both have. -/
theorem wp_commit {α : Type} {s : ManagerState} {f : LifecycleRecords → LifecycleRecords}
    {event : LifecycleEvent} {a : α} {Q : Except Exc α → ManagerState → Prop}
    (hfault : ∀ e, Q (.error e) s)
    (h : ∀ r s', Committed s s' (f s.records) event → Concluded s.bus event a r → Q r s') :
    wp contract (do writeRecords f; publish event; return a) Q s := by
  rw [wp_bind]
  refine wp_writeRecords hfault ?_
  rw [after_ok, wp_bind]
  refine wp_publish fun r s' hcommitted hconcluded => ?_
  have hs : Committed s s' (f s.records) event :=
    ⟨hcommitted.records, hcommitted.published, hcommitted.subscriptions⟩
  cases r with
  | ok _ => exact h _ _ hs rfl
  | error _ => exact h _ _ hs hconcluded

/-! ## Records and their updates -/

/-- `after` is `before` with the updates, but for the fields in `written`, and the updates set no
managed field. -/
structure Rewritten {F : Type} [RecordModel F] (library : Pydantic) (managed written : List String)
    (updates : Kwargs) (before after : ModelRow F) : Prop where
  clear : ∀ k ∈ managed, k ∉ updates.map Prod.fst
  updated : ∀ f, RecordModel.name f ∉ written →
    before.validated library updates f = some (after.value f)

theorem rejectManagedFields_ok {updates : Kwargs} {managed : List String} {entity : String}
    (h : rejectManagedFields updates managed entity = .ok ()) :
    ∀ k ∈ managed, k ∉ updates.map Prod.fst := by
  unfold rejectManagedFields at h
  dsimp only at h
  split at h
  · rename_i hnone
    intro k hk hmem
    exact absurd (List.filter_eq_nil_iff.1 hnone k hk) (by simpa using hmem)
  · cases h

namespace Rewritten

variable {F : Type} [RecordModel F] {library : Pydantic} {managed written : List String}
  {updates changes : Kwargs} {before after : ModelRow F}

theorem of_apply (hclear : ∀ k ∈ managed, k ∉ updates.map Prod.fst)
    (h : before.apply library changes = .ok after)
    (hsame : ∀ k, k ∉ written → changes.lookup k = updates.lookup k) :
    Rewritten library managed written updates before after where
  clear := hclear
  updated f hf := by
    rw [← ModelRow.apply_field h, ModelRow.validated, ModelRow.validated, hsame _ hf]

/-- A managed field that is not written stays as it was. -/
theorem kept (h : Rewritten library managed written updates before after) {f : F}
    (hmanaged : RecordModel.name f ∈ managed) (hwritten : RecordModel.name f ∉ written) :
    after.value f = before.value f := by
  have hv := h.updated f hwritten
  rw [ModelRow.validated, Kwargs.lookup_eq_none (h.clear _ hmanaged)] at hv
  exact (Option.some.inj hv).symm

end Rewritten

/-! ## Outcomes -/

/-- The fields that a change of status writes. -/
def sessionWritten : List String :=
  ["status", "updated_at", "started_at", "ended_at", "interrupted_at"]

def conversationWritten : List String := ["status", "updated_at", "interrupted_at"]

/-- The current conversation of the session waits for the user. -/
def WaitsForUser (rs : LifecycleRecords) (session : SessionRow) : Prop :=
  ∃ cid conversation, session.currentConversationId = some cid ∧
    rs.conversations.find cid = some conversation ∧ conversation.status = .waitingUser

/-- An allowed change of the status of a session, and the event that says so. -/
structure SessionMove (library : Pydantic) (rs : LifecycleRecords) (sid : String)
    (target : SessionState) (reason : Option String) (updates : Kwargs)
    (before after : SessionRow) (event : LifecycleEvent) : Prop where
  found : rs.sessions.find sid = some before
  key : after.sessionId = sid
  allowed : canTransition sessionTransitions before.status target
  reopened : before.status = .completed → target = .running → before.autoCloseOnFinalAnswer →
    WaitsForUser rs before
  status : after.status = target
  rewritten : Rewritten library sessionManagedFields sessionWritten updates before after
  event : event =
    { eventType := .sessionStateChanged
      timestamp := after.updatedAt
      sessionId := sid
      payload :=
        stateChangePayload (StrEnum.value before.status) (StrEnum.value after.status) reason }

/-- An allowed change of the status of a conversation, and the event that says so. -/
structure ConversationMove (library : Pydantic) (rs : LifecycleRecords) (cid : String)
    (target : ConversationState) (reason : Option String) (updates : Kwargs)
    (before after : ConversationRow) (event : LifecycleEvent) : Prop where
  found : rs.conversations.find cid = some before
  key : after.conversationId = cid
  allowed : canTransition conversationTransitions before.status target
  status : after.status = target
  rewritten : Rewritten library conversationManagedFields conversationWritten updates before after
  event : event =
    { eventType := .conversationStateChanged
      timestamp := after.updatedAt
      sessionId := before.sessionId
      conversationId := some cid
      payload :=
        stateChangePayload (StrEnum.value before.status) (StrEnum.value after.status) reason }

/-- An allowed change of the context window of a conversation, and the event that says so. -/
structure WindowMove (library : Pydantic) (rs : LifecycleRecords) (cid : String)
    (target : ContextWindowState) (reason : Option String) (before after : ConversationRow)
    (event : LifecycleEvent) : Prop where
  found : rs.conversations.find cid = some before
  key : after.conversationId = cid
  allowed : canTransition contextWindowTransitions before.contextWindowState target
  state : after.contextWindowState = target
  rewritten : Rewritten library conversationManagedFields ["context_window_state", "updated_at"] []
    before after
  event : event =
    { eventType := .contextWindowStateChanged
      timestamp := after.updatedAt
      sessionId := before.sessionId
      conversationId := some cid
      payload := stateChangePayload (StrEnum.value before.contextWindowState)
        (StrEnum.value after.contextWindowState) reason ++
          [("context_bytes", .int after.contextBytes)] }

/-- A new session, and the event that says so. -/
structure SessionCreation (goal userMessage userId : String) (budget : SessionBudget)
    (autoClose : Bool) (skills : List String) (effort : Option String) (session : SessionRow)
    (event : LifecycleEvent) : Prop where
  made : session =
    newSession session.sessionId goal userMessage userId budget autoClose session.updatedAt
  event : event =
    { eventType := .sessionCreated
      timestamp := session.updatedAt
      sessionId := session.sessionId
      payload := sessionCreatedPayload goal budget skills effort }

/-- A new conversation of a session that points to it, and the event that says so. -/
structure ConversationCreation (library : Pydantic) (rs : LifecycleRecords) (sid : String)
    (parentConversationId : Option String) (contextWindowState : ContextWindowState)
    (session updated : SessionRow) (conversation : ConversationRow) (event : LifecycleEvent) :
    Prop where
  found : rs.sessions.find sid = some session
  parent : ∀ parentId ∈ parentConversationId, ∃ parent,
    rs.conversations.find parentId = some parent ∧ parent.sessionId = sid
  made : conversation = newConversation conversation.conversationId session
    parentConversationId contextWindowState conversation.updatedAt
  pointer : updated.currentConversationId = some conversation.conversationId
  rewritten : Rewritten library sessionManagedFields ["current_conversation_id", "updated_at"] []
    session updated
  event : event =
    { eventType := .conversationCreated
      timestamp := conversation.updatedAt
      sessionId := sid
      conversationId := some conversation.conversationId
      payload := conversationCreatedPayload parentConversationId contextWindowState }

/-- The operation stored `rs`, published the event and returned `a`, unless a critical subscriber
raised. -/
def Done {α : Type} (s : ManagerState) (rs : LifecycleRecords) (event : LifecycleEvent) (a : α)
    (r : Except Exc α) (s' : ManagerState) : Prop :=
  Committed s s' rs event ∧ Concluded s.bus event a r

/-- The operation raised, and nothing has changed. -/
def Refused {α : Type} (s : ManagerState) : Except Exc α → ManagerState → Prop
  | .ok _, _ => False
  | .error _, s' => s' = s

namespace LifecycleOp

/-- What an operation may come to. -/
def Outcome (library : Pydantic) (s : ManagerState) :
    (op : LifecycleOp) → Except Exc op.Result → ManagerState → Prop
  | createSession goal userMessage userId budget autoClose skills effort, r, s' =>
    (∃ session event,
      SessionCreation goal userMessage userId budget autoClose skills effort session event ∧
        Done s (s.records.saveSession session) event session r s') ∨ Refused s r s'
  | transitionSession sid target reason updates, r, s' =>
    (∃ before after event,
      SessionMove library s.records sid target reason updates before after event ∧
        Done s (s.records.saveSession after) event after r s') ∨ Refused s r s'
  | updateSession sid updates, r, s' =>
    (∃ before after, s.records.sessions.find sid = some before ∧
      Rewritten library sessionManagedFields ["updated_at"] updates before after ∧
        r = .ok after ∧ s' = { s with records := s.records.saveSession after }) ∨ Refused s r s'
  | getSession sid, r, s' =>
    r = .ok (s.records.sessions.find sid) ∧ s' = s ∨ Refused s r s'
  | createConversation sid parentConversationId contextWindowState, r, s' =>
    (∃ session updated conversation event,
      ConversationCreation library s.records sid parentConversationId contextWindowState session
          updated conversation event ∧
        Done s ((s.records.saveConversation conversation).saveSession updated) event conversation
          r s') ∨ Refused s r s'
  | transitionConversation cid target reason updates, r, s' =>
    (∃ before after event,
      ConversationMove library s.records cid target reason updates before after event ∧
        Done s (s.records.saveConversation after) event after r s') ∨ Refused s r s'
  | updateConversation cid updates, r, s' =>
    (∃ before after, s.records.conversations.find cid = some before ∧
      Rewritten library conversationManagedFields ["updated_at"] updates before after ∧
        r = .ok after ∧ s' = { s with records := s.records.saveConversation after }) ∨
      Refused s r s'
  | interruptConversation cid reason, r, s' =>
    (∃ before after event, before.status ∈ activeConversationStates ∧
      ConversationMove library s.records cid .interrupted (some reason) [] before after event ∧
        Done s (s.records.saveConversation after) event after r s') ∨ Refused s r s'
  | transitionContextWindow cid target reason, r, s' =>
    (∃ before after event, WindowMove library s.records cid target reason before after event ∧
      Done s (s.records.saveConversation after) event after r s') ∨ Refused s r s'
  | getConversation cid, r, s' =>
    r = .ok (s.records.conversations.find cid) ∧ s' = s ∨ Refused s r s'

end LifecycleOp

/-! ## What the changes write -/

section Changes

variable {library : Pydantic} {updates : Kwargs} {now : Instant}

theorem lookup_sessionChanges {current : SessionRow} {target : SessionState} {k : String}
    (hk : k ∉ ["started_at", "ended_at", "interrupted_at"]) :
    (sessionChanges current target now updates).lookup k =
      ((updates.setItem "status" (.sessionState target)).setItem "updated_at"
        (.datetime now)).lookup k := by
  simp only [List.mem_cons, List.not_mem_nil, or_false, not_or] at hk
  obtain ⟨hstarted, hended, hinterrupted⟩ := hk
  cases target with
  | running =>
    simp only [sessionChanges]
    rw [Kwargs.lookup_setdefault_ne hended]
    split
    · exact Kwargs.lookup_setdefault_ne hstarted
    · rfl
  | completed | failed => exact Kwargs.lookup_setdefault_ne hended
  | interrupting => exact Kwargs.lookup_setdefault_ne hinterrupted
  | ready | paused => rfl

theorem lookup_conversationChanges {target : ConversationState} {k : String}
    (hk : k ≠ "interrupted_at") :
    (conversationChanges target now updates).lookup k =
      ((updates.setItem "status" (.conversationState target)).setItem "updated_at"
        (.datetime now)).lookup k := by
  simp only [conversationChanges]
  split
  · exact Kwargs.lookup_setdefault_ne hk
  · rfl

variable (hclear : ∀ k ∈ sessionManagedFields, k ∉ updates.map Prod.fst)

include hclear

theorem sessionMove_of_apply {rs : LifecycleRecords} {sid : String} {target : SessionState}
    {reason : Option String} {current session : SessionRow}
    (hfound : rs.sessions.find sid = some current)
    (hallowed : canTransition sessionTransitions current.status target)
    (hreopened : current.status = .completed → target = .running →
      current.autoCloseOnFinalAnswer → WaitsForUser rs current)
    (happly : current.apply library (sessionChanges current target now updates) = .ok session) :
    SessionMove library rs sid target reason updates current session
      { eventType := .sessionStateChanged
        timestamp := now
        sessionId := sid
        payload := stateChangePayload (StrEnum.value current.status) (StrEnum.value target) reason } := by
  have hstatus : session.status = target :=
    ModelRow.apply_changed (f := SessionField.status) (c := target) happly
      ((lookup_sessionChanges (by decide)).trans
        ((Kwargs.lookup_setItem_ne (by decide)).trans Kwargs.lookup_setItem))
  have hupdated : session.updatedAt = now :=
    ModelRow.apply_changed (f := SessionField.updatedAt) (c := now) happly
      ((lookup_sessionChanges (by decide)).trans Kwargs.lookup_setItem)
  have hrewritten : Rewritten library sessionManagedFields sessionWritten updates current session :=
    .of_apply hclear happly fun k hk => by
      simp only [sessionWritten, List.mem_cons, List.not_mem_nil, or_false, not_or] at hk
      obtain ⟨hks, hku, hk⟩ := hk
      rw [lookup_sessionChanges (by simpa using hk), Kwargs.lookup_setItem_ne hku,
        Kwargs.lookup_setItem_ne hks]
  have hkey : session.sessionId = current.sessionId :=
    hrewritten.kept (f := SessionField.sessionId) (by decide) (by decide)
  refine ⟨hfound, ?_, hallowed, hreopened, hstatus, hrewritten, ?_⟩
  · exact hkey.trans (Table.find_eq_some_iff.1 hfound).2
  · rw [hstatus, hupdated]

end Changes

theorem conversationMove_of_apply {library : Pydantic} {updates : Kwargs} {now : Instant}
    {rs : LifecycleRecords} {cid : String} {target : ConversationState} {reason : Option String}
    {current conversation : ConversationRow}
    (hclear : ∀ k ∈ conversationManagedFields, k ∉ updates.map Prod.fst)
    (hfound : rs.conversations.find cid = some current)
    (hallowed : canTransition conversationTransitions current.status target)
    (happly : current.apply library (conversationChanges target now updates) = .ok conversation) :
    ConversationMove library rs cid target reason updates current conversation
      { eventType := .conversationStateChanged
        timestamp := now
        sessionId := conversation.sessionId
        conversationId := some conversation.conversationId
        payload := stateChangePayload (StrEnum.value current.status) (StrEnum.value target) reason } := by
  have hstatus : conversation.status = target :=
    ModelRow.apply_changed (f := ConversationField.status) (c := target) happly
      ((lookup_conversationChanges (by decide)).trans
        ((Kwargs.lookup_setItem_ne (by decide)).trans Kwargs.lookup_setItem))
  have hupdated : conversation.updatedAt = now :=
    ModelRow.apply_changed (f := ConversationField.updatedAt) (c := now) happly
      ((lookup_conversationChanges (by decide)).trans Kwargs.lookup_setItem)
  have hrewritten : Rewritten library conversationManagedFields conversationWritten updates current
      conversation :=
    .of_apply hclear happly fun k hk => by
      simp only [conversationWritten, List.mem_cons, List.not_mem_nil, or_false, not_or] at hk
      obtain ⟨hks, hku, hki⟩ := hk
      rw [lookup_conversationChanges hki, Kwargs.lookup_setItem_ne hku, Kwargs.lookup_setItem_ne hks]
  have hkey : conversation.conversationId = cid :=
    (hrewritten.kept (f := ConversationField.conversationId) (by decide) (by decide)).trans
      (Table.find_eq_some_iff.1 hfound).2
  have hsession : conversation.sessionId = current.sessionId :=
    hrewritten.kept (f := ConversationField.sessionId) (by decide) (by decide)
  refine ⟨hfound, hkey, hallowed, hstatus, hrewritten, ?_⟩
  rw [hstatus, hupdated, hkey, hsession]

theorem windowMove_of_apply {library : Pydantic} {now : Instant} {rs : LifecycleRecords}
    {cid : String} {target : ContextWindowState} {reason : Option String}
    {current conversation : ConversationRow}
    (hfound : rs.conversations.find cid = some current)
    (hallowed : canTransition contextWindowTransitions current.contextWindowState target)
    (happly : current.apply library [("context_window_state", .contextWindowState target),
      ("updated_at", .datetime now)] = .ok conversation) :
    WindowMove library rs cid target reason current conversation
      { eventType := .contextWindowStateChanged
        timestamp := now
        sessionId := conversation.sessionId
        conversationId := some cid
        payload := stateChangePayload (StrEnum.value current.contextWindowState)
          (StrEnum.value target) reason ++ [("context_bytes", .int conversation.contextBytes)] } := by
  have hstate : conversation.contextWindowState = target :=
    ModelRow.apply_changed (f := ConversationField.contextWindowState) (c := target) happly rfl
  have hupdated : conversation.updatedAt = now :=
    ModelRow.apply_changed (f := ConversationField.updatedAt) (c := now) happly rfl
  have hrewritten : Rewritten library conversationManagedFields
      ["context_window_state", "updated_at"] [] current conversation :=
    .of_apply (fun _ _ => List.not_mem_nil) happly fun k hk => by
      simp only [List.mem_cons, List.not_mem_nil, or_false, not_or] at hk
      rw [Kwargs.lookup_cons_ne hk.1, Kwargs.lookup_cons_ne hk.2]
  have hkey : conversation.conversationId = cid :=
    (hrewritten.kept (f := ConversationField.conversationId) (by decide) (by decide)).trans
      (Table.find_eq_some_iff.1 hfound).2
  have hsession : conversation.sessionId = current.sessionId :=
    hrewritten.kept (f := ConversationField.sessionId) (by decide) (by decide)
  refine ⟨hfound, hkey, hallowed, hstate, hrewritten, ?_⟩
  rw [hstate, hupdated, hsession]

theorem rewritten_of_update {F : Type} [RecordModel F] {library : Pydantic} {updates : Kwargs}
    {managed : List String} {now : Instant} {before after : ModelRow F}
    (hclear : ∀ k ∈ managed, k ∉ updates.map Prod.fst)
    (happly : before.apply library (updates.setItem "updated_at" (.datetime now)) = .ok after) :
    Rewritten library managed ["updated_at"] updates before after :=
  .of_apply hclear happly fun _ hk => Kwargs.lookup_setItem_ne (by simpa using hk)

theorem pointer_of_apply {library : Pydantic} {now : Instant} {cid : String}
    {session updated : SessionRow}
    (happly : session.apply library [("current_conversation_id", .str cid),
      ("updated_at", .datetime now)] = .ok updated) :
    updated.currentConversationId = some cid ∧
      Rewritten library sessionManagedFields ["current_conversation_id", "updated_at"] []
        session updated := by
  refine ⟨ModelRow.apply_changed (f := SessionField.currentConversationId) (c := some cid) happly rfl,
    .of_apply (fun _ _ => List.not_mem_nil) happly fun k hk => ?_⟩
  simp only [List.mem_cons, List.not_mem_nil, or_false, not_or] at hk
  rw [Kwargs.lookup_cons_ne hk.1, Kwargs.lookup_cons_ne hk.2]

/-! ## The operations -/

section Operations

variable {library : Pydantic} {s : ManagerState}

theorem wp_checkAutoClose {current : SessionRow} {target : SessionState} {Q}
    (hfault : ∀ e, Q (.error e) s)
    (h : (current.status = .completed → target = .running → current.autoCloseOnFinalAnswer →
      WaitsForUser s.records current) → Q (.ok ()) s) :
    wp contract (checkAutoClose current target) Q s := by
  unfold checkAutoClose
  rw [wp_ite]
  refine ⟨fun _ => ?_, fun hother => h fun hdone hrun hauto => absurd ⟨hdone, hrun, hauto⟩ hother⟩
  rw [wp_bind]
  unfold conversationWaitsForUser
  cases hcid : current.currentConversationId with
  | none => exact hfault _
  | some cid =>
    dsimp only
    rw [wp_bind]
    refine wp_readRecords hfault ?_
    rw [after_ok]
    cases hfound : s.records.conversations.find cid with
    | none => exact hfault _
    | some conversation =>
      by_cases hwaits : conversation.status = .waitingUser
      · simp only [wp_pure, after_ok, hwaits, decide_true, not_true, ite_false]
        exact h fun _ _ _ => ⟨cid, conversation, hcid, hfound, hwaits⟩
      · simp only [wp_pure, after_ok, hwaits, decide_false]
        exact hfault _

theorem wp_createSession {goal userMessage userId : String} {budget : SessionBudget}
    {autoClose : Bool} {skills : List String} {effort : Option String} :
    wp contract (createSession goal userMessage userId budget autoClose skills effort)
      (LifecycleOp.Outcome library s
        (.createSession goal userMessage userId budget autoClose skills effort)) s := by
  unfold createSession
  rw [wp_bind]
  refine wp_ask fun now => ?_
  rw [after_ok, wp_bind]
  refine wp_ask fun sid => ?_
  rw [after_ok]
  exact wp_commit (fun e => .inr rfl) fun r s' hs hr => .inl ⟨_, _, ⟨rfl, rfl⟩, hs, hr⟩

theorem wp_transitionSession {sid : String} {target : SessionState} {reason : Option String}
    {updates : Kwargs} :
    wp contract (transitionSession library sid target reason updates)
      (LifecycleOp.Outcome library s (.transitionSession sid target reason updates)) s := by
  unfold transitionSession
  rw [wp_bind]
  refine wp_requireSession (fun e => .inr rfl) fun current hfound => ?_
  rw [after_ok, wp_bind]
  refine wp_check (fun e => .inr rfl) fun _ hclear => ?_
  rw [after_ok, wp_bind]
  refine wp_check (fun e => .inr rfl) fun _ hallowed => ?_
  rw [after_ok, wp_bind]
  refine wp_checkAutoClose (fun e => .inr rfl) fun hreopened => ?_
  rw [after_ok, wp_bind]
  refine wp_ask fun now => ?_
  rw [after_ok, wp_bind]
  refine wp_check (fun e => .inr rfl) fun session happly => ?_
  rw [after_ok]
  refine wp_commit (fun e => .inr rfl) fun r s' hs hr => .inl ⟨current, session, _, ?_, hs, hr⟩
  exact sessionMove_of_apply (rejectManagedFields_ok hclear) hfound
    (assertTransition_eq_ok_iff.1 hallowed) hreopened happly

theorem wp_updateSession {sid : String} {updates : Kwargs} :
    wp contract (updateSession library sid updates)
      (LifecycleOp.Outcome library s (.updateSession sid updates)) s := by
  unfold updateSession
  rw [wp_bind]
  refine wp_requireSession (fun e => .inr rfl) fun current hfound => ?_
  rw [after_ok, wp_bind]
  refine wp_check (fun e => .inr rfl) fun _ hclear => ?_
  rw [after_ok, wp_bind]
  refine wp_ask fun now => ?_
  rw [after_ok, wp_bind]
  refine wp_check (fun e => .inr rfl) fun session happly => ?_
  rw [after_ok, wp_bind]
  refine wp_writeRecords (fun e => .inr rfl) ?_
  exact .inl ⟨current, session, hfound,
    rewritten_of_update (rejectManagedFields_ok hclear) happly, rfl, rfl⟩

theorem wp_getSession {sid : String} :
    wp contract (getSession sid) (LifecycleOp.Outcome library s (.getSession sid)) s := by
  unfold getSession
  refine wp_readRecords (fun e => ?_) ?_
  · exact .inr rfl
  · exact .inl ⟨rfl, rfl⟩

theorem wp_createConversation {sid : String} {parentConversationId : Option String}
    {contextWindowState : ContextWindowState} :
    wp contract (createConversation library sid parentConversationId contextWindowState)
      (LifecycleOp.Outcome library s
        (.createConversation sid parentConversationId contextWindowState)) s := by
  unfold createConversation
  rw [wp_bind]
  refine wp_requireSession (fun e => .inr rfl) fun session hfound => ?_
  rw [after_ok, wp_bind]
  have hcommit : (∀ parentId ∈ parentConversationId, ∃ parent,
      s.records.conversations.find parentId = some parent ∧ parent.sessionId = sid) →
      wp contract (do
        let now ← query (L := Manager) .now
        let cid ← query (L := Manager) .newConversationId
        let conversation := newConversation cid session parentConversationId contextWindowState now
        let updatedSession : SessionRow ← ofExcept (L := Manager) (session.apply library
          [("current_conversation_id", .str cid), ("updated_at", .datetime now)])
        writeRecords fun rs => (rs.saveConversation conversation).saveSession updatedSession
        publish
          { eventType := .conversationCreated
            timestamp := now
            sessionId := sid
            conversationId := some cid
            payload := conversationCreatedPayload parentConversationId contextWindowState }
        return conversation)
      (LifecycleOp.Outcome library s
        (.createConversation sid parentConversationId contextWindowState)) s := by
    intro hparent
    rw [wp_bind]
    refine wp_ask fun now => ?_
    rw [after_ok, wp_bind]
    refine wp_ask fun cid => ?_
    rw [after_ok, wp_bind]
    refine wp_check (fun e => .inr rfl) fun updated happly => ?_
    rw [after_ok]
    obtain ⟨hpointer, hrewritten⟩ := pointer_of_apply happly
    exact wp_commit (fun e => .inr rfl) fun r s' hs hr =>
      .inl ⟨session, updated, newConversation cid session parentConversationId contextWindowState now,
        _, ⟨hfound, hparent, rfl, hpointer, hrewritten, rfl⟩, hs, hr⟩
  cases parentConversationId with
  | none => exact hcommit fun _ h => by cases h
  | some parentId =>
    unfold checkParent
    rw [wp_bind]
    refine wp_requireConversation (fun e => .inr rfl) fun parent hparent => ?_
    rw [after_ok, wp_ite]
    refine ⟨fun _ => .inr rfl, fun hsame => hcommit fun _ h => ?_⟩
    obtain rfl := Option.some.inj h
    exact ⟨parent, hparent, not_not.1 hsame⟩

/-- Once a change of status has passed its checks. -/
theorem wp_commitConversationTransition {cid : String} {current : ConversationRow}
    {target : ConversationState} {reason : Option String} {updates : Kwargs}
    {Q : Except Exc ConversationRow → ManagerState → Prop}
    (hclear : ∀ k ∈ conversationManagedFields, k ∉ updates.map Prod.fst)
    (hfound : s.records.conversations.find cid = some current)
    (hallowed : canTransition conversationTransitions current.status target)
    (hfault : ∀ e, Q (.error e) s)
    (h : ∀ after event r s',
      ConversationMove library s.records cid target reason updates current after event →
        Done s (s.records.saveConversation after) event after r s' → Q r s') :
    wp contract (commitConversationTransition library current target reason updates) Q s := by
  unfold commitConversationTransition
  rw [wp_bind]
  refine wp_ask fun now => ?_
  rw [after_ok, wp_bind]
  refine wp_check hfault fun conversation happly => ?_
  rw [after_ok]
  exact wp_commit hfault fun r s' hs hr =>
    h conversation _ r s' (conversationMove_of_apply hclear hfound hallowed happly) ⟨hs, hr⟩

theorem wp_transitionConversation {cid : String} {target : ConversationState}
    {reason : Option String} {updates : Kwargs} :
    wp contract (transitionConversation library cid target reason updates)
      (LifecycleOp.Outcome library s (.transitionConversation cid target reason updates)) s := by
  unfold transitionConversation
  rw [wp_bind]
  refine wp_requireConversation (fun e => .inr rfl) fun current hfound => ?_
  rw [after_ok, wp_bind]
  refine wp_check (fun e => .inr rfl) fun _ hclear => ?_
  rw [after_ok, wp_bind]
  refine wp_check (fun e => .inr rfl) fun _ hallowed => ?_
  rw [after_ok]
  exact wp_commitConversationTransition (rejectManagedFields_ok hclear) hfound
    (assertTransition_eq_ok_iff.1 hallowed) (fun e => .inr rfl)
    fun after event r s' hmove hdone => .inl ⟨current, after, event, hmove, hdone⟩

theorem wp_updateConversation {cid : String} {updates : Kwargs} :
    wp contract (updateConversation library cid updates)
      (LifecycleOp.Outcome library s (.updateConversation cid updates)) s := by
  unfold updateConversation
  rw [wp_bind]
  refine wp_requireConversation (fun e => .inr rfl) fun current hfound => ?_
  rw [after_ok, wp_bind]
  refine wp_check (fun e => .inr rfl) fun _ hclear => ?_
  rw [after_ok, wp_bind]
  refine wp_ask fun now => ?_
  rw [after_ok, wp_bind]
  refine wp_check (fun e => .inr rfl) fun conversation happly => ?_
  rw [after_ok, wp_bind]
  refine wp_writeRecords (fun e => .inr rfl) ?_
  exact .inl ⟨current, conversation, hfound,
    rewritten_of_update (rejectManagedFields_ok hclear) happly, rfl, rfl⟩

theorem wp_interruptConversation {cid reason : String} :
    wp contract (interruptConversation library cid reason)
      (LifecycleOp.Outcome library s (.interruptConversation cid reason)) s := by
  unfold interruptConversation
  rw [wp_bind]
  refine wp_requireConversation (fun e => .inr rfl) fun current hfound => ?_
  rw [after_ok]
  dsimp only
  rw [wp_ite]
  refine ⟨fun _ => .inr rfl, fun hactive => ?_⟩
  rw [wp_bind]
  refine wp_check (fun e => .inr rfl) fun _ hallowed => ?_
  rw [after_ok]
  exact wp_commitConversationTransition (fun _ _ => List.not_mem_nil) hfound
    (assertTransition_eq_ok_iff.1 hallowed) (fun e => .inr rfl)
    fun after event r s' hmove hdone => .inl ⟨current, after, event, not_not.1 hactive, hmove, hdone⟩

theorem wp_transitionContextWindow {cid : String} {target : ContextWindowState}
    {reason : Option String} :
    wp contract (transitionContextWindow library cid target reason)
      (LifecycleOp.Outcome library s (.transitionContextWindow cid target reason)) s := by
  unfold transitionContextWindow
  rw [wp_bind]
  refine wp_requireConversation (fun e => .inr rfl) fun current hfound => ?_
  rw [after_ok, wp_bind]
  refine wp_check (fun e => .inr rfl) fun _ hallowed => ?_
  rw [after_ok, wp_bind]
  refine wp_ask fun now => ?_
  rw [after_ok, wp_bind]
  refine wp_check (fun e => .inr rfl) fun conversation happly => ?_
  rw [after_ok]
  exact wp_commit (fun e => .inr rfl) fun r s' hs hr => .inl ⟨current, conversation, _,
    windowMove_of_apply hfound (assertTransition_eq_ok_iff.1 hallowed) happly, hs, hr⟩

theorem wp_getConversation {cid : String} :
    wp contract (getConversation cid) (LifecycleOp.Outcome library s (.getConversation cid)) s := by
  unfold getConversation
  refine wp_readRecords (fun e => ?_) ?_
  · exact .inr rfl
  · exact .inl ⟨rfl, rfl⟩

/-- Every operation keeps the contract: it comes back, with one of its outcomes. -/
theorem wp_run (op : LifecycleOp) :
    wp contract (op.run library) (op.Outcome library s) s := by
  cases op with
  | createSession => exact wp_createSession
  | transitionSession => exact wp_transitionSession
  | updateSession => exact wp_updateSession
  | getSession => exact wp_getSession
  | createConversation => exact wp_createConversation
  | transitionConversation => exact wp_transitionConversation
  | updateConversation => exact wp_updateConversation
  | interruptConversation => exact wp_interruptConversation
  | transitionContextWindow => exact wp_transitionContextWindow
  | getConversation => exact wp_getConversation

end Operations

/-- Every question has an answer. -/
theorem answered (op : ManagerOp) (s : ManagerState) :
    ∃ a s', anyAnswer op s a s' := by
  cases op with
  | storeRead | storeWrite | handle => exact ⟨none, s, rfl⟩
  | now => exact ⟨(0 : Int), s, rfl⟩
  | newSessionId | newConversationId => exact ⟨"", s, rfl⟩

/-- Every operation comes to an end, and every end of every run of it is one of its outcomes: a
transition stored one allowed change and published the one event of it, a creation stored its
records and published theirs, an update published nothing and kept the managed fields but the time
of the update; or it raised and changed nothing. -/
theorem run_outcome (library : Pydantic) (op : LifecycleOp) (s : ManagerState) :
    (∃ r s', Reaches anyAnswer (op.run library, s) (.ret r, s')) ∧
      ∀ r s', Reaches anyAnswer (op.run library, s) (.ret r, s') → op.Outcome library s r s' := by
  refine ⟨?_, fun r s' h => ?_⟩
  · obtain ⟨r, s', h, -⟩ := exists_end (C := contract) (fun op s _ => answered op s) (fun _ h => h)
      (show wp contract (op.run library) (op.Outcome library s) s from wp_run op)
    exact ⟨r, s', h⟩
  · exact wp_reaches (C := contract) (Q := op.Outcome library s) (wp_run op) h

/-- Surroundings in which nothing fails, at time 5. -/
def calm : Script Manager := fun _ op s =>
  (match op with
    | .storeRead => none
    | .storeWrite => none
    | .now => (5 : Int)
    | .newSessionId => "session"
    | .newConversationId => "conversation"
    | .handle _ _ => none, s)

theorem reaches_calm {α : Type} (p : Prog Manager α) (s : ManagerState) (fuel : Nat) :
    Reaches anyAnswer (p, s) (drive calm fuel 0 (p, s)) :=
  drive_reaches (fun _ _ _ => rfl) fuel 0 (p, s)

def sampleSession (updatedAt : Instant) : SessionRow :=
  newSession "session" "goal" "message" "user" .sample false updatedAt

/-- A manager with one session, stored at time 0. -/
def sampleState : ManagerState where
  records := { sessions := .ofRows [sampleSession 0] }

/-- The state that an operation leaves in calm surroundings. -/
def afterCalm (op : LifecycleOp) (s : ManagerState) : ManagerState :=
  (drive calm 20 0 (op.run .strict, s)).2

/-- A session starts. -/
theorem run_outcome_sample :
    ∃ r, LifecycleOp.Outcome .strict sampleState (.transitionSession "session" .running none []) r
      (afterCalm (.transitionSession "session" .running none []) sampleState) :=
  ⟨_, (run_outcome .strict (.transitionSession "session" .running none []) sampleState).2 _ _
    (reaches_calm _ sampleState 20)⟩

/-! ## What creations and updates do not do -/

/-- One stored change that a table allows, `payload` naming the statuses before and after it. -/
inductive AllowedChange (rs : LifecycleRecords) : LifecycleRecords → List (String × Json) → Prop
  | session {before after : SessionRow} {reason : Option String}
    (found : rs.sessions.find after.sessionId = some before)
    (allowed : canTransition sessionTransitions before.status after.status) :
    AllowedChange rs (rs.saveSession after)
      (stateChangePayload (StrEnum.value before.status) (StrEnum.value after.status) reason)
  | conversation {before after : ConversationRow} {reason : Option String}
    (found : rs.conversations.find after.conversationId = some before)
    (allowed : canTransition conversationTransitions before.status after.status) :
    AllowedChange rs (rs.saveConversation after)
      (stateChangePayload (StrEnum.value before.status) (StrEnum.value after.status) reason)
  | window {before after : ConversationRow} {reason : Option String} {rest : List (String × Json)}
    (found : rs.conversations.find after.conversationId = some before)
    (allowed : canTransition contextWindowTransitions before.contextWindowState
      after.contextWindowState) :
    AllowedChange rs (rs.saveConversation after)
      (stateChangePayload (StrEnum.value before.contextWindowState)
        (StrEnum.value after.contextWindowState) reason ++ rest)

/-- The managed fields of every stored record are as they were. -/
structure ManagedKept (rs rs' : LifecycleRecords) : Prop where
  sessions : ∀ sid before, rs.sessions.find sid = some before →
    ∃ after, rs'.sessions.find sid = some after ∧
      ∀ f, RecordModel.name f ∈ sessionManagedFields → after.value f = before.value f
  conversations : ∀ cid before, rs.conversations.find cid = some before →
    ∃ after, rs'.conversations.find cid = some after ∧
      ∀ f, RecordModel.name f ∈ conversationManagedFields → after.value f = before.value f

/-- Every change is a transition, and every update keeps every managed field. -/
def LifecycleOp.Transitional (s : ManagerState) :
    (op : LifecycleOp) → Except Exc op.Result → ManagerState → Prop
  | .updateSession _ _, _, s' | .updateConversation _ _, _, s' =>
    s'.published = s.published ∧ ManagedKept s.records s'.records
  | .getSession _, _, _ | .getConversation _, _, _ => True
  | _, r, s' =>
    (∃ event, AllowedChange s.records s'.records event.payload ∧
      s'.published = s.published ++ [event]) ∨
    (∃ e, r = .error e) ∧ s'.records = s.records ∧ s'.published = s.published

/-- An update of nothing changes the time of the update, and the event of a new session names no
statuses. -/
theorem run_not_transitional :
    (∃ r, Reaches anyAnswer ((LifecycleOp.updateSession "session" []).run .strict, sampleState)
        (.ret r, afterCalm (.updateSession "session" []) sampleState) ∧
      ¬ (LifecycleOp.updateSession "session" []).Transitional sampleState r
        (afterCalm (.updateSession "session" []) sampleState)) ∧
    ∃ r, Reaches anyAnswer
        ((LifecycleOp.createSession "goal" "message" "user" .sample false [] none).run .strict, {})
        (.ret r, afterCalm (.createSession "goal" "message" "user" .sample false [] none) {}) ∧
      ¬ (LifecycleOp.createSession "goal" "message" "user" .sample false [] none).Transitional {} r
        (afterCalm (.createSession "goal" "message" "user" .sample false [] none) {}) := by
  refine ⟨⟨_, reaches_calm _ sampleState 20, ?_⟩, _, reaches_calm _ {} 20, ?_⟩
  · rintro ⟨-, hkept⟩
    obtain ⟨after, hfound, hsame⟩ := hkept.sessions "session" (sampleSession 0) rfl
    have hstamped : some (5 : Int) = some after.updatedAt :=
      congrArg (Option.map SessionRow.updatedAt) hfound
    have hold : after.updatedAt = (0 : Int) := hsame SessionField.updatedAt (by decide)
    rw [hold] at hstamped
    exact absurd (Option.some.inj hstamped) (by decide)
  · rintro (⟨event, hchange, -⟩ | ⟨⟨e, he⟩, -⟩)
    · generalize (afterCalm (.createSession "goal" "message" "user" .sample false [] none)
        {}).records = rs at hchange
      generalize event.payload = payload at hchange
      cases hchange with
      | session hfound | conversation hfound | window hfound => cases hfound
    · cases he

end LifecycleManager

end AgenticLocalApp
