import AgenticLocalApp.Lifecycle.ConversationLifecycle
import AgenticLocalApp.Lifecycle.LifecycleManager

/-!
# Records and rows

The records that the orchestration works on, as rows: a transition without updates writes the same
record in both.
-/

namespace AgenticLocalApp

/-- The members of a dictionary. -/
def Json.members : Json → List (String × Json)
  | .obj fields => fields
  | _ => []

/-- The fields of a session record. -/
def SessionRecord.row (s : SessionRecord) : SessionRow where
  value
    | .sessionId => s.sessionId
    | .status => s.status
    | .goal => s.goal
    | .userMessage => s.userMessage
    | .userId => s.userId
    | .autoCloseOnFinalAnswer => s.autoCloseOnFinalAnswer
    | .budget => s.budget
    | .consumedCycles => (s.consumedCycles : Int)
    | .consumedPlans => (s.consumedPlans : Int)
    | .rotationsCount => (s.rotationsCount : Int)
    | .currentConversationId => s.currentConversationId
    | .finalAnswer => s.finalAnswer.map Json.members
    | .lastFailureId => s.lastFailureId
    | .startedAt => s.startedAt
    | .endedAt => s.endedAt
    | .interruptedAt => s.interruptedAt
    | .createdAt => s.createdAt
    | .updatedAt => s.updatedAt

/-- The fields of a conversation record. -/
def ConversationRecord.row (c : ConversationRecord) : ConversationRow where
  value
    | .conversationId => c.conversationId
    | .sessionId => c.sessionId
    | .parentConversationId => c.parentConversationId
    | .remoteConversationId => c.remoteConversationId
    | .status => c.status
    | .autoCloseOnFinalAnswer => c.autoCloseOnFinalAnswer
    | .contextWindowState => c.contextWindowState
    | .contextBytes => (c.contextBytes : Int)
    | .protocolErrorCount => (c.protocolErrorCount : Int)
    | .lastModelResponseState => c.lastModelResponseState
    | .currentCycleId => c.currentCycleId
    | .currentPlanId => c.currentPlanId
    | .lastCompletedPlanId => c.lastCompletedPlanId
    | .finalAnswerReceived => c.finalAnswerReceived
    | .lastOutboundMessageId => c.lastOutboundMessageId
    | .lastInboundMessageId => c.lastInboundMessageId
    | .getCursor => c.getCursor
    | .sessionBudgetJson => c.sessionBudget.modelDump
    | .closureReason => c.closureReason
    | .interruptedAt => c.interruptedAt
    | .createdAt => c.createdAt
    | .updatedAt => c.updatedAt

open LifecycleManager

/-- What a transition without updates writes is the record that has moved. -/
theorem apply_sessionChanges (library : Pydantic) (session : SessionRecord)
    (target : SessionState) (now : Instant) :
    session.row.apply library (sessionChanges session.row target now []) =
      .ok (session.moveTo target now).row := by
  have hstamped := library.validate_value .optionalDatetime (some now)
  cases target with
  | running =>
    have hcleared := library.validate_value .optionalDatetime none
    cases hstarted : session.startedAt with
    | none =>
      have hchanges : sessionChanges session.row .running now [] =
          [("ended_at", .none), ("started_at", .datetime now), ("updated_at", .datetime now),
            ("status", .sessionState .running)] := by
        simp only [sessionChanges]
        rw [if_pos (show session.row.startedAt = none from hstarted)]
        rfl
      have hmoved : (session.moveTo .running now).startedAt = some now := by
        simp [SessionRecord.moveTo, hstarted]
      rw [hchanges]
      refine ModelRow.apply_eq_ok (show ∀ k ∈ ["ended_at", "started_at", "updated_at", "status"], k ∈
        RecordModel.fields.map (RecordModel.name (F := SessionField)) by decide) fun f => ?_
      cases f with
      | startedAt => exact hstamped.trans (congrArg some hmoved.symm)
      | endedAt => exact hcleared
      | status | updatedAt => exact library.validate_value _ _
      | _ => rfl
    | some t =>
      have hchanges : sessionChanges session.row .running now [] =
          [("ended_at", .none), ("updated_at", .datetime now),
            ("status", .sessionState .running)] := by
        simp only [sessionChanges]
        rw [if_neg (show ¬ session.row.startedAt = none by
          rw [show session.row.startedAt = some t from hstarted]; exact Option.some_ne_none t)]
        rfl
      have hmoved : (session.moveTo .running now).startedAt = session.startedAt := by
        simp [SessionRecord.moveTo, hstarted]
      rw [hchanges]
      refine ModelRow.apply_eq_ok (show ∀ k ∈ ["ended_at", "updated_at", "status"], k ∈
        RecordModel.fields.map (RecordModel.name (F := SessionField)) by decide) fun f => ?_
      cases f with
      | startedAt => exact congrArg some hmoved.symm
      | endedAt => exact hcleared
      | status | updatedAt => exact library.validate_value _ _
      | _ => rfl
  | completed | failed =>
    refine ModelRow.apply_eq_ok (show ∀ k ∈ ["ended_at", "updated_at", "status"], k ∈
      RecordModel.fields.map (RecordModel.name (F := SessionField)) by decide) fun f => ?_
    cases f with
    | endedAt => exact hstamped
    | status | updatedAt => exact library.validate_value _ _
    | _ => rfl
  | interrupting =>
    refine ModelRow.apply_eq_ok (show ∀ k ∈ ["interrupted_at", "updated_at", "status"], k ∈
      RecordModel.fields.map (RecordModel.name (F := SessionField)) by decide) fun f => ?_
    cases f with
    | interruptedAt => exact hstamped
    | status | updatedAt => exact library.validate_value _ _
    | _ => rfl
  | ready | paused =>
    refine ModelRow.apply_eq_ok (show ∀ k ∈ ["updated_at", "status"], k ∈
      RecordModel.fields.map (RecordModel.name (F := SessionField)) by decide) fun f => ?_
    cases f with
    | status | updatedAt => exact library.validate_value _ _
    | _ => rfl

theorem apply_conversationChanges (library : Pydantic) (conversation : ConversationRecord)
    (target : ConversationState) (now : Instant) :
    conversation.row.apply library (conversationChanges target now []) =
      .ok (conversation.moveTo target now).row := by
  by_cases hinterrupted : target = .interrupted
  · subst hinterrupted
    refine ModelRow.apply_eq_ok (show ∀ k ∈ ["interrupted_at", "updated_at", "status"], k ∈
      RecordModel.fields.map (RecordModel.name (F := ConversationField)) by decide) fun f => ?_
    cases f with
    | interruptedAt => exact library.validate_value .optionalDatetime (some now)
    | status | updatedAt => exact library.validate_value _ _
    | _ => rfl
  · have hchanges : conversationChanges target now [] =
        [("updated_at", .datetime now), ("status", .conversationState target)] := by
      simp only [conversationChanges]
      rw [if_neg hinterrupted]
      rfl
    have hmoved : conversation.moveTo target now =
        { conversation with status := target, updatedAt := now } := by
      simp only [ConversationRecord.moveTo]
      rw [if_neg hinterrupted]
    rw [hchanges, hmoved]
    refine ModelRow.apply_eq_ok (show ∀ k ∈ ["updated_at", "status"], k ∈
      RecordModel.fields.map (RecordModel.name (F := ConversationField)) by decide) fun f => ?_
    cases f with
    | status | updatedAt => exact library.validate_value _ _
    | _ => rfl

end AgenticLocalApp
