import AgenticLocalApp.Domain.JsonSize
import AgenticLocalApp.Execution.FitMessage
import AgenticLocalApp.Orchestration.ProtocolLoop
import AgenticLocalApp.Protocol.CorrectionRequest

/-!
# The cap on a posted `execution_result`

The content is fitted once, for the envelope of the conversation it is first sent in.  The envelope
and the content add up to the message, so that it fits there; whether it still fits in the child of
a rotation depends on the envelope of the child.
-/

namespace AgenticLocalApp

/-! ## An envelope and its content -/

theorem SessionRun.envelopeOverhead_eq (messageType : MessageType) (conv : ConversationRecord)
    (messageId : String) :
    SessionRun.envelopeOverhead conv messageId messageType =
      envelopeBytes messageType conv messageId := by
  have hempty : Json.sizeBytes (.obj []) = 2 := by decide +kernel
  unfold SessionRun.envelopeOverhead
  rw [ProtocolAdapter.outbound_sizeBytes, hempty]
  omega

/-! ## A longer text -/

/-- The result whose standard output is so many letters, and whose standard error is empty. -/
def TaskResult.padded (n : Nat) (r : TaskResult) : TaskResult :=
  { r.emptied with stdout := .ofList (List.replicate n 'a') }

/-- Of the fields of a result, two are its texts. -/
theorem TaskResult.toJson_texts (r : TaskResult) :
    ∃ before after, ∀ stdout stderr : String,
      ({ r with stdout := stdout, stderr := stderr } : TaskResult).toJson =
        Json.record (("task_id", some (.str r.taskId)) :: (before ++
          ("stdout", some (.str stdout)) :: ("stderr", some (.str stderr)) :: after)) := by
  refine ⟨[("status", some (.str r.status)), ("execution", some (.str (StrEnum.value r.execution))),
    ("exit_code", r.exitCode.map Json.int),
    ("failure_is_verdict", r.failureIsVerdict.map Json.bool),
    ("translation", r.translation.map TaskTranslation.toJson)], ?after, ?texts⟩
  case texts =>
    intro stdout stderr
    unfold TaskResult.toJson
    simp only [List.cons_append, List.nil_append]
    exact rfl

theorem TaskResult.sizeBytes_padded (n : Nat) (r : TaskResult) :
    (r.padded n).toJson.sizeBytes = r.emptied.toJson.sizeBytes + n := by
  have hempty : Json.sizeBytes (.str "") = 2 := by decide +kernel
  obtain ⟨before, after, htexts⟩ := r.toJson_texts
  unfold TaskResult.padded TaskResult.emptied
  rw [htexts, htexts, Json.sizeBytes_record_cons, Json.sizeBytes_record_cons]
  simp only [List.map_append, List.map_cons, List.sum_append, List.sum_cons, Json.recordFieldSize,
    Option.elim_some, Json.fieldSize, Json.sizeBytes_replicate, hempty]
  omega

/-- The content whose first result has a standard output of so many letters, and which has no other
text. -/
def ExecutionResultContent.padded (n : Nat) (c : ExecutionResultContent) : ExecutionResultContent :=
  match c.results with
  | [] => c
  | r :: rest => { c with results := r.padded n :: rest.map TaskResult.emptied }

theorem ExecutionResultContent.emptied_padded (n : Nat) (c : ExecutionResultContent) :
    (c.padded n).emptied = c.emptied := by
  unfold ExecutionResultContent.padded ExecutionResultContent.emptied
  cases hresults : c.results with
  | nil =>
    dsimp only
    rw [hresults]
  | cons r rest =>
    dsimp only
    rw [List.map_cons, List.map_cons, List.map_map]
    rfl

theorem ExecutionResultContent.messageSize_padded {c : ExecutionResultContent}
    (h : c.results ≠ []) (n : Nat) :
    PayloadGuard.messageSize (c.padded n) = PayloadGuard.messageSize c.emptied + n := by
  unfold PayloadGuard.messageSize ExecutionResultContent.padded
  cases hresults : c.results with
  | nil => exact absurd hresults h
  | cons r rest =>
    unfold ExecutionResultContent.toJson
    rw [Json.sizeBytes_record_cons, Json.sizeBytes_record_cons]
    simp only [List.map_cons, List.sum_cons, Json.recordFieldSize, Option.elim_some,
      Json.fieldSize, ExecutionResultContent.emptied, hresults]
    have hpadded := Json.sizeBytes_arr (List.cons_ne_nil (r.padded n).toJson
      ((rest.map TaskResult.emptied).map TaskResult.toJson))
    have hemptied := Json.sizeBytes_arr (List.cons_ne_nil r.emptied.toJson
      ((rest.map TaskResult.emptied).map TaskResult.toJson))
    rw [List.map_cons, List.sum_cons] at hpadded hemptied
    rw [hpadded, hemptied, TaskResult.sizeBytes_padded]
    omega

/-! ## What is posted -/

/-- What becomes of the content of a plan before it is first sent in `conv`: the runner fits it on
its own, and the loop fits it for its envelope. -/
def FittedFor (maxBytes : Nat) (conv : ConversationRecord) (messageId : String)
    (content fitted : ExecutionResultContent) : Prop :=
  ∃ rounds rounds' once, PayloadGuard.fitMessage maxBytes rounds content = some once ∧
    PayloadGuard.fitMessage
      (maxBytes - SessionRun.envelopeOverhead conv messageId .executionResult) rounds' once =
        some fitted

/-- The message in `conv` is within the cap if it is with every text emptied. -/
def WithinCap (maxBytes : Nat) (conv : ConversationRecord) (messageId : String)
    (content : ExecutionResultContent) : Prop :=
  (ProtocolAdapter.buildExecutionResult conv messageId content.emptied).sizeBytes ≤ maxBytes →
    (ProtocolAdapter.buildExecutionResult conv messageId content).sizeBytes ≤ maxBytes

/-! ### In the loop -/

namespace SessionRun

variable {o : ProtocolOrchestrator} {pending : PendingMessage} {conv : ConversationRecord}
  {messageId : String} {content : ExecutionResultContent}

/-- A result is fitted before it is first sent, and remembered so. -/
theorem fitPending_eq (hcontent : pending.content = some content)
    (htype : pending.messageType = .executionResult) (hfitted : pending.fitted = false)
    {fitted : ExecutionResultContent}
    (hfit : PayloadGuard.fitMessage (o.planRunner.payload.maxMessageBytes -
      envelopeOverhead conv messageId .executionResult) o.planRunner.fitRounds content =
        some fitted) :
    fitPending o pending conv messageId = (do
      modify fun run =>
        { run with pending := some { pending with content := some fitted, fitted := true } }
      return { pending with content := some fitted, fitted := true }) := by
  unfold fitPending
  rw [if_pos ⟨htype, by simp [hfitted]⟩, hcontent]
  dsimp only
  rw [htype, hfit]

/-- It is not fitted again, whatever the conversation. -/
theorem fitPending_of_fitted (h : pending.fitted = true) :
    fitPending o pending conv messageId = pure pending := by
  unfold fitPending
  rw [if_neg fun hnot => hnot.2 h]

/-- The first message, and the message of a rotation to the child, are built from the same content. -/
theorem build_executionResult (hcontent : pending.content = some content)
    (htype : pending.messageType = .executionResult) (sid : String) :
    build sid pending conv messageId =
      pure (ProtocolAdapter.buildExecutionResult conv messageId content) := by
  unfold build
  rw [htype, if_neg (by decide), hcontent]

end SessionRun

section Cap

variable {maxBytes : Nat} {conv child : ConversationRecord} {messageId messageId' : String}
  {content fitted : ExecutionResultContent}

theorem buildExecutionResult_sizeBytes (conv : ConversationRecord) (messageId : String)
    (content : ExecutionResultContent) :
    (ProtocolAdapter.buildExecutionResult conv messageId content).sizeBytes =
      SessionRun.envelopeOverhead conv messageId .executionResult +
        PayloadGuard.messageSize content := by
  rw [SessionRun.envelopeOverhead_eq]
  exact ProtocolAdapter.outbound_sizeBytes _ _ _ _

/-- What was fitted for an envelope is within the cap in every envelope that is no bigger. -/
theorem FittedFor.withinCap (h : FittedFor maxBytes conv messageId content fitted)
    (henvelope : SessionRun.envelopeOverhead child messageId' .executionResult ≤
      SessionRun.envelopeOverhead conv messageId .executionResult) :
    WithinCap maxBytes child messageId' fitted := by
  obtain ⟨_, _, once, -, hfit⟩ := h
  intro hemptied
  rcases PayloadGuard.fitMessage_spec hfit with hsize | hfixed
  · rw [buildExecutionResult_sizeBytes] at hemptied ⊢
    omega
  · rwa [hfixed] at hemptied

/-- Where the envelope of the child is bigger and leaves room for a result, a content that just fits
its first envelope is over the cap in the child. -/
theorem not_withinCap_padded (hresults : content.results ≠ [])
    (henvelope : SessionRun.envelopeOverhead conv messageId .executionResult <
      SessionRun.envelopeOverhead child messageId' .executionResult)
    (hroom : (ProtocolAdapter.buildExecutionResult child messageId' content.emptied).sizeBytes ≤
      maxBytes) :
    ∃ content fitted, FittedFor maxBytes conv messageId content fitted ∧
      ¬ WithinCap maxBytes child messageId' fitted := by
  have hchild := buildExecutionResult_sizeBytes child messageId' content.emptied
  let n := maxBytes - SessionRun.envelopeOverhead conv messageId .executionResult -
    PayloadGuard.messageSize content.emptied
  have hsize := ExecutionResultContent.messageSize_padded hresults n
  refine ⟨content.padded n, content.padded n, ⟨1, 1, content.padded n,
    PayloadGuard.fitMessage_of_le (by omega), PayloadGuard.fitMessage_of_le (by omega)⟩,
    fun hcap => ?_⟩
  unfold WithinCap at hcap
  rw [ExecutionResultContent.emptied_padded] at hcap
  have hbig := hcap hroom
  rw [buildExecutionResult_sizeBytes, hsize] at hbig
  omega

/-- Every result of a plan is within the cap when it is first sent in `conv` and when it is sent
again in `child`, just when the envelope of the child is no bigger than the first one, or when the
cap leaves no room for any result there. -/
theorem every_result_within_cap_iff (maxBytes : Nat) (conv child : ConversationRecord)
    (messageId messageId' : String) :
    (∀ content fitted, FittedFor maxBytes conv messageId content fitted →
      WithinCap maxBytes conv messageId fitted ∧ WithinCap maxBytes child messageId' fitted) ↔
    SessionRun.envelopeOverhead child messageId' .executionResult ≤
        SessionRun.envelopeOverhead conv messageId .executionResult ∨
      ∀ content : ExecutionResultContent, content.results ≠ [] →
        maxBytes < (ProtocolAdapter.buildExecutionResult child messageId' content.emptied).sizeBytes
      := by
  constructor
  · intro h
    by_contra hnot
    simp only [not_or, not_le, not_forall, not_lt] at hnot
    obtain ⟨henvelope, content, hresults, hroom⟩ := hnot
    obtain ⟨content, fitted, hfitted, hcap⟩ := not_withinCap_padded hresults henvelope hroom
    exact hcap (h content fitted hfitted).2
  · rintro h content fitted hfitted
    refine ⟨hfitted.withinCap le_rfl, ?_⟩
    rcases h with henvelope | hnoRoom
    · exact hfitted.withinCap henvelope
    · intro hemptied
      by_cases hresults : fitted.results = []
      · -- without results there is no text to empty
        have hfixed : fitted.emptied = fitted := by
          unfold ExecutionResultContent.emptied
          rw [hresults]
          exact congrArg (fun results => { fitted with results := results }) hresults.symm
        rwa [hfixed] at hemptied
      · exact absurd hemptied (not_le.2 (hnoRoom fitted hresults))

end Cap

/-! ### A child with a longer identifier -/

/-- A result that fits its first conversation to the byte is eight bytes over the cap in the child,
where it would fit with its text emptied. -/
theorem longer_remote_over_cap :
    let conv := { ConversationRecord.sample "c" "s" .active with remoteConversationId := some "r" }
    let child :=
      { ConversationRecord.sample "d" "s" .active with remoteConversationId := some "r/rotated" }
    ∃ content fitted, FittedFor 343 conv "m" content fitted ∧
      (ProtocolAdapter.buildExecutionResult conv "m" fitted).sizeBytes = 343 ∧
      (ProtocolAdapter.buildExecutionResult child "m" fitted).sizeBytes = 351 ∧
      (ProtocolAdapter.buildExecutionResult child "m" fitted.emptied).sizeBytes = 325 := by
  intro conv child
  let content : ExecutionResultContent :=
    { planId := "p"
      status := "completed"
      results := [{ taskId := "t", status := "completed", exitCode := some 0,
                    stdout := "the whole output of a task" }] }
  have hsize : PayloadGuard.messageSize content ≤
      343 - SessionRun.envelopeOverhead conv "m" .executionResult := by decide +kernel
  refine ⟨content, content, ⟨1, 1, content, PayloadGuard.fitMessage_of_le (by omega),
    PayloadGuard.fitMessage_of_le hsize⟩, ?_⟩
  decide +kernel

end AgenticLocalApp
