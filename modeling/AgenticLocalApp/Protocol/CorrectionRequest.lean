import AgenticLocalApp.Domain.JsonSize
import AgenticLocalApp.Protocol.Adapter

/-!
# The correction request

What the application sends back for a reply it cannot use, cut down field by field until the message
is within its bound.  The steps empty five fields; the identifier of the refused message, which the
model chose, is not one of them.
-/

namespace AgenticLocalApp

/-! ## An envelope and its content -/

/-- Bytes around the content of an outbound message. -/
def envelopeBytes (messageType : MessageType) (conv : ConversationRecord) (messageId : String) :
    Nat :=
  1 + (Json.fieldSize "type" (.str (StrEnum.value messageType)) +
    Json.fieldSize "conversation_id" (.str conv.remoteId) +
    Json.fieldSize "message_id" (.str messageId) + (Json.textSize (Json.quote "content") + 2))

theorem ProtocolAdapter.outbound_sizeBytes (messageType : MessageType) (conv : ConversationRecord)
    (messageId : String) (content : Json) :
    (ProtocolAdapter.outbound messageType conv messageId content).sizeBytes =
      envelopeBytes messageType conv messageId + content.sizeBytes := by
  have hsize : (ProtocolAdapter.outbound messageType conv messageId content).sizeBytes =
      Json.sizeBytes (.obj [("type", .str (StrEnum.value messageType)),
        ("conversation_id", .str conv.remoteId), ("message_id", .str messageId),
        ("content", content)]) := rfl
  rw [hsize, Json.sizeBytes_obj (by simp)]
  simp only [List.map_cons, List.map_nil, List.sum_cons, List.sum_nil, envelopeBytes,
    Json.fieldSize]
  omega

/-! ## Texts -/

/-- What the schema library makes of the content models: a digest of their fields, and a minimal
valid content for the types that have one. -/
structure CorrectionTexts where
  contentDigest : MessageType → String
  exampleContent : MessageType → Option Json

/-- `_CORRECTION_HINTS`. -/
def correctionHints : List (String × String) := [
  ("SCHEMA_INVALID", "the message does not match the schema of its type"),
  ("UNEXPECTED_MESSAGE_TYPE", "that type is not one of the types expected at this point"),
  ("SYSTEM_ERROR_NOT_ALLOWED_INBOUND",
    "system_error is internal to the application and is never sent by you"),
  ("UNEXPECTED_EXTRA_MESSAGE", "one turn carries exactly one message, never two"),
  ("EMPTY_REPLY", "the reply carried no message at all"),
  ("CONVERSATION_MISMATCH", "conversation_id must repeat the id of the conversation you are in"),
  ("DUPLICATE_MESSAGE_ID", "message_id must be new: it is already taken in this session"),
  ("DUPLICATE_PLAN_ID", "plan_id must be new: it is already taken in this session"),
  ("DUPLICATE_TASK_ID", "task_id must be new: it is already taken in this session"),
  ("SELF_DEPENDENCY", "a task cannot depend on itself"),
  ("UNKNOWN_DEPENDENCY", "depends_on may only name tasks declared in the same plan"),
  ("DEPENDENCY_CYCLE", "the dependencies of the plan form a cycle"),
  ("FORWARD_DEPENDENCY_IN_SEQUENTIAL",
    "in sequential mode a task may only depend on tasks declared before it"),
  ("CHUNK_REF_UNKNOWN", "a chunk_request must name a task of this session whose output is stored"),
  ("STATE_SUMMARY_TOO_LARGE", "the state_summary is over its byte budget: make it denser"),
  ("USER_RESPONSE_TOO_LARGE", "the body is over its byte budget: make it shorter"),
  ("ACK_WRONG_ORIGINAL", "original_conversation_id must repeat the value of the resume request"),
  ("ACK_NOT_ACKNOWLEDGED", "the resume request must be acknowledged with acknowledged = true"),
  ("UNPARSEABLE_REPLY",
    "no JSON message envelope could be read in the reply: answer with the envelope alone")]

def defaultHint : String := "the reply could not be used as a protocol message"

/-- `_EXAMPLE_PREFERENCE`. -/
def examplePreference : List MessageType :=
  [.contextResumeAck, .discoveryPlan, .executionPlan, .priorityClarification, .finalAnswer,
    .userResponse]

/-- `_ordered`: by preference, then by value. -/
def orderedTypes (expected : List MessageType) : List MessageType :=
  expected.insertionSort fun a b =>
    examplePreference.idxOf a < examplePreference.idxOf b ∨
      examplePreference.idxOf a = examplePreference.idxOf b ∧ StrEnum.value a ≤ StrEnum.value b

namespace CorrectionTexts

variable (texts : CorrectionTexts)

def correctionReminder (errorCode : String) (expected : List MessageType)
    (conversationId : String) : String :=
  let hint := (correctionHints.lookup errorCode).getD defaultHint
  let first := s!"Your last reply was refused ({errorCode}): {hint}."
  if expected = [] then
    "\n".intercalate [first, "Nothing is expected from you in this conversation."]
  else
    let names := (orderedTypes expected).map fun t => s!"`{(StrEnum.value t : String)}`"
    "\n".intercalate ([first,
        "Send exactly one message, of one of these types: " ++ ", ".intercalate names ++ "."] ++
      (orderedTypes expected).map (fun t =>
        s!"- {(StrEnum.value t : String)}.content — {texts.contentDigest t}") ++
      ["The envelope is type, conversation_id, message_id, content. Use conversation_id " ++
        s!"\"{conversationId}\" and a NEW message_id, unique in the session. Fix exactly what " ++
        "`errors` lists; do not resend the refused message unchanged."])

/-- `example_envelope_for`, the content being the minimal one of the type. -/
def exampleEnvelope (messageType : MessageType) (conversationId : String) (content : Json) : Json :=
  .obj [("type", .str (StrEnum.value messageType)), ("conversation_id", .str conversationId),
    ("message_id", .str "<new-unique-message-id>"), ("content", content)]

/-- The message type that a detail of the refusal spells, if it is one of the candidates. -/
def attemptedType (candidates : List MessageType) (details : List (String × Json)) (key : String) :
    Option MessageType :=
  match details.lookup key with
  | some (.str value) => candidates.find? fun t => StrEnum.value t = value
  | _ => none

/-- `_correction_example`: the type the model attempted, else the preferred one. -/
def correctionExample (expected : List MessageType) (details : List (String × Json))
    (remote : String) : Json :=
  let candidates := (orderedTypes expected).filter fun t => (texts.exampleContent t).isSome
  let picked := ((attemptedType candidates details "received").or
    (attemptedType candidates details "message_type")).or candidates.head?
  match picked.bind fun t => (texts.exampleContent t).map (Prod.mk t) with
  | some (t, content) => exampleEnvelope t remote content
  | none => .obj []

end CorrectionTexts

/-- `_DETAIL_NOT_AN_ERROR`. -/
def detailNotAnError : List String := ["errors", "excerpt", "operation", "http_status"]

def Json.isObject : Json → Bool
  | .obj _ => true
  | _ => false

def Json.isNull : Json → Bool
  | .null => true
  | _ => false

/-- The details that are not listed as errors, as one of them. -/
def flatErrors (details : List (String × Json)) : List Json :=
  let entry := details.filter fun f => f.1 ∉ detailNotAnError && !f.2.isNull
  if entry = [] then [] else [.obj entry]

/-- `_correction_errors`. -/
def correctionErrors (details : List (String × Json)) : List Json :=
  match details.lookup "errors" with
  | some (.arr items) => if items.all Json.isObject then items else flatErrors details
  | _ => flatErrors details

/-! ## Fields -/

/-- The content of a correction request, before it is dumped. -/
structure CorrectionFields where
  rejectedMessageId : Option String
  errorCode : String
  errors : List Json
  expectedTypes : List String
  reminder : String
  exampleEnvelope : Json
  rawExcerpt : Option String
  attempt : Nat
  maxAttempts : Nat

namespace CorrectionFields

def toJson (f : CorrectionFields) : Json :=
  Json.record [
    ("rejected_message_id", f.rejectedMessageId.map Json.str),
    ("error_code", some (.str f.errorCode)),
    ("errors", some (.arr f.errors)),
    ("expected_types", some (.arr (f.expectedTypes.map Json.str))),
    ("reminder", some (.str f.reminder)),
    ("example", some f.exampleEnvelope),
    ("raw_excerpt", f.rawExcerpt.map Json.str),
    ("attempt", some (jsonNat f.attempt)),
    ("max_attempts", some (jsonNat f.maxAttempts))]

/-- `text[:n]`. -/
def firstChars (n : Nat) (s : String) : String := .ofList (s.toList.take n)

def shrinkExcerpt (f : CorrectionFields) : CorrectionFields :=
  { f with rawExcerpt := f.rawExcerpt.map (firstChars 200) }

def dropExcerpt (f : CorrectionFields) : CorrectionFields := { f with rawExcerpt := none }

def shrinkErrors (f : CorrectionFields) : CorrectionFields := { f with errors := f.errors.take 1 }

def dropErrors (f : CorrectionFields) : CorrectionFields := { f with errors := [] }

def shrinkReminder (f : CorrectionFields) : CorrectionFields :=
  { f with reminder := firstChars 400 f.reminder }

def dropExample (f : CorrectionFields) : CorrectionFields := { f with exampleEnvelope := .obj [] }

def dropReminder (f : CorrectionFields) : CorrectionFields := { f with reminder := "" }

/-- `_CORRECTION_SHRINK_STEPS`. -/
def shrinkSteps : List (CorrectionFields → CorrectionFields) :=
  [shrinkExcerpt, dropExcerpt, shrinkErrors, dropErrors, shrinkReminder, dropExample, dropReminder]

/-- Apply the steps in order for as long as the size is over the limit. -/
def fit (size : CorrectionFields → Nat) (limit : Nat) :
    List (CorrectionFields → CorrectionFields) → CorrectionFields → CorrectionFields
  | [], f => f
  | shrink :: steps, f => if size f ≤ limit then f else fit size limit steps (shrink f)

/-- The fields with nothing left that a step can cut. -/
def bare (f : CorrectionFields) : CorrectionFields :=
  { f with errors := [], reminder := "", exampleEnvelope := .obj [], rawExcerpt := none }

end CorrectionFields

namespace CorrectionTexts

variable (texts : CorrectionTexts)

/-- The fields of `build_protocol_correction_request`, before any of them is cut. -/
def correctionFields (remote : String) (error : NormalizedError) (expected : List MessageType)
    (rejectedMessageId : Option String) (attempt maxAttempts : Nat) : CorrectionFields where
  rejectedMessageId := rejectedMessageId
  errorCode := error.errorCode
  errors := correctionErrors error.details
  expectedTypes := (expected.map fun t => (StrEnum.value t : String)).insertionSort (· ≤ ·)
  reminder := texts.correctionReminder error.errorCode expected remote
  exampleEnvelope := texts.correctionExample expected error.details remote
  rawExcerpt :=
    match error.details.lookup "excerpt" with
    | some (.str excerpt) => some excerpt
    | _ => none
  attempt := attempt
  maxAttempts := maxAttempts

/-- `_correction_message`: the content model refuses an empty error code. -/
def correctionMessage (conversation : ConversationRecord) (messageId : String)
    (f : CorrectionFields) : Except Exc OutboundMessage :=
  if f.errorCode = "" then
    .error (.valueError "String should have at least 1 character")
  else
    .ok (ProtocolAdapter.outbound .protocolCorrectionRequest conversation messageId f.toJson)

/-- The size of the message that carries the fields. -/
def correctionSize (conversation : ConversationRecord) (messageId : String)
    (f : CorrectionFields) : Nat :=
  (ProtocolAdapter.outbound .protocolCorrectionRequest conversation messageId f.toJson).sizeBytes

/-- `build_protocol_correction_request`, under `payload.max_message_bytes`. -/
def buildProtocolCorrectionRequest (config : PayloadConfig) (conversation : ConversationRecord)
    (messageId : String) (error : NormalizedError) (expected : List MessageType)
    (rejectedMessageId : Option String) (attempt maxAttempts : Nat) : Except Exc OutboundMessage :=
  if attempt < 1 ∨ maxAttempts < 1 then
    .error (.valueError "a correction request needs attempt >= 1 and max_attempts >= 1")
  else
    let fields := texts.correctionFields conversation.remoteId error expected rejectedMessageId
      attempt maxAttempts
    correctionMessage conversation messageId
      (CorrectionFields.fit (correctionSize conversation messageId) config.maxMessageBytes
        CorrectionFields.shrinkSteps fields)

end CorrectionTexts

/-! ## What the steps leave -/

namespace CorrectionFields

theorem sizeBytes_toJson (f : CorrectionFields) :
    f.toJson.sizeBytes = 1 + max 1 (
      Json.recordFieldSize ("rejected_message_id", f.rejectedMessageId.map Json.str) +
      (Json.fieldSize "error_code" (.str f.errorCode) +
      (Json.fieldSize "errors" (.arr f.errors) +
      (Json.fieldSize "expected_types" (.arr (f.expectedTypes.map Json.str)) +
      (Json.fieldSize "reminder" (.str f.reminder) +
      (Json.fieldSize "example" f.exampleEnvelope +
      (Json.recordFieldSize ("raw_excerpt", f.rawExcerpt.map Json.str) +
      (Json.fieldSize "attempt" (jsonNat f.attempt) +
      (Json.fieldSize "max_attempts" (jsonNat f.maxAttempts) + 0))))))))) := by
  unfold toJson
  rw [Json.sizeBytes_record_eq]
  rfl

/-- A step that makes no field larger makes no message larger. -/
theorem sizeBytes_toJson_le {f g : CorrectionFields} (hrejected : f.rejectedMessageId = g.rejectedMessageId)
    (hcode : f.errorCode = g.errorCode) (htypes : f.expectedTypes = g.expectedTypes)
    (hattempt : f.attempt = g.attempt) (hmax : f.maxAttempts = g.maxAttempts)
    (herrors : (Json.arr f.errors).sizeBytes ≤ (Json.arr g.errors).sizeBytes)
    (hreminder : (Json.str f.reminder).sizeBytes ≤ (Json.str g.reminder).sizeBytes)
    (hexample : f.exampleEnvelope.sizeBytes ≤ g.exampleEnvelope.sizeBytes)
    (hexcerpt : Json.recordFieldSize ("raw_excerpt", f.rawExcerpt.map Json.str) ≤
      Json.recordFieldSize ("raw_excerpt", g.rawExcerpt.map Json.str)) :
    f.toJson.sizeBytes ≤ g.toJson.sizeBytes := by
  have h₁ := Json.fieldSize_le "errors" herrors
  have h₂ := Json.fieldSize_le "reminder" hreminder
  have h₃ := Json.fieldSize_le "example" hexample
  rw [sizeBytes_toJson, sizeBytes_toJson, hrejected, hcode, htypes, hattempt, hmax]
  omega

theorem sizeBytes_empty_obj_le (fields : List (String × Json)) :
    (Json.obj []).sizeBytes ≤ (Json.obj fields).sizeBytes :=
  Json.sizeBytes_obj_le (List.nil_sublist _)

/-- The example is an object, as every example is. -/
def ExampleObject (f : CorrectionFields) : Prop := ∃ fields, f.exampleEnvelope = .obj fields

/-- Every step leaves a message that is no larger. -/
theorem shrink_le {f : CorrectionFields} (h : f.ExampleObject) :
    ∀ shrink ∈ shrinkSteps, (shrink f).toJson.sizeBytes ≤ f.toJson.sizeBytes := by
  have hempty : (Json.str "").sizeBytes ≤ (Json.str f.reminder).sizeBytes :=
    Json.sizeBytes_str_take 0 f.reminder
  obtain ⟨fields, hexample⟩ := h
  intro shrink hshrink
  simp only [shrinkSteps, List.mem_cons, List.not_mem_nil, or_false] at hshrink
  obtain rfl | rfl | rfl | rfl | rfl | rfl | rfl := hshrink
  · refine sizeBytes_toJson_le rfl rfl rfl rfl rfl le_rfl le_rfl le_rfl ?_
    unfold shrinkExcerpt
    dsimp only
    cases f.rawExcerpt with
    | none => exact le_rfl
    | some excerpt => exact Json.fieldSize_le _ (Json.sizeBytes_str_take 200 excerpt)
  · exact sizeBytes_toJson_le rfl rfl rfl rfl rfl le_rfl le_rfl le_rfl (Nat.zero_le _)
  · exact sizeBytes_toJson_le rfl rfl rfl rfl rfl (Json.sizeBytes_arr_le (List.take_sublist 1 _))
      le_rfl le_rfl le_rfl
  · exact sizeBytes_toJson_le rfl rfl rfl rfl rfl (Json.sizeBytes_arr_le (List.nil_sublist _))
      le_rfl le_rfl le_rfl
  · exact sizeBytes_toJson_le rfl rfl rfl rfl rfl le_rfl
      (Json.sizeBytes_str_take 400 f.reminder) le_rfl le_rfl
  · refine sizeBytes_toJson_le rfl rfl rfl rfl rfl le_rfl le_rfl ?_ le_rfl
    rw [hexample]
    exact sizeBytes_empty_obj_le fields
  · exact sizeBytes_toJson_le rfl rfl rfl rfl rfl le_rfl hempty le_rfl le_rfl

/-- The steps keep the example an object. -/
theorem shrink_example {f : CorrectionFields} (h : f.ExampleObject) :
    ∀ shrink ∈ shrinkSteps, (shrink f).ExampleObject := by
  intro shrink hshrink
  simp only [shrinkSteps, List.mem_cons, List.not_mem_nil, or_false] at hshrink
  obtain rfl | rfl | rfl | rfl | rfl | rfl | rfl := hshrink
  all_goals first | exact h | exact ⟨[], rfl⟩

/-- What is fitted is within the limit exactly when it is with every step applied. -/
theorem fit_le_iff {size : CorrectionFields → Nat} {limit : Nat}
    {steps : List (CorrectionFields → CorrectionFields)} {f : CorrectionFields}
    {Ok : CorrectionFields → Prop} (hok : Ok f)
    (hkeep : ∀ f, Ok f → ∀ shrink ∈ steps, Ok (shrink f))
    (hle : ∀ f, Ok f → ∀ shrink ∈ steps, size (shrink f) ≤ size f) :
    size (fit size limit steps f) ≤ limit ↔
      size (steps.foldl (fun f shrink => shrink f) f) ≤ limit := by
  induction steps generalizing f with
  | nil => rfl
  | cons shrink steps ih =>
    have hnext : Ok (shrink f) := hkeep f hok shrink List.mem_cons_self
    have hrest := ih hnext (fun f hf s hs => hkeep f hf s (.tail _ hs))
      (fun f hf s hs => hle f hf s (.tail _ hs))
    unfold fit
    split
    · rename_i hfits
      have hall : ∀ g, Ok g → size g ≤ limit →
          size (steps.foldl (fun f shrink => shrink f) g) ≤ limit := by
        clear ih hrest
        induction steps with
        | nil => exact fun g _ hg => hg
        | cons s steps ih =>
          intro g hg hsize
          have hmem : s ∈ shrink :: s :: steps := .tail _ List.mem_cons_self
          refine ih (fun f hf t ht => hkeep f hf t ?_) (fun f hf t ht => hle f hf t ?_) (s g)
            (hkeep g hg s hmem) ((hle g hg s hmem).trans hsize)
          · exact List.mem_cons.2 ((List.mem_cons.1 ht).imp_right (.tail _))
          · exact List.mem_cons.2 ((List.mem_cons.1 ht).imp_right (.tail _))
      refine ⟨fun _ => ?_, fun _ => hfits⟩
      exact hall (shrink f) hnext ((hle f hok shrink List.mem_cons_self).trans hfits)
    · exact hrest

theorem foldl_shrinkSteps (f : CorrectionFields) :
    shrinkSteps.foldl (fun f shrink => shrink f) f = f.bare := rfl

theorem fit_errorCode (size : CorrectionFields → Nat) (limit : Nat)
    {steps : List (CorrectionFields → CorrectionFields)}
    (h : ∀ f, ∀ shrink ∈ steps, (shrink f).errorCode = f.errorCode) (f : CorrectionFields) :
    (fit size limit steps f).errorCode = f.errorCode := by
  induction steps generalizing f with
  | nil => rfl
  | cons shrink steps ih =>
    unfold fit
    split
    · rfl
    · rw [ih fun f s hs => h f s (.tail _ hs), h f shrink List.mem_cons_self]

theorem shrink_errorCode (f : CorrectionFields) :
    ∀ shrink ∈ shrinkSteps, (shrink f).errorCode = f.errorCode := by
  intro shrink hshrink
  simp only [shrinkSteps, List.mem_cons, List.not_mem_nil, or_false] at hshrink
  obtain rfl | rfl | rfl | rfl | rfl | rfl | rfl := hshrink <;> rfl

end CorrectionFields

namespace CorrectionTexts

variable (texts : CorrectionTexts)

theorem correctionExample_object (expected : List MessageType) (details : List (String × Json))
    (remote : String) : ∃ fields, texts.correctionExample expected details remote = .obj fields := by
  unfold correctionExample
  dsimp only
  split
  · exact ⟨_, rfl⟩
  · exact ⟨[], rfl⟩

/-- The content of a correction request without anything that a step can cut. -/
def bareContent (errorCode : String) (expected : List MessageType)
    (rejectedMessageId : Option String) (attempt maxAttempts : Nat) : Json :=
  Json.record [
    ("rejected_message_id", rejectedMessageId.map Json.str),
    ("error_code", some (.str errorCode)),
    ("errors", some (.arr [])),
    ("expected_types", some (.arr
      (((expected.map fun t => (StrEnum.value t : String)).insertionSort (· ≤ ·)).map Json.str))),
    ("reminder", some (.str "")),
    ("example", some (.obj [])),
    ("raw_excerpt", none),
    ("attempt", some (jsonNat attempt)),
    ("max_attempts", some (jsonNat maxAttempts))]

/-- What is sent is within the limit exactly when it is with nothing left to cut. -/
theorem fitted_le_iff (conversation : ConversationRecord) (messageId : String) (limit : Nat)
    {f : CorrectionFields} (h : f.ExampleObject) :
    correctionSize conversation messageId (CorrectionFields.fit
        (correctionSize conversation messageId) limit CorrectionFields.shrinkSteps f) ≤ limit ↔
      envelopeBytes .protocolCorrectionRequest conversation messageId + f.bare.toJson.sizeBytes ≤
        limit := by
  have hle : ∀ f : CorrectionFields, f.ExampleObject →
      ∀ shrink ∈ CorrectionFields.shrinkSteps,
        correctionSize conversation messageId (shrink f) ≤
          correctionSize conversation messageId f := by
    intro f hf shrink hshrink
    unfold correctionSize
    rw [ProtocolAdapter.outbound_sizeBytes, ProtocolAdapter.outbound_sizeBytes]
    exact Nat.add_le_add_left (CorrectionFields.shrink_le hf shrink hshrink) _
  rw [CorrectionFields.fit_le_iff h (fun f hf => CorrectionFields.shrink_example hf) hle,
    CorrectionFields.foldl_shrinkSteps, correctionSize, ProtocolAdapter.outbound_sizeBytes]

/-- What is built, and when anything is. -/
theorem build_eq_ok_iff {config : PayloadConfig} {conversation : ConversationRecord}
    {messageId : String} {error : NormalizedError} {expected : List MessageType}
    {rejected : Option String} {attempt maxAttempts : Nat} {message : OutboundMessage} :
    texts.buildProtocolCorrectionRequest config conversation messageId error expected rejected
        attempt maxAttempts = .ok message ↔
      1 ≤ attempt ∧ 1 ≤ maxAttempts ∧ error.errorCode ≠ "" ∧
        ProtocolAdapter.outbound .protocolCorrectionRequest conversation messageId
          (CorrectionFields.fit (correctionSize conversation messageId) config.maxMessageBytes
            CorrectionFields.shrinkSteps (texts.correctionFields conversation.remoteId error
              expected rejected attempt maxAttempts)).toJson = message := by
  have hcode := CorrectionFields.fit_errorCode (correctionSize conversation messageId)
    config.maxMessageBytes CorrectionFields.shrink_errorCode
    (texts.correctionFields conversation.remoteId error expected rejected attempt maxAttempts)
  have herror : (texts.correctionFields conversation.remoteId error expected rejected attempt
    maxAttempts).errorCode = error.errorCode := rfl
  unfold buildProtocolCorrectionRequest
  by_cases hattempts : attempt < 1 ∨ maxAttempts < 1
  · rw [if_pos hattempts]
    refine ⟨fun h => (by cases h), fun h => ?_⟩
    omega
  · rw [if_neg hattempts]
    dsimp only
    unfold correctionMessage
    rw [hcode, herror]
    by_cases hempty : error.errorCode = ""
    · rw [if_pos hempty]
      exact ⟨fun h => (by cases h), fun h => absurd hempty h.2.2.1⟩
    · rw [if_neg hempty, Except.ok.injEq]
      exact ⟨fun h => ⟨by omega, by omega, hempty, h⟩, fun h => h.2.2.2⟩

/-- The least that the message can be cut to. -/
def leastSize (conversation : ConversationRecord) (messageId errorCode : String)
    (expected : List MessageType) (rejected : Option String) (attempt maxAttempts : Nat) : Nat :=
  envelopeBytes .protocolCorrectionRequest conversation messageId +
    (bareContent errorCode expected rejected attempt maxAttempts).sizeBytes

theorem fitted_fields_le_iff (limit : Nat) (conversation : ConversationRecord)
    (messageId : String) (error : NormalizedError) (expected : List MessageType)
    (rejected : Option String) (attempt maxAttempts : Nat) :
    correctionSize conversation messageId (CorrectionFields.fit
        (correctionSize conversation messageId) limit CorrectionFields.shrinkSteps
        (texts.correctionFields conversation.remoteId error expected rejected attempt
          maxAttempts)) ≤ limit ↔
      leastSize conversation messageId error.errorCode expected rejected attempt maxAttempts ≤
        limit :=
  fitted_le_iff conversation messageId limit
    (texts.correctionExample_object expected error.details conversation.remoteId)

/-- A correction request is built, and within the bound, exactly when its envelope, the code, the
expected types, the identifier of the refused message and the two counters are. -/
theorem correction_within_limit_iff (config : PayloadConfig) (conversation : ConversationRecord)
    (messageId : String) (error : NormalizedError) (expected : List MessageType)
    (rejected : Option String) (attempt maxAttempts : Nat) :
    (∃ message, texts.buildProtocolCorrectionRequest config conversation messageId error expected
        rejected attempt maxAttempts = .ok message ∧
        message.sizeBytes ≤ config.maxMessageBytes) ↔
      1 ≤ attempt ∧ 1 ≤ maxAttempts ∧ error.errorCode ≠ "" ∧
        leastSize conversation messageId error.errorCode expected rejected attempt maxAttempts ≤
          config.maxMessageBytes := by
  have hfit := texts.fitted_fields_le_iff config.maxMessageBytes conversation messageId error
    expected rejected attempt maxAttempts
  constructor
  · rintro ⟨message, hbuild, hsize⟩
    obtain ⟨hattempt, hmax, hcode, rfl⟩ := texts.build_eq_ok_iff.1 hbuild
    exact ⟨hattempt, hmax, hcode, hfit.1 hsize⟩
  · rintro ⟨hattempt, hmax, hcode, hsize⟩
    exact ⟨_, texts.build_eq_ok_iff.2 ⟨hattempt, hmax, hcode, rfl⟩, hfit.2 hsize⟩

/-! ### A refused message with a long identifier -/

/-- The identifier of the refused message is in the correction request, whole. -/
theorem rejected_le_bareContent (errorCode : String) (expected : List MessageType)
    (rejected : String) (attempt maxAttempts : Nat) :
    (Json.str rejected).sizeBytes ≤
      (bareContent errorCode expected (some rejected) attempt maxAttempts).sizeBytes := by
  unfold bareContent
  rw [Json.sizeBytes_record_eq, List.map_cons, List.sum_cons]
  have hfield : (Json.str rejected).sizeBytes ≤
      Json.recordFieldSize ("rejected_message_id", (some rejected).map Json.str) := by
    unfold Json.recordFieldSize Json.fieldSize
    dsimp only [Option.map_some, Option.elim_some]
    omega
  omega

/-- The payload section with its default bound on a message. -/
def defaultPayload : PayloadConfig :=
  ⟨8192, 131072, 196608, Nat.succ_pos _, Nat.succ_pos _, Nat.succ_pos _⟩

def noTexts : CorrectionTexts := ⟨fun _ => "", fun _ => none⟩

/-- An identifier that is over the bound on its own leaves no correction request within it. -/
theorem not_within_of_long {config : PayloadConfig} {rejected : String}
    (h : config.maxMessageBytes < (Json.str rejected).sizeBytes)
    (conversation : ConversationRecord) (messageId : String) (error : NormalizedError)
    (expected : List MessageType) (attempt maxAttempts : Nat) :
    ¬ ∃ message, texts.buildProtocolCorrectionRequest config conversation messageId error expected
        (some rejected) attempt maxAttempts = .ok message ∧
        message.sizeBytes ≤ config.maxMessageBytes := by
  rintro ⟨message, hbuild, hsize⟩
  obtain ⟨-, -, -, rfl⟩ := texts.build_eq_ok_iff.1 hbuild
  have hleast := (texts.fitted_fields_le_iff _ _ _ _ _ _ _ _).1 hsize
  have hlong := rejected_le_bareContent error.errorCode expected rejected attempt maxAttempts
  unfold leastSize at hleast
  omega

/-- A refusal of a message whose identifier is 200000 letters long. -/
theorem long_identifier_not_within :
    ¬ ∃ message, noTexts.buildProtocolCorrectionRequest defaultPayload
        (.sample "c" "s" .waitingModelResponse) "m"
        (mkError .modelProtocolError "SCHEMA_INVALID" "ProtocolAdapter" []) [.discoveryPlan]
        (some (.ofList (List.replicate 200000 'a'))) 1 3 = .ok message ∧
        message.sizeBytes ≤ defaultPayload.maxMessageBytes := by
  apply not_within_of_long
  rw [Json.sizeBytes_replicate]
  decide

end CorrectionTexts

end AgenticLocalApp
