import AgenticLocalApp.Domain.Records
import AgenticLocalApp.Protocol.Inbound

/-!
# The protocol adapter

What the application expects of the model, the checks that a reply must pass, and the messages that
the application sends.  The validation of a JSON value against a declared schema is the schema
library's; what it answers is a parameter.
-/

namespace AgenticLocalApp

/-- The rows of the table of expected messages. -/
inductive OutboundSituation where
  | initialUserRequest | followUpUserRequest | executionResult | contextResumeRequest
  deriving DecidableEq, Repr

/-- `EXPECTED_INBOUND`. -/
def expectedInbound : OutboundSituation → List MessageType
  | .initialUserRequest => [.discoveryPlan]
  | .followUpUserRequest =>
    [.discoveryPlan, .executionPlan, .priorityClarification, .finalAnswer, .userResponse]
  | .executionResult => [.executionPlan, .priorityClarification, .finalAnswer, .userResponse]
  | .contextResumeRequest => [.contextResumeAck]

/-- `expected_inbound_for`. -/
def expectedInboundFor (situation : OutboundSituation) (allowDirectResponse : Bool) :
    List MessageType :=
  if situation = .initialUserRequest ∧ allowDirectResponse then
    expectedInbound situation ++ [.userResponse]
  else expectedInbound situation

/-- `situation_for`: the row of the last substantive outbound message. -/
def situationFor (lastOutbound : MessageRecord) (conversation : ConversationRecord) :
    Except Exc OutboundSituation :=
  if lastOutbound.direction ≠ .outbound then
    .error (.valueError s!"{lastOutbound.messageId} is not an outbound message")
  else
    match lastOutbound.messageType with
    | .userRequest =>
      .ok (if conversation.finalAnswerReceived then .followUpUserRequest else .initialUserRequest)
    | .executionResult => .ok .executionResult
    | .contextResumeRequest => .ok .contextResumeRequest
    | .protocolCorrectionRequest =>
      .error (.valueError ("protocol_correction_request sets no expectation: pass the substantive " ++
        "outbound message it corrects"))
    | other => .error (.valueError s!"{StrEnum.value other} is not an outbound message type")

/-- `INBOUND_MESSAGE_TYPES`. -/
def inboundMessageTypes : List MessageType :=
  planMessageTypes ++ [.finalAnswer, .userResponse, .contextResumeAck]

/-- What a message type is spelled as. -/
def messageTypes : List MessageType :=
  [.userRequest, .discoveryPlan, .executionPlan, .priorityClarification, .executionResult,
    .finalAnswer, .userResponse, .contextResumeRequest, .contextResumeAck,
    .protocolCorrectionRequest, .chunkRequest, .systemError]

/-! ## Schemas -/

/-- One fault that the schema library found. -/
structure SchemaError where
  loc : String
  type : String
  msg : String
  deriving DecidableEq

def SchemaError.toJson (e : SchemaError) : Json :=
  .obj [("loc", .str e.loc), ("type", .str e.type), ("msg", .str e.msg)]

structure Envelope where
  type : MessageType
  conversationId : String
  messageId : String
  content : Json

structure ContextResumeAckContent where
  originalConversationId : String
  acknowledged : Bool

/-- What the schema library makes of a JSON value: the value read, or the faults; and the faults of
the strict reading, in which nothing is converted. -/
structure ContentModel (α : Type) where
  validate : Json → Except (List SchemaError) α
  strictErrors : Json → List SchemaError

/-- The declared models. -/
structure Schemas where
  envelope : Json → Except (List SchemaError) Envelope
  plan : ContentModel PlanContent
  finalAnswer : ContentModel Unit
  userResponse : ContentModel UserResponseContent
  contextResumeAck : ContentModel ContextResumeAckContent

structure ProtocolAdapter where
  config : AdapterConfig
  schemas : Schemas
  /-- The text of a list or an object, as the language prints it. -/
  text : Json → String
  /-- The content of a correction request: what was wrong, what is expected, and the position in
  the correction budget, shrunk to the message bound. -/
  correctionContent : (remote messageId : String) → NormalizedError → List MessageType →
    (rejectedMessageId : Option String) → (attempt maxAttempts : Nat) → Json

/-- `_remote_id`: the identifier that the model knows the conversation by. -/
def ConversationRecord.remoteId (c : ConversationRecord) : String :=
  match c.remoteConversationId with
  | some remote => if remote = "" then c.conversationId else remote
  | none => c.conversationId

/-- What is already in use in the session. -/
structure KnownIds where
  messageIds : List String
  planIds : List String
  taskIds : List String

namespace ProtocolAdapter

variable (adapter : ProtocolAdapter)

/-- `expected_inbound`. -/
def expectedInbound (lastOutbound : Option MessageRecord) (conversation : ConversationRecord) :
    Except Exc (List MessageType) :=
  match lastOutbound with
  | none => .ok []
  | some record => do
    let situation ← situationFor record conversation
    return expectedInboundFor situation adapter.config.allowDirectResponse

/-! ## Inbound -/

/-- `peek_field`: a field of a reply that was not validated. -/
def peekField (raw : Json) (key : String) : Json :=
  match raw with
  | .obj fields =>
    match (fields.lookup key).getD .null with
    | .arr items => .str (adapter.text (.arr items))
    | .obj inner => .str (adapter.text (.obj inner))
    | scalar => scalar
  | _ => .null

/-- `rejected_payload`. -/
def rejectedPayload : List Json → Json
  | [.obj fields] => .obj fields
  | [single] => .obj [("raw", single)]
  | messages => .obj [("messages", .arr messages)]

/-- `_validate_content`: the content against its model, then against the exact JSON types. -/
def validateContent {α : Type} (envelope : Envelope) (model : ContentModel α) : Except Exc α :=
  let refused (errors : List SchemaError) : Except Exc α :=
    .error (protocolError "SCHEMA_INVALID" [("stage", .str "content"),
      ("message_type", .str (StrEnum.value envelope.type)), ("message_id", .str envelope.messageId),
      ("errors", .arr (errors.map SchemaError.toJson))])
  let strict := model.strictErrors envelope.content
  match model.validate envelope.content with
  | .ok content => if strict = [] then .ok content else refused strict
  | .error errors =>
    refused (errors ++ strict.filter fun e => e.loc ∉ errors.map SchemaError.loc)

/-- The spellings of message types, sorted. -/
def sortedValues (types : List MessageType) : Json :=
  .arr (((types.map StrEnum.value).insertionSort (· ≤ ·)).map Json.str)

/-- The envelope of the only message of a reply. -/
def parseEnvelope (raw : Json) (expected : List MessageType) (conversation : ConversationRecord)
    (known : KnownIds) : Except Exc Envelope :=
  match adapter.schemas.envelope raw with
  | .error errors =>
    .error (protocolError "SCHEMA_INVALID" [("stage", .str "envelope"),
      ("message_type", adapter.peekField raw "type"),
      ("errors", .arr (errors.map SchemaError.toJson))])
  | .ok envelope =>
    if envelope.conversationId ≠ conversation.remoteId then
      .error (protocolError "CONVERSATION_MISMATCH" [("received", .str envelope.conversationId),
        ("expected", .str conversation.remoteId), ("message_id", .str envelope.messageId)])
    else if envelope.messageId ∈ known.messageIds then
      .error (protocolError "DUPLICATE_MESSAGE_ID" [("message_id", .str envelope.messageId)])
    else if envelope.type ∉ inboundMessageTypes then
      let code :=
        if envelope.type = .systemError then "SYSTEM_ERROR_NOT_ALLOWED_INBOUND"
        else "UNEXPECTED_MESSAGE_TYPE"
      .error (protocolError code [("received", .str (StrEnum.value envelope.type)),
        ("expected", sortedValues expected), ("inbound", .bool false),
        ("message_id", .str envelope.messageId)])
    else if envelope.type ∉ expected then
      .error (protocolError "UNEXPECTED_MESSAGE_TYPE" [("received", .str (StrEnum.value envelope.type)),
        ("expected", sortedValues expected), ("inbound", .bool true),
        ("message_id", .str envelope.messageId)])
    else .ok envelope

/-- `_validate_user_response`: the body is bounded, and never looked into. -/
def validateUserResponse (response : UserResponseContent) (messageId : String) : Except Exc Unit :=
  let bodyBytes := (encodeText response.body).length
  if adapter.config.payload.maxMessageBytes < bodyBytes then
    .error (protocolError "USER_RESPONSE_TOO_LARGE" [("size_bytes", .int bodyBytes),
      ("max_bytes", .int adapter.config.payload.maxMessageBytes), ("message_id", .str messageId)])
  else .ok ()

/-- `_validate_ack`. -/
def validateAck (ack : ContextResumeAckContent) (expectedOriginal : Option String) : Except Exc Unit :=
  match expectedOriginal with
  | some original =>
    if ack.originalConversationId ≠ original then
      .error (protocolError "ACK_WRONG_ORIGINAL" [("received", .str ack.originalConversationId),
        ("expected", .str original)])
    else checkAcknowledged
  | none => checkAcknowledged
where
  checkAcknowledged : Except Exc Unit :=
    if ack.acknowledged then .ok ()
    else .error (protocolError "ACK_NOT_ACKNOWLEDGED"
      [("original_conversation_id", .str ack.originalConversationId)])

/-- The message of an envelope, its content checked against its model and its rules. -/
def parseContent (raw : Json) (envelope : Envelope) (known : KnownIds)
    (expectedOriginal : Option String) : Except Exc InboundMessage :=
  let message (content : InboundContent) : InboundMessage :=
    { messageId := envelope.messageId
      messageType := envelope.type
      payload := .obj [("type", .str (StrEnum.value envelope.type)),
        ("conversation_id", .str envelope.conversationId), ("message_id", .str envelope.messageId),
        ("content", envelope.content)]
      sizeBytes := raw.sizeBytes
      content := content }
  match planTypeForMessage envelope.type with
  | some planType => do
    let plan ← validateContent envelope adapter.schemas.plan
    let warnings ← validatePlan adapter.config plan known.planIds known.taskIds known.taskIds
    return { message (.other envelope.content) with plan := some (planType, plan), warnings := warnings }
  | none =>
    match envelope.type with
    | .finalAnswer => do
      let _ ← validateContent envelope adapter.schemas.finalAnswer
      return message (.other envelope.content)
    | .userResponse => do
      let response ← validateContent envelope adapter.schemas.userResponse
      adapter.validateUserResponse response envelope.messageId
      return message (.userResponse response)
    | _ => do
      let ack ← validateContent envelope adapter.schemas.contextResumeAck
      validateAck ack expectedOriginal
      return message (.other envelope.content)

/-- `parse_inbound`: exactly one message is allowed per turn. -/
def parseInbound (rawMessages : List Json) (expected : List MessageType)
    (conversation : ConversationRecord) (known : KnownIds)
    (expectedOriginal : Option String := none) : Except Exc InboundMessage :=
  match rawMessages with
  | [] => .error (protocolError "EMPTY_REPLY" [("expected", .int 1), ("received", .int 0)])
  | [raw] => do
    let envelope ← adapter.parseEnvelope raw expected conversation known
    adapter.parseContent raw envelope known expectedOriginal
  | messages =>
    .error (protocolError "UNEXPECTED_EXTRA_MESSAGE" [("expected", .int 1),
      ("received", .int messages.length),
      ("message_ids", .arr (messages.map fun m => adapter.peekField m "message_id")),
      ("types", .arr (messages.map fun m => adapter.peekField m "type"))])

/-! ## Outbound -/

/-- `_outbound`. -/
def outbound (messageType : MessageType) (conversation : ConversationRecord) (messageId : String)
    (content : Json) : OutboundMessage :=
  let payload : Json := .obj [("type", .str (StrEnum.value messageType)),
    ("conversation_id", .str conversation.remoteId), ("message_id", .str messageId),
    ("content", content)]
  { messageId := messageId
    messageType := messageType
    payload := payload
    sizeBytes := payload.sizeBytes }

/-- `build_user_request`. -/
def buildUserRequest (conversation : ConversationRecord) (messageId goal userMessage : String)
    (budget : SessionBudget) : OutboundMessage :=
  outbound .userRequest conversation messageId (.obj [("goal", .str goal),
    ("user_message", .str userMessage),
    ("session_budget", .obj [("max_cycles", .int budget.maxCycles), ("max_plans", .int budget.maxPlans),
      ("max_total_duration_ms", .int budget.maxTotalDurationMs)])])

/-- `build_execution_result`. -/
def buildExecutionResult (conversation : ConversationRecord) (messageId : String)
    (content : ExecutionResultContent) : OutboundMessage :=
  outbound .executionResult conversation messageId content.toJson

/-- `build_context_resume_request`. -/
def buildContextResumeRequest (conversation : ConversationRecord)
    (messageId originalConversationId goal : String) (contextSummary : Json)
    (pendingMessageType : MessageType) : OutboundMessage :=
  outbound .contextResumeRequest conversation messageId (.obj [
    ("original_conversation_id", .str originalConversationId), ("goal", .str goal),
    ("context_summary", contextSummary),
    ("pending_message_type", .str (StrEnum.value pendingMessageType))])

/-- `build_protocol_correction_request`. -/
def buildProtocolCorrectionRequest (conversation : ConversationRecord) (messageId : String)
    (error : NormalizedError) (expected : List MessageType) (rejectedMessageId : Option String)
    (attempt maxAttempts : Nat) : Except Exc OutboundMessage :=
  if attempt < 1 ∨ maxAttempts < 1 then
    .error (.valueError "a correction request needs attempt >= 1 and max_attempts >= 1")
  else
    .ok (outbound .protocolCorrectionRequest conversation messageId
      (adapter.correctionContent conversation.remoteId messageId error expected rejectedMessageId
        attempt maxAttempts))

end ProtocolAdapter

/-! ## A reading of well-formed messages -/

def Json.field (key : String) : Json → Option Json
  | .obj fields => fields.lookup key
  | _ => none

def Json.text (key : String) (json : Json) : Option String :=
  match json.field key with
  | some (.str s) => some s
  | _ => none

def Envelope.read (raw : Json) : Option Envelope := do
  let type ← raw.text "type"
  return {
    type := ← messageTypes.find? fun t => StrEnum.value t = type
    conversationId := ← raw.text "conversation_id"
    messageId := ← raw.text "message_id"
    content := ← raw.field "content" }

/-- A schema library that knows of one fault, a field that is missing. -/
def orMissing {α : Type} (value : Option α) : Except (List SchemaError) α :=
  match value with
  | some a => .ok a
  | none => .error [⟨"", "missing", "Field required"⟩]

/-- Models that read what is there and convert nothing; they know no plans. -/
def Schemas.sample : Schemas where
  envelope raw := orMissing (Envelope.read raw)
  plan := ⟨fun _ => orMissing none, fun _ => []⟩
  finalAnswer := ⟨fun content =>
    orMissing do let _ ← content.text "status"; let _ ← content.text "diagnosis", fun _ => []⟩
  userResponse := ⟨fun content =>
    orMissing do return { format := "text", status := "answer", expectsReply := false,
                          body := ← content.text "body" }, fun _ => []⟩
  contextResumeAck := ⟨fun content =>
    orMissing do return { originalConversationId := ← content.text "original_conversation_id",
                          acknowledged := true }, fun _ => []⟩

def ProtocolAdapter.sample : ProtocolAdapter where
  config := .sample
  schemas := .sample
  text _ := ""
  correctionContent _ _ _ _ _ _ _ := .obj []

end AgenticLocalApp
