import AgenticLocalApp.Protocol.Adapter
import AgenticLocalApp.Shell.Dialects

/-!
# HTTP providers

The calls of a provider from the response that the client hands over: the status check, the table of
the error statuses, the decoding of the body, and the hooks by which the two providers read it.
-/

namespace AgenticLocalApp

namespace Http

/-! ## What Python computes -/

/-- How the decoding of a JSON text ends without a value. -/
inductive DecodeFailure where
  | valueError
  /-- An exception that is not a `ValueError`, by its name. -/
  | other (name : String)

/-- What `parsedate_to_datetime` makes of a text. -/
inductive DateReading where
  /-- A date, in microseconds of its own zone, and the offset of that zone if it names one. -/
  | date (micros : Int) (utcOffset : Option Int)
  /-- A `TypeError`, a `ValueError` or an `IndexError`. -/
  | refused
  | other (name : String)

/-- The standard library under the providers. -/
structure PyRuntime where
  unicode : UnicodeTable
  /-- `json.loads`. -/
  loads : String → Except DecodeFailure Json
  /-- The exception by which the `repr` of a value ends, if it does not end in a text. -/
  reprFails : Json → Option String
  /-- `str` of a value. -/
  str : Json → String
  parseDate : Text → DateReading
  /-- `int(d.total_seconds() * 1000)` of a duration in microseconds. -/
  totalMs : Int → Int
  reprFails_str : ∀ s, reprFails (.str s) = none
  reprFails_bool : ∀ b, reprFails (.bool b) = none
  reprFails_int : ∀ n : Int,
    reprFails (.int n) = none ↔ (Nat.toDigits 10 n.natAbs).length ≤ intMaxStrDigits

/-- What leaves a call without a value. -/
inductive HttpExc where
  /-- A `TransportError`. -/
  | transport (error : NormalizedError)
  /-- An `InvalidResponseError`. -/
  | invalidResponse (code : String) (details : List (String × Json))
  /-- An exception of any other class, by its name. -/
  | other (name : String)

/-- A response, with the client's readings of its body. -/
structure HttpResponse where
  status : Nat
  /-- `headers.get("Retry-After")`. -/
  retryAfter : Option Text
  /-- The body as a text, or the exception that its charset ends the reading by. -/
  text : Except String String
  json : Except DecodeFailure Json
  /-- A status has three digits. -/
  status_lt : status < 1000

/-- The part of a call that the reply is read with. -/
structure HttpCall where
  url : String
  expectedStatuses : List Nat
  parseJson : Bool

def bodyExcerptBytes : Nat := 256

/-- `body[:BODY_EXCERPT_BYTES]`. -/
def excerpt (body : String) : Json := .str (.ofList (body.toList.take bodyExcerptBytes))

section Errors

variable (rt : PyRuntime)

/-- The text of an exception holds the `repr` of its details. -/
def detailsFail (details : List (String × Json)) : Option String :=
  details.findSome? fun item => rt.reprFails item.2

/-- `TransportError(...)`. -/
def transportError (errorType : ErrorType) (code : String) (retryable : Bool)
    (details : List (String × Json)) : Except HttpExc NormalizedError :=
  match detailsFail rt details with
  | some name => .error (.other name)
  | none => .ok (mkError errorType code "TransportGateway" details .high retryable)

/-- `raise InvalidResponseError(...)`. -/
def raiseInvalid {α : Type} (code : String) (details : List (String × Json)) : Except HttpExc α :=
  match detailsFail rt details with
  | some name => .error (.other name)
  | none => .error (.invalidResponse code details)

def invalidBody : String := "INVALID_RESPONSE_BODY"

/-- `_retry_after_ms`. -/
def retryAfterMs (now : Int) (value : Option Text) : Except HttpExc (Option Nat) :=
  match value with
  | none => .ok none
  | some value =>
    let value := stripChars isBlankChar value
    if rt.unicode.isDigitText value then
      match rt.unicode.int value with
      | .error _ => .error (.other "ValueError")
      | .ok seconds => .ok (some (seconds * 1000))
    else
      match rt.parseDate value with
      | .refused => .ok none
      | .other name => .error (.other name)
      | .date micros utcOffset =>
        .ok (some (max 0 (rt.totalMs (micros - utcOffset.getD 0 - now))).toNat)

/-- `_try_json`. -/
def tryJson (text : String) : Except HttpExc (Option Json) :=
  match rt.loads text with
  | .ok json => .ok (some json)
  | .error .valueError => .ok none
  | .error (.other name) => .error (.other name)

/-- The error of a status from 400 to 499 that does not say that the context window is exceeded. -/
def classifyClientError (now : Int) (status : Nat) (body : String)
    (retryAfter : Option Text) : Except HttpExc NormalizedError :=
  let code := "HTTP_" ++ toString status
  let common := [("body", excerpt body)]
  if status = 413 then transportError rt .modelContextWindowError code false common
  else if status = 401 then transportError rt .authnError code false common
  else if status = 403 then transportError rt .authzError code false common
  else if status = 429 then
    match retryAfterMs rt now retryAfter with
    | .error e => .error e
    | .ok delay =>
      transportError rt .rateLimitError code true
        (common ++ (delay.map fun ms : Nat => ("retry_after_ms", Json.int ms)).toList)
  else if status = 408 then transportError rt .timeoutError code true common
  else transportError rt .systemError code false common

def contextWindowExceeded (json : Option Json) : Bool :=
  match json.bind (Json.field "error") with
  | some (.str text) => text == "context_window_exceeded"
  | _ => false

/-- `classify_error`. -/
def classifyError (now : Int) (status : Nat) (body : String)
    (retryAfter : Option Text) : Except HttpExc NormalizedError :=
  let code := "HTTP_" ++ toString status
  let common := [("body", excerpt body)]
  if 400 ≤ status ∧ status < 500 then
    match tryJson rt body with
    | .error e => .error e
    | .ok parsed =>
      if contextWindowExceeded parsed then
        transportError rt .modelContextWindowError "CONTEXT_WINDOW_EXCEEDED" false common
      else classifyClientError rt now status body retryAfter
  else if 500 ≤ status then
    if status = 504 then transportError rt .timeoutError code true common
    else if status = 502 ∨ status = 503 then transportError rt .networkError code true common
    else transportError rt .systemError code true (common ++ [("transient", .bool true)])
  else transportError rt .modelProtocolError "UNEXPECTED_STATUS" false common

/-- The names that the keywords of an error must not repeat. -/
def takenKeywords : List String :=
  ["error_type", "code", "retryable", "operation", "http_status", "url"]

/-- What every error of a call says of it. -/
def stamp (operation url : String) (status : Nat) : List (String × Json) :=
  [("operation", .str operation), ("http_status", .int status), ("url", .str url)]

/-- `raise _stamped(...)`. -/
def raiseStamped {α : Type} (operation url : String) (status : Nat) (error : NormalizedError) :
    Except HttpExc α :=
  let kept := error.details.filter fun item =>
    item.1 ∉ (stamp operation url status).map Prod.fst
  match transportError rt error.errorType error.errorCode error.retryable
    (kept ++ stamp operation url status) with
  | .error e => .error e
  | .ok stamped => .error (.transport stamped)

/-- `raise _protocol_error(...)`. -/
def raiseProtocol {α : Type} (operation url : String) (status : Nat) (code : String)
    (details : List (String × Json)) : Except HttpExc α :=
  if details.any fun item => item.1 ∈ takenKeywords then .error (.other "TypeError")
  else
    match transportError rt .modelProtocolError code false (stamp operation url status ++ details)
      with
    | .error e => .error e
    | .ok error => .error (.transport error)

/-- `_parsing`. -/
def parsing {α : Type} (operation url : String) (status : Nat) (parsed : Except HttpExc α) :
    Except HttpExc α :=
  match parsed with
  | .error (.invalidResponse code details) => raiseProtocol rt operation url status code details
  | parsed => parsed

/-- `_send`, from the response on. -/
def send (now : Int) (redact : String → String) (operation : String) (call : HttpCall)
    (r : HttpResponse) : Except HttpExc Json :=
  if r.status ∉ call.expectedStatuses then
    match r.text with
    | .error name => .error (.other name)
    | .ok body =>
      match classifyError rt now r.status body r.retryAfter with
      | .error e => .error e
      | .ok error => raiseStamped rt operation (redact call.url) r.status error
  else if ¬ call.parseJson then .ok .null
  else
    match r.json with
    | .ok body => .ok body
    | .error .valueError =>
      match r.text with
      | .error name => .error (.other name)
      | .ok body =>
        parsing rt operation (redact call.url) r.status
          (raiseInvalid rt invalidBody [("reason", .str "not_json"), ("body", excerpt body)])
    | .error (.other name) => .error (.other name)

end Errors

/-! ## The hooks of the providers -/

structure PostAck where
  messageId : String
  accepted : Bool
  httpStatus : Nat

structure GetResult where
  messages : List Json
  cursor : Option String
  httpStatus : Nat

/-- A step of a response path. -/
inductive PathStep where
  | key (name : String)
  | index (n : Nat)

/-- A response path, as the validators of the options have read it. -/
structure ResponsePath where
  text : String
  steps : List PathStep

structure TemplatedOptions where
  conversationIdPath : ResponsePath
  acceptedPath : Option ResponsePath
  messageIdPath : Option ResponsePath
  messagesPath : ResponsePath
  messagePath : Option ResponsePath
  cursorPath : Option ResponsePath

def isObject : Json → Bool
  | .obj _ => true
  | _ => false

section Hooks

variable (rt : PyRuntime)

def nonEmptyStr : Option Json → Option String
  | some (.str s) => if s.isEmpty then none else some s
  | _ => none

/-- The cursor that the last message stands for. -/
def lastMessageId (messages : List Json) : Option String :=
  messages.getLast?.bind fun message => nonEmptyStr (message.field "message_id")

def unexpectedType {α : Type} (path expected : String) : Except HttpExc α :=
  raiseInvalid rt invalidBody
    [("reason", .str "unexpected_type"), ("path", .str path), ("expected", .str expected)]

/-! ### The generic provider -/

def missing {α : Type} (reason : String) : Except HttpExc α :=
  raiseInvalid rt invalidBody [("reason", .str reason)]

def genericParseInit (body : Json) : Except HttpExc String :=
  match nonEmptyStr (body.field "conversation_id") with
  | some id => .ok id
  | none => missing rt "missing_or_invalid:conversation_id"

def genericParsePost (status : Nat) (body : Json) : Except HttpExc PostAck :=
  match body.field "accepted", nonEmptyStr (body.field "message_id") with
  | some (.bool accepted), some messageId =>
    if accepted then .ok ⟨messageId, true, status⟩
    else raiseInvalid rt "POST_NOT_ACCEPTED"
      [("message_id", .str messageId), ("reason", (body.field "reason").getD .null)]
  | _, _ => missing rt "missing_or_invalid:accepted,message_id"

def genericParseGet (status : Nat) (body : Json) : Except HttpExc GetResult :=
  match body.field "messages" with
  | some (.arr messages) =>
    if ¬ messages.all isObject then missing rt "messages_items_not_objects"
    else
      match (body.field "cursor").getD .null with
      | .null => .ok ⟨messages, lastMessageId messages, status⟩
      | .str cursor => .ok ⟨messages, some cursor, status⟩
      | _ => missing rt "invalid:cursor"
  | _ => missing rt "missing_or_invalid:messages"

/-! ### The templated provider -/

/-- The value at the end of the steps, if it is there. -/
def stepsValue : List PathStep → Json → Option Json
  | [], current => some current
  | .index n :: steps, .arr items => items[n]?.bind (stepsValue steps)
  | .index _ :: _, _ => none
  | .key name :: steps, current => (current.field name).bind (stepsValue steps)

/-- `extract_path`. -/
def extractPath (value : Json) (path : ResponsePath) (reportedAs : String) : Except HttpExc Json :=
  match stepsValue path.steps value with
  | some found => .ok found
  | none =>
    raiseInvalid rt invalidBody [("reason", .str "path_not_found"), ("path", .str reportedAs)]

/-- `_as_identifier`. -/
def asIdentifier (value : Json) (path : ResponsePath) : Except HttpExc String :=
  match value with
  | .str s => if s.isEmpty then unexpectedType rt path.text "non-empty string" else .ok s
  | .int n => .ok (toString n)
  | _ => unexpectedType rt path.text "non-empty string"

/-- `_optional_path`. -/
def optionalPath (body : Json) (path : ResponsePath) : Option Json := stepsValue path.steps body

/-- `_optional_identifier`. -/
def optionalIdentifier (body : Json) (path : Option ResponsePath) (fallback : Json) : Json :=
  match path.bind (optionalPath body) with
  | none => fallback
  | some .null => fallback
  | some value => value

variable (options : TemplatedOptions)

def templatedParseInit (body : Json) : Except HttpExc String :=
  match extractPath rt body options.conversationIdPath options.conversationIdPath.text with
  | .error e => .error e
  | .ok value => asIdentifier rt value options.conversationIdPath

/-- The identifier that the posted payload carries. -/
def sentId (payload : Json) : Json := (payload.field "message_id").getD .null

/-- The acknowledgement of a post that is not refused. -/
def templatedAck (status : Nat) (payload body : Json) : Except HttpExc PostAck :=
  match options.messageIdPath with
  | none =>
    match sentId payload with
    | .null => .ok ⟨"", true, status⟩
    | sent => .ok ⟨rt.str sent, true, status⟩
  | some path =>
    match extractPath rt body path path.text with
    | .error e => .error e
    | .ok value =>
      match asIdentifier rt value path with
      | .error e => .error e
      | .ok messageId => .ok ⟨messageId, true, status⟩

def templatedParsePost (status : Nat) (payload body : Json) : Except HttpExc PostAck :=
  match options.acceptedPath with
  | none => templatedAck rt options status payload body
  | some path =>
    match extractPath rt body path path.text with
    | .error e => .error e
    | .ok (.bool true) => templatedAck rt options status payload body
    | .ok (.bool false) =>
      raiseInvalid rt "POST_NOT_ACCEPTED"
        [("path", .str path.text),
          ("message_id", optionalIdentifier body options.messageIdPath (sentId payload))]
    | .ok _ => unexpectedType rt path.text "boolean"

/-- The message of an item of the list, with the path that errors report. -/
def templatedMessage (index : Nat) (item : Json) : Except HttpExc Json :=
  let itemPath := options.messagesPath.text ++ "[" ++ toString index ++ "]"
  match options.messagePath with
  | none => if isObject item then .ok item else unexpectedType rt itemPath "object"
  | some path =>
    match extractPath rt item path (itemPath ++ "." ++ path.text) with
    | .error e => .error e
    | .ok message =>
      if isObject message then .ok message
      else unexpectedType rt (itemPath ++ "." ++ path.text) "object"

/-- The messages of the items, from a given index on. -/
def templatedMessages : Nat → List Json → Except HttpExc (List Json)
  | _, [] => .ok []
  | index, item :: items =>
    match templatedMessage rt options index item with
    | .error e => .error e
    | .ok message =>
      match templatedMessages (index + 1) items with
      | .error e => .error e
      | .ok messages => .ok (message :: messages)

def templatedParseGet (status : Nat) (body : Json) : Except HttpExc GetResult :=
  match extractPath rt body options.messagesPath options.messagesPath.text with
  | .error e => .error e
  | .ok (.arr items) =>
    match templatedMessages rt options 0 items with
    | .error e => .error e
    | .ok messages =>
      match options.cursorPath with
      | none => .ok ⟨messages, lastMessageId messages, status⟩
      | some path =>
        match (optionalPath body path).getD .null with
        | .null => .ok ⟨messages, lastMessageId messages, status⟩
        | .str cursor => .ok ⟨messages, some cursor, status⟩
        | _ => unexpectedType rt path.text "string"
  | .ok _ => unexpectedType rt options.messagesPath.text "array"

end Hooks

/-! ## The operations -/

/-- The providers of the registry that speak HTTP. -/
inductive HttpProvider where
  | generic
  | templated (options : TemplatedOptions)

/-- What is kept out of a url: the bearer token, and for the templated provider the values of the
environment that its templates name. -/
structure Secrets where
  token : Option String
  environment : List String

def maskSecret (url secret : String) : String :=
  if secret.isEmpty then url else url.replace secret "***"

/-- `redact_url`. -/
def redactUrl (p : HttpProvider) (secrets : Secrets) (url : String) : String :=
  let url := maskSecret url (secrets.token.getD "")
  match p with
  | .generic => url
  | .templated _ =>
    (secrets.environment.mergeSort fun a b => b.length ≤ a.length).foldl maskSecret url

inductive Operation where
  | init
  /-- The posted payload. -/
  | post (payload : Json)
  | get
  | close

def Operation.name : Operation → String
  | .init => "INIT"
  | .post _ => "POST"
  | .get => "GET"
  | .close => "CLOSE"

/-- What an operation returns. -/
abbrev Operation.Ans : Operation → Type
  | .init => String
  | .post _ => PostAck
  | .get => GetResult
  | .close => Unit

/-- The hook that reads the reply of an operation. -/
def parseHook (rt : PyRuntime) (p : HttpProvider) (o : Operation) (status : Nat) (body : Json) :
    Except HttpExc o.Ans :=
  match o, p with
  | .init, .generic => genericParseInit rt body
  | .init, .templated options => templatedParseInit rt options body
  | .post _, .generic => genericParsePost rt status body
  | .post payload, .templated options => templatedParsePost rt options status payload body
  | .get, .generic => genericParseGet rt status body
  | .get, .templated options => templatedParseGet rt options status body
  | .close, _ => .ok ()

/-- `_init`, `_post`, `_get` and `_close`, from the response on. -/
def perform (rt : PyRuntime) (now : Int) (p : HttpProvider) (secrets : Secrets) (o : Operation)
    (call : HttpCall) (r : HttpResponse) : Except HttpExc o.Ans :=
  match send rt now (redactUrl p secrets) o.name call r with
  | .error e => .error e
  | .ok body =>
    parsing rt o.name (redactUrl p secrets call.url) r.status (parseHook rt p o r.status body)

end Http

end AgenticLocalApp
