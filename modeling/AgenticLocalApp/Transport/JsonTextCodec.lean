import AgenticLocalApp.Domain.JsonText
import AgenticLocalApp.Execution.Executor

/-!
# Replies that are text

A model that answers with text puts the JSON of its message into prose, or into a Markdown fence.
The first fence is taken off, then the first balanced brackets that are JSON are read.
-/

namespace AgenticLocalApp

namespace JsonTextCodec

/-! ## From text to JSON -/

def tick : Char := Char.ofNat 96

/-- What comes before the first three ticks, and what comes after them. -/
def splitFence : List Char → Option (List Char × List Char)
  | [] => none
  | c :: cs =>
    if [tick, tick, tick].isPrefixOf (c :: cs) then some ([], cs.drop 2)
    else (splitFence cs).map fun p => (c :: p.1, p.2)

/-- `[ \t]` -/
def isTagBlank (c : Char) : Bool := c = ' ' || c = '\t'

/-- `[A-Za-z0-9_+-]` -/
def isTagChar (c : Char) : Bool := c.isAlphanum || c ∈ ['_', '+', '-']

/-- The text without its first character, if it is `c`. -/
def dropChar (c : Char) : List Char → List Char
  | [] => []
  | d :: cs => if d = c then cs else d :: cs

/-- What follows the tag of a fence and the end of its line.  None of this is a tick, so that the
regular expression has no other way to come to the closing ticks. -/
def fenceBody (cs : List Char) : List Char :=
  dropChar '\n' <| dropChar '\r' <|
    ((cs.dropWhile isTagBlank).dropWhile isTagChar).dropWhile isTagBlank

/-- `strip_code_fence`. -/
def stripCodeFence (text : List Char) : List Char :=
  match splitFence text with
  | none => text
  | some (_, rest) =>
    match splitFence (fenceBody rest) with
    | none => text
    | some (body, _) => body

/-- `_CLOSER_OF`. -/
def closerOf (c : Char) : Option Char :=
  if c = '{' then some '}' else if c = '[' then some ']' else none

/-- Where `find_json_spans` stands. -/
structure Scan where
  stack : List (Char × Nat) := []
  inString : Bool := false
  escaped : Bool := false
  position : Nat := 0
  spans : List (Nat × Nat) := []

/-- One character of `find_json_spans`. -/
def Scan.step (s : Scan) (c : Char) : Scan :=
  if s.inString then
    if s.escaped then { s with position := s.position + 1, escaped := false }
    else if c = '\\' then { s with position := s.position + 1, escaped := true }
    else if c = '"' then { s with position := s.position + 1, inString := false }
    else { s with position := s.position + 1 }
  else if c = '"' then { s with position := s.position + 1, inString := !s.stack.isEmpty }
  else
    match closerOf c with
    | some closer =>
      { s with position := s.position + 1, stack := (closer, s.position) :: s.stack }
    | none =>
      if c = '}' ∨ c = ']' then
        match s.stack with
        | [] => { s with position := s.position + 1 }
        | (closer, start) :: rest =>
          if closer ≠ c then { s with position := s.position + 1, stack := [] }
          else if rest.isEmpty then
            { s with
              position := s.position + 1
              stack := []
              spans := s.spans ++ [(start, s.position + 1)] }
          else { s with position := s.position + 1, stack := rest }
      else { s with position := s.position + 1 }

/-- `find_json_spans`. -/
def findJsonSpans (text : List Char) : List (Nat × Nat) := (text.foldl Scan.step {}).spans

/-- `text[start:end]` -/
def slice (text : List Char) (span : Nat × Nat) : List Char :=
  (text.drop span.1).take (span.2 - span.1)

/-- `MAX_JSON_CANDIDATES`. -/
def maxJsonCandidates : Nat := 64

/-- Why a text carries no usable JSON. -/
structure UnparseableText where
  reason : String
  details : List (String × Json) := []

section Loads

/- `json.loads`; an error is the message of its exception. -/
variable (loads : List Char → Except String Json)

def firstLoaded (text : List Char) : (spans : List (Nat × Nat)) → (firstError : Option String) →
    Except UnparseableText Json
  | [], firstError => .error ⟨"json_invalid", [("error", firstError.elim .null .str)]⟩
  | span :: spans, firstError =>
    match loads (slice text span) with
    | .ok document => .ok document
    | .error message => firstLoaded text spans (firstError.or (some message))

/-- `extract_first_json`. -/
def extractFirstJson (text : List Char) : Except UnparseableText Json :=
  if (findJsonSpans text).isEmpty then
    if text.any fun c => (closerOf c).isSome then .error ⟨"json_unbalanced", []⟩
    else .error ⟨"no_json_found", []⟩
  else firstLoaded loads text ((findJsonSpans text).take maxJsonCandidates) none

/-- `parse_strict`. -/
def parseStrict (text : List Char) : Except UnparseableText Json :=
  match loads (strip (.ofList text)).toList with
  | .ok document => .ok document
  | .error message => .error ⟨"json_invalid", [("error", .str message)]⟩

end Loads

/-! ## The options -/

inductive PathStep where
  | key (k : String)
  | index (n : Nat)

/-- A path as it is written, and what `parse_path` makes of it. -/
structure ResponsePath where
  text : String
  steps : List PathStep

/-- `extract_path`. -/
def extractPath : Json → List PathStep → Option Json
  | value, [] => some value
  | .arr items, .index n :: steps => items[n]?.bind fun item => extractPath item steps
  | .obj fields, .key k :: steps => (fields.lookup k).bind fun value => extractPath value steps
  | _, _ :: _ => none

inductive OutboundForm where
  | object | text
  deriving DecidableEq, Repr

/-- `JsonTextOptions`. -/
structure Options where
  contentPath : Option ResponsePath := none
  stripCodeFences : Bool := true
  extractFirstJsonObject : Bool := true
  idPath : Option ResponsePath := none
  conversationIdFallback : Bool := true
  outbound : OutboundForm := .object

/-! ## The codec -/

/-- `EXCERPT_CHARS`. -/
def excerptChars : Nat := 500

/-- `excerpt_of`. -/
def excerptOf (raw : Json) : String :=
  match raw with
  | .str s => .ofList (s.toList.take excerptChars)
  | raw => .ofList (raw.canonical.take excerptChars)

/-- The details of a `CodecError`, which is an `UNPARSEABLE_REPLY`. -/
structure CodecError where
  codec : String := "json_text"
  index : Nat
  excerpt : String
  reason : String
  details : List (String × Json)

/-- `error`. -/
def codecError (index : Nat) (raw : Json) (reason : String) (details : List (String × Json)) :
    CodecError :=
  { index := index, excerpt := excerptOf raw, reason := reason, details := details }

abbrev Envelope := List (String × Json)

/-- `_missing`. -/
def missing : Option Json → Bool
  | none => true
  | some .null => true
  | some (.str s) => s = ""
  | some _ => false

/-- `d[k] = v` -/
def setField (k : String) (v : Json) : Envelope → Envelope
  | [] => [(k, v)]
  | f :: rest => if f.1 = k then (k, v) :: rest else f :: setField k v rest

section Codec

variable (loads : List Char → Except String Json) (options : Options) (index : Nat) (raw : Json)

/-- `_text_of`. -/
def textOf : Except CodecError (List Char) :=
  match options.contentPath with
  | none =>
    match raw with
    | .str s => .ok s.toList
    | _ => .error (codecError index raw "unexpected_type" [("expected", .str "string")])
  | some path =>
    match extractPath raw path.steps with
    | none => .error (codecError index raw "path_not_found" [("path", .str path.text)])
    | some (.str s) => .ok s.toList
    | some _ => .error (codecError index raw "unexpected_type"
        [("path", .str path.text), ("expected", .str "string")])

/-- `_json_of`. -/
def jsonOf (text : List Char) : Except CodecError Json :=
  let text := if options.stripCodeFences then stripCodeFence text else text
  let document :=
    if options.extractFirstJsonObject then extractFirstJson loads text else parseStrict loads text
  document.mapError fun e => codecError index raw e.reason e.details

/-- The message id of an envelope without one. -/
def completeMessageId (envelope : Envelope) : Except CodecError Envelope :=
  match options.idPath with
  | none => .ok envelope
  | some path =>
    if missing (envelope.lookup "message_id") then
      match extractPath raw path.steps with
      | none => .error (codecError index raw "path_not_found" [("path", .str path.text)])
      | some (.int n) => .ok (setField "message_id" (.str (toString n)) envelope)
      | some value =>
        match value with
        | .str s =>
          if s = "" then .error (codecError index raw "unexpected_type"
            [("path", .str path.text), ("expected", .str "identifier")])
          else .ok (setField "message_id" (.str s) envelope)
        | _ => .error (codecError index raw "unexpected_type"
            [("path", .str path.text), ("expected", .str "identifier")])
    else .ok envelope

/-- `complete_envelope`. -/
def completeEnvelope (envelope : Envelope) : Except CodecError Envelope := do
  let envelope ← completeMessageId options index raw envelope
  if missing (envelope.lookup "conversation_id") ∧ ¬ options.conversationIdFallback then
    .error (codecError index raw "missing_conversation_id" [])
  else .ok envelope

/-- The items of a document, which are numbered. -/
def completeItems : (element : Nat) → List Json → Except CodecError (List Envelope)
  | _, [] => .ok []
  | element, .obj envelope :: items => do
    let first ← completeEnvelope options index raw envelope
    let rest ← completeItems (element + 1) items
    return first :: rest
  | element, _ :: _ => .error (codecError index raw "unexpected_type"
      [("expected", .str "object"), ("element", .int element)])

/-- `envelopes_of`. -/
def envelopesOf (document : Json) : Except CodecError (List Envelope) :=
  match document with
  | .obj envelope => completeItems options index raw 0 [.obj envelope]
  | .arr items => completeItems options index raw 0 items
  | _ => .error (codecError index raw "unexpected_type" [("expected", .str "object or array")])

/-- The envelopes of one raw message. -/
def decodeOne : Except CodecError (List Envelope) := do
  let text ← textOf options index raw
  let document ← jsonOf loads options index raw text
  envelopesOf options index raw document

/-- `decode_inbound`, from the raw message of an index on. -/
def decodeFrom : (index : Nat) → (rawMessages : List Json) → Except CodecError (List Envelope)
  | _, [] => .ok []
  | index, raw :: rest => do
    let first ← decodeOne loads options index raw
    let others ← decodeFrom (index + 1) rest
    return first ++ others

/-- `decode_inbound`. -/
def decodeInbound (rawMessages : List Json) : Except CodecError (List Envelope) :=
  decodeFrom loads options 0 rawMessages

/-- `encode_outbound`. -/
def encodeOutbound (payload : Envelope) : Json :=
  match options.outbound with
  | .text => .str (.ofList (Json.obj payload).canonical)
  | .object => .obj payload

end Codec

end JsonTextCodec

end AgenticLocalApp
