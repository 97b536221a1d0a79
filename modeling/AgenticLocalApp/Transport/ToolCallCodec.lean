import AgenticLocalApp.Library.Program
import AgenticLocalApp.Transport.JsonTextCodec

/-!
# Replies that call a tool

The model answers by calling a tool, whose arguments are the message: an object, or a text that is
the JSON of it.  What is decoded is what the model has written, but for a message id that it left
out, and an error names the first item that cannot be read.
-/

namespace AgenticLocalApp

namespace ToolCallCodec

open JsonTextCodec

abbrev Envelope := JsonTextCodec.Envelope

/-- `ToolCallOptions`. -/
structure ToolCallOptions where
  argumentsPath : ResponsePath := ⟨"arguments", [.key "arguments"]⟩
  namePath : Option ResponsePath := none
  toolName : Option String := none
  idPath : Option ResponsePath := none
  conversationIdFallback : Bool := true
  outbound : OutboundForm := .object

/-- What `envelopes_of` reads of the options. -/
def ToolCallOptions.envelopes (options : ToolCallOptions) : Options :=
  { idPath := options.idPath, conversationIdFallback := options.conversationIdFallback }

def labelled (e : CodecError) : CodecError := { e with codec := "tool_call" }

/-- `error`. -/
def toolError (index : Nat) (raw : Json) (reason : String) (details : List (String × Json)) :
    CodecError :=
  labelled (codecError index raw reason details)

section Codec

-- `json.loads`, and `str` of a value
variable (loads : List Char → Except String Json) (pyStr : Json → String)
  (options : ToolCallOptions) (index : Nat) (raw : Json)

/-- `_at`. -/
def valueAt (path : ResponsePath) : Except CodecError Json :=
  match extractPath raw path.steps with
  | some value => .ok value
  | none => .error (toolError index raw "path_not_found" [("path", .str path.text)])

/-- What an error says of the tool that was called. -/
def receivedTool (received : Json) : Json :=
  match received with
  | .str _ | .int _ | .float _ | .bool _ => received
  | .null | .arr _ | .obj _ => .str (pyStr received)

/-- `received == tool_name`. -/
def isNamed (name : String) : Json → Bool
  | .str s => s = name
  | _ => false

/-- `_check_tool`. -/
def checkTool : Except CodecError Unit :=
  match options.namePath, options.toolName with
  | some path, some name => do
    let received ← valueAt index raw path
    if isNamed name received then return
    else .error (toolError index raw "unexpected_tool"
      [("path", .str path.text), ("expected", .str name),
        ("received", receivedTool pyStr received)])
  | _, _ => return

/-- `_arguments_of`. -/
def argumentsOf : Except CodecError Json := do
  let path := options.argumentsPath
  match ← valueAt index raw path with
  | .obj fields => return .obj fields
  | .str text =>
    (parseStrict loads text.toList).mapError fun e =>
      toolError index raw e.reason (("path", .str path.text) :: e.details)
  | _ => .error (toolError index raw "unexpected_type"
      [("path", .str path.text), ("expected", .str "string or object")])

/-- The envelopes of one raw item. -/
def decodeOne : Except CodecError (List Envelope) := do
  checkTool pyStr options index raw
  let document ← argumentsOf loads options index raw
  (envelopesOf options.envelopes index raw document).mapError labelled

/-- `decode_inbound`, from the raw item of an index on. -/
def decodeFrom : (index : Nat) → (rawMessages : List Json) → Except CodecError (List Envelope)
  | _, [] => .ok []
  | index, raw :: rest => do
    let first ← decodeOne loads pyStr options index raw
    let others ← decodeFrom (index + 1) rest
    return first ++ others

/-- `decode_inbound`. -/
def decodeInbound (rawMessages : List Json) : Except CodecError (List Envelope) :=
  decodeFrom loads pyStr options 0 rawMessages

/-- `encode_outbound`. -/
def encodeOutbound (payload : Envelope) : Json :=
  JsonTextCodec.encodeOutbound { outbound := options.outbound } payload

end Codec

/-! ## What an item carries -/

section Carries

variable {loads : List Char → Except String Json} {pyStr : Json → String}
  {options : ToolCallOptions} {index : Nat} {raw : Json}

/-- The text or the number at the path, as an identifier. -/
def IdAt (raw : Json) (path : ResponsePath) (text : String) : Prop :=
  extractPath raw path.steps = some (.str text) ∨
    ∃ n : Int, extractPath raw path.steps = some (.int n) ∧ text = toString n

/-- A message id that is missing is taken from the item, and nothing else is changed. -/
def IdCompleted (idPath : Option ResponsePath) (raw : Json) (fields envelope : Envelope) : Prop :=
  (missing (fields.lookup "message_id") = false ∨ idPath = none) ∧ envelope = fields ∨
    missing (fields.lookup "message_id") = true ∧ ∃ path text, idPath = some path ∧ text ≠ "" ∧
      IdAt raw path text ∧ envelope = setField "message_id" (.str text) fields

/-- The envelope is the object that the model wrote, with the id of the item if it has none. -/
def Completed (options : ToolCallOptions) (raw item : Json) (envelope : Envelope) : Prop :=
  (∃ fields, item = .obj fields ∧ IdCompleted options.idPath raw fields envelope) ∧
    (missing (envelope.lookup "conversation_id") = true → options.conversationIdFallback = true)

/-- What the arguments of the call are, as an object or as the text of any JSON. -/
def Arguments (loads : List Char → Except String Json) (options : ToolCallOptions)
    (raw document : Json) : Prop :=
  extractPath raw options.argumentsPath.steps = some document ∧
      (∃ fields, document = .obj fields) ∨
    ∃ text, extractPath raw options.argumentsPath.steps = some (.str text) ∧
      loads (strip text).toList = .ok document

/-- The item calls the tool, and these are the envelopes in the arguments of the call. -/
def Carries (loads : List Char → Except String Json) (options : ToolCallOptions) (raw : Json)
    (envelopes : List Envelope) : Prop :=
  (∀ path name, options.namePath = some path → options.toolName = some name →
      extractPath raw path.steps = some (.str name)) ∧
    ∃ document, Arguments loads options raw document ∧ ∃ items,
      (document = .arr items ∨ items = [document]) ∧
        List.Forall₂ (Completed options raw) items envelopes

theorem valueAt_ok {path : ResponsePath} {value : Json} :
    valueAt index raw path = .ok value ↔ extractPath raw path.steps = some value := by
  unfold valueAt
  cases extractPath raw path.steps with
  | none => simp
  | some found => simp

theorem checkTool_ok : checkTool pyStr options index raw = .ok () ↔
    ∀ path name, options.namePath = some path → options.toolName = some name →
      extractPath raw path.steps = some (.str name) := by
  unfold checkTool
  split
  · rename_i path name hpath hname
    rw [hpath, hname, Prog.bind_eq_ok]
    constructor
    · rintro ⟨received, hreceived, h⟩ path' name' hpath' hname'
      cases hpath'
      cases hname'
      rw [valueAt_ok.1 hreceived]
      cases received with
      | str s =>
        by_cases hs : s = name
        · rw [hs]
        · simp [isNamed, hs] at h
      | _ => simp [isNamed] at h
    · intro h
      refine ⟨.str name, valueAt_ok.2 (h path name rfl rfl), ?_⟩
      simp [isNamed, pure, Except.pure]
  · rename_i hnone
    exact iff_of_true rfl fun path name hpath hname => absurd hname (hnone path name hpath)

theorem argumentsOf_ok {document : Json} : argumentsOf loads options index raw = .ok document ↔
    Arguments loads options raw document := by
  unfold argumentsOf Arguments
  rw [Prog.bind_eq_ok]
  constructor
  · rintro ⟨arguments, harguments, h⟩
    have hfound := valueAt_ok.1 harguments
    cases arguments with
    | obj fields =>
      cases h
      exact .inl ⟨hfound, fields, rfl⟩
    | str text =>
      refine .inr ⟨text, hfound, ?_⟩
      dsimp only at h
      unfold parseStrict at h
      rw [String.ofList_toList] at h
      cases hloads : loads (strip text).toList with
      | ok loaded =>
        rw [hloads] at h
        cases h
        rfl
      | error message =>
        rw [hloads] at h
        cases h
    | _ => cases h
  · rintro (⟨hfound, fields, rfl⟩ | ⟨text, hfound, hloads⟩)
    · exact ⟨_, valueAt_ok.2 hfound, rfl⟩
    · refine ⟨_, valueAt_ok.2 hfound, ?_⟩
      dsimp only
      unfold parseStrict
      rw [String.ofList_toList, hloads]
      rfl

theorem int_repr_ne_empty (n : Int) : n.repr ≠ "" := by
  cases n with
  | ofNat n => exact Nat.repr_ne_empty
  | negSucc n =>
    intro h
    have hlist := congrArg String.toList h
    simp [Int.repr] at hlist

theorem completeMessageId_ok {o : Options} {fields envelope : Envelope} :
    completeMessageId o index raw fields = .ok envelope ↔
      IdCompleted o.idPath raw fields envelope := by
  unfold completeMessageId IdCompleted
  have hcomm : ∀ e e' : Envelope, (Except.ok e : Except CodecError Envelope) = .ok e' ↔ e' = e :=
    fun e e' => ⟨fun h => (Except.ok.inj h).symm, fun h => h ▸ rfl⟩
  cases o.idPath with
  | none => simp [hcomm]
  | some path =>
    dsimp only
    by_cases hmissing : missing (fields.lookup "message_id") = true
    · rw [if_pos hmissing]
      unfold IdAt
      cases hfound : extractPath raw path.steps with
      | none => simp [hmissing, hfound]
      | some value =>
        cases value with
        | int n =>
          simp [hmissing, hfound, hcomm, int_repr_ne_empty n]
        | str s =>
          by_cases hs : s = ""
          · simp [hmissing, hfound, hs]
          · simp [hmissing, hfound, hs, hcomm]
        | _ => simp [hmissing, hfound]
    · rw [if_neg hmissing]
      simp [hmissing, hcomm]

theorem completeEnvelope_ok {fields envelope : Envelope} :
    completeEnvelope options.envelopes index raw fields = .ok envelope ↔
      Completed options raw (.obj fields) envelope := by
  unfold completeEnvelope Completed
  rw [Prog.bind_eq_ok]
  have hfallback : options.envelopes.conversationIdFallback = options.conversationIdFallback := rfl
  constructor
  · rintro ⟨completed, hcompleted, h⟩
    split at h
    · cases h
    · rename_i hconversation
      cases h
      refine ⟨⟨fields, rfl, completeMessageId_ok.1 hcompleted⟩, fun hmissing => ?_⟩
      rw [hfallback] at hconversation
      by_contra hno
      exact hconversation ⟨hmissing, hno⟩
  · rintro ⟨⟨fields', hfields, hcompleted⟩, hconversation⟩
    cases hfields
    refine ⟨envelope, completeMessageId_ok.2 hcompleted, ?_⟩
    rw [hfallback, if_neg fun h => h.2 (hconversation h.1)]

theorem completeItems_ok {element : Nat} {items : List Json} {envelopes : List Envelope} :
    completeItems options.envelopes index raw element items = .ok envelopes ↔
      List.Forall₂ (Completed options raw) items envelopes := by
  induction items generalizing element envelopes with
  | nil =>
    rw [completeItems, List.forall₂_nil_left_iff]
    exact ⟨fun h => (Except.ok.inj h).symm, fun h => h ▸ rfl⟩
  | cons item items ih =>
    cases item with
    | obj fields =>
      rw [completeItems, Prog.bind_eq_ok, List.forall₂_cons_left_iff]
      constructor
      · rintro ⟨first, hfirst, h⟩
        obtain ⟨rest, hrest, h⟩ := Prog.bind_eq_ok.1 h
        cases h
        exact ⟨first, rest, completeEnvelope_ok.1 hfirst, ih.1 hrest, rfl⟩
      · rintro ⟨first, rest, hfirst, hrest, rfl⟩
        exact ⟨first, completeEnvelope_ok.2 hfirst,
          Prog.bind_eq_ok.2 ⟨rest, ih.2 hrest, rfl⟩⟩
    | _ =>
      rw [List.forall₂_cons_left_iff]
      constructor
      · intro h
        cases h
      · rintro ⟨first, rest, ⟨⟨fields, hfields, -⟩, -⟩, -⟩
        cases hfields

theorem decodeOne_ok {envelopes : List Envelope} :
    decodeOne loads pyStr options index raw = .ok envelopes ↔
      Carries loads options raw envelopes := by
  have hlabel : ∀ r : Except CodecError (List Envelope),
      r.mapError labelled = .ok envelopes ↔ r = .ok envelopes := by
    intro r
    cases r with
    | ok found => rfl
    | error e => exact iff_of_false (fun h => by cases h) fun h => by cases h
  unfold decodeOne Carries
  rw [Prog.bind_eq_ok]
  constructor
  · rintro ⟨⟨⟩, htool, h⟩
    obtain ⟨document, harguments, h⟩ := Prog.bind_eq_ok.1 h
    refine ⟨checkTool_ok.1 htool, document, argumentsOf_ok.1 harguments, ?_⟩
    rw [hlabel] at h
    unfold envelopesOf at h
    split at h
    · exact ⟨_, .inr rfl, completeItems_ok.1 h⟩
    · exact ⟨_, .inl rfl, completeItems_ok.1 h⟩
    · cases h
  · rintro ⟨htool, document, harguments, items, hitems, hcompleted⟩
    refine ⟨(), checkTool_ok.2 htool,
      Prog.bind_eq_ok.2 ⟨document, argumentsOf_ok.2 harguments, (hlabel _).2 ?_⟩⟩
    rcases hitems with rfl | rfl
    · exact completeItems_ok.2 hcompleted
    · obtain ⟨first, rest, ⟨⟨fields, rfl, -⟩, -⟩, -⟩ := List.forall₂_cons_left_iff.1 hcompleted
      exact completeItems_ok.2 hcompleted

/-! ## Errors -/

theorem bind_eq_error {ε α β : Type} {x : Except ε α} {f : α → Except ε β} {e : ε}
    (h : (x >>= f) = .error e) : x = .error e ∨ ∃ a, f a = .error e := by
  cases x with
  | error e' =>
    cases h
    exact .inl rfl
  | ok a => exact .inr ⟨a, h⟩

/-- The error quotes the item. -/
def Quotes (index : Nat) (raw : Json) (e : CodecError) : Prop :=
  e.index = index ∧ e.excerpt = excerptOf raw

theorem completeMessageId_error {o : Options} {fields : Envelope} {e : CodecError}
    (h : completeMessageId o index raw fields = .error e) : Quotes index raw e := by
  unfold completeMessageId at h
  split at h
  · cases h
  · split at h
    · split at h
      · cases h
        exact ⟨rfl, rfl⟩
      · cases h
      · split at h
        · split at h
          · cases h
            exact ⟨rfl, rfl⟩
          · cases h
        · cases h
          exact ⟨rfl, rfl⟩
    · cases h

theorem completeEnvelope_error {o : Options} {fields : Envelope} {e : CodecError}
    (h : completeEnvelope o index raw fields = .error e) : Quotes index raw e := by
  unfold completeEnvelope at h
  rcases bind_eq_error h with h | ⟨completed, h⟩
  · exact completeMessageId_error h
  · split at h
    · cases h
      exact ⟨rfl, rfl⟩
    · cases h

theorem completeItems_error {o : Options} {element : Nat} {items : List Json} {e : CodecError}
    (h : completeItems o index raw element items = .error e) : Quotes index raw e := by
  induction items generalizing element with
  | nil => cases h
  | cons item items ih =>
    cases item with
    | obj fields =>
      rw [completeItems] at h
      rcases bind_eq_error h with h | ⟨first, h⟩
      · exact completeEnvelope_error h
      · rcases bind_eq_error h with h | ⟨rest, h⟩
        · exact ih h
        · cases h
    | _ =>
      cases h
      exact ⟨rfl, rfl⟩

theorem envelopesOf_error {o : Options} {document : Json} {e : CodecError}
    (h : envelopesOf o index raw document = .error e) : Quotes index raw e := by
  unfold envelopesOf at h
  split at h
  · exact completeItems_error h
  · exact completeItems_error h
  · cases h
    exact ⟨rfl, rfl⟩

theorem valueAt_error {path : ResponsePath} {e : CodecError}
    (h : valueAt index raw path = .error e) : Quotes index raw e ∧ e.codec = "tool_call" := by
  unfold valueAt at h
  split at h
  · cases h
  · cases h
    exact ⟨⟨rfl, rfl⟩, rfl⟩

theorem checkTool_error {e : CodecError} (h : checkTool pyStr options index raw = .error e) :
    Quotes index raw e ∧ e.codec = "tool_call" := by
  unfold checkTool at h
  split at h
  · rcases bind_eq_error h with h | ⟨received, h⟩
    · exact valueAt_error h
    · split at h
      · cases h
      · cases h
        exact ⟨⟨rfl, rfl⟩, rfl⟩
  · cases h

theorem argumentsOf_error {e : CodecError} (h : argumentsOf loads options index raw = .error e) :
    Quotes index raw e ∧ e.codec = "tool_call" := by
  unfold argumentsOf at h
  rcases bind_eq_error h with h | ⟨arguments, h⟩
  · exact valueAt_error h
  · split at h
    · cases h
    · rename_i text
      cases hparse : parseStrict loads text.toList with
      | ok document =>
        rw [hparse] at h
        cases h
      | error unparseable =>
        rw [hparse] at h
        cases h
        exact ⟨⟨rfl, rfl⟩, rfl⟩
    · cases h
      exact ⟨⟨rfl, rfl⟩, rfl⟩

theorem decodeOne_error {e : CodecError}
    (h : decodeOne loads pyStr options index raw = .error e) :
    Quotes index raw e ∧ e.codec = "tool_call" := by
  unfold decodeOne at h
  rcases bind_eq_error h with h | ⟨-, h⟩
  · exact checkTool_error h
  rcases bind_eq_error h with h | ⟨document, h⟩
  · exact argumentsOf_error h
  · cases henvelopes : envelopesOf options.envelopes index raw document with
    | ok envelopes =>
      rw [henvelopes] at h
      cases h
    | error e' =>
      rw [henvelopes] at h
      cases h
      obtain ⟨hindex, hexcerpt⟩ := envelopesOf_error henvelopes
      exact ⟨⟨hindex, hexcerpt⟩, rfl⟩

/-! ## All items -/

theorem decodeFrom_ok {raws : List Json} {envelopes : List Envelope} :
    decodeFrom loads pyStr options index raws = .ok envelopes ↔
      ∃ parts, List.Forall₂ (Carries loads options) raws parts ∧ envelopes = parts.flatten := by
  induction raws generalizing index envelopes with
  | nil =>
    constructor
    · intro h
      cases h
      exact ⟨[], .nil, rfl⟩
    · rintro ⟨parts, hparts, rfl⟩
      cases hparts
      rfl
  | cons raw raws ih =>
    rw [decodeFrom, Prog.bind_eq_ok]
    constructor
    · rintro ⟨first, hfirst, h⟩
      obtain ⟨others, hothers, h⟩ := Prog.bind_eq_ok.1 h
      obtain ⟨parts, hparts, rfl⟩ := ih.1 hothers
      cases h
      exact ⟨first :: parts, .cons (decodeOne_ok.1 hfirst) hparts, List.flatten_cons.symm⟩
    · rintro ⟨parts, hparts, rfl⟩
      obtain ⟨first, rest, hfirst, hrest, rfl⟩ := List.forall₂_cons_left_iff.1 hparts
      exact ⟨first, decodeOne_ok.2 hfirst,
        Prog.bind_eq_ok.2 ⟨rest.flatten, ih.2 ⟨rest, hrest, rfl⟩, by rw [List.flatten_cons]; rfl⟩⟩

theorem decodeFrom_error {raws : List Json} {e : CodecError}
    (h : decodeFrom loads pyStr options index raws = .error e) :
    ∃ before raw after parts, raws = before ++ raw :: after ∧
      List.Forall₂ (Carries loads options) before parts ∧
      (¬∃ envelopes, Carries loads options raw envelopes) ∧
      Quotes (index + before.length) raw e ∧ e.codec = "tool_call" := by
  induction raws generalizing index with
  | nil => cases h
  | cons raw raws ih =>
    rw [decodeFrom] at h
    cases hfirst : decodeOne loads pyStr options index raw with
    | error e' =>
      rw [hfirst] at h
      cases h
      refine ⟨[], raw, raws, [], rfl, .nil, ?_, decodeOne_error hfirst⟩
      rintro ⟨envelopes, hcarries⟩
      rw [decodeOne_ok.2 hcarries] at hfirst
      cases hfirst
    | ok first =>
      rw [hfirst] at h
      rcases bind_eq_error (x := decodeFrom loads pyStr options (index + 1) raws) h
        with h | ⟨others, h⟩
      · obtain ⟨before, bad, after, parts, rfl, hparts, hbad, hquotes, hcodec⟩ := ih h
        refine ⟨raw :: before, bad, after, first :: parts, rfl,
          .cons (decodeOne_ok.1 hfirst) hparts, hbad, ?_, hcodec⟩
        rw [List.length_cons, Nat.add_comm before.length, ← Nat.add_assoc]
        exact hquotes
      · cases h

/-- Decoding succeeds just when every item calls the tool with envelopes in its arguments, and gives
them all, in order, as they were written.  Otherwise the error names and quotes the first item
that does not, whatever is behind it. -/
theorem decoded_is_carried (loads : List Char → Except String Json) (pyStr : Json → String)
    (options : ToolCallOptions) (raws : List Json) :
    (∀ envelopes, decodeInbound loads pyStr options raws = .ok envelopes ↔
      ∃ parts, List.Forall₂ (Carries loads options) raws parts ∧ envelopes = parts.flatten) ∧
    ∀ e, decodeInbound loads pyStr options raws = .error e →
      ∃ before raw after parts, raws = before ++ raw :: after ∧
        List.Forall₂ (Carries loads options) before parts ∧
        (¬∃ envelopes, Carries loads options raw envelopes) ∧
        e.index = before.length ∧ e.excerpt = excerptOf raw ∧ e.codec = "tool_call" := by
  refine ⟨fun envelopes => decodeFrom_ok, fun e h => ?_⟩
  obtain ⟨before, raw, after, parts, hraws, hparts, hbad, ⟨hindex, hexcerpt⟩, hcodec⟩ :=
    decodeFrom_error h
  exact ⟨before, raw, after, parts, hraws, hparts, hbad, by rw [hindex, Nat.zero_add], hexcerpt,
    hcodec⟩

/-- The call of a tool, with an id of its own. -/
def sampleCall (arguments : Json) : Json := .obj [("id", .int 7), ("arguments", arguments)]

/-- An item without a message id is given that of the call, and one without arguments stops the
decoding. -/
theorem decoded_is_carried_sample :
    let options : ToolCallOptions := { idPath := some ⟨"id", [.key "id"]⟩ }
    let loads := fun _ => Except.error "Expecting value"
    let good := sampleCall (.obj [("conversation_id", .str "c")])
    (∃ parts, List.Forall₂ (Carries loads options) [good, good] parts ∧
      [[("conversation_id", .str "c"), ("message_id", .str "7")],
        [("conversation_id", .str "c"), ("message_id", .str "7")]] = parts.flatten) ∧
    ∃ before raw after parts, [good, sampleCall .null, good] = before ++ raw :: after ∧
      List.Forall₂ (Carries loads options) before parts ∧
      (¬∃ envelopes, Carries loads options raw envelopes) ∧
      1 = before.length ∧ excerptOf (sampleCall .null) = excerptOf raw := by
  intro options loads good
  have hspec := decoded_is_carried loads (fun _ => "") options
  obtain ⟨before, raw, after, parts, hraws, hparts, hbad, hindex, hexcerpt, -⟩ :=
    (hspec [good, sampleCall .null, good]).2 (toolError 1 (sampleCall .null) "unexpected_type"
      [("path", .str "arguments"), ("expected", .str "string or object")]) rfl
  exact ⟨((hspec [good, good]).1 _).1 rfl, before, raw, after, parts, hraws, hparts, hbad, hindex,
    hexcerpt⟩

end Carries

end ToolCallCodec

end AgenticLocalApp
