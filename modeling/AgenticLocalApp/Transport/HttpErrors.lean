import AgenticLocalApp.Domain.JsonText
import AgenticLocalApp.Shell.CountTexts
import AgenticLocalApp.Transport.HttpBase

/-!
# What leaves an HTTP provider

An operation returns its value or raises a `TransportError` that says which call failed, except on
the replies that the charset, the decoder, the number of seconds, the date or the `repr` of a quoted
value do not survive.
-/

namespace AgenticLocalApp

namespace Http

variable {rt : PyRuntime}

/-- The error says which call failed. -/
structure Stamped (operation url : String) (status : Nat) (error : NormalizedError) : Prop where
  operation : error.details.lookup "operation" = some (.str operation)
  httpStatus : error.details.lookup "http_status" = some (.int status)
  url : error.details.lookup "url" = some (.str url)

/-- A value, or a stamped `TransportError`. -/
def Settled {α : Type} (operation url : String) (status : Nat) (result : Except HttpExc α) : Prop :=
  ∀ e, result = .error e → ∃ error, e = .transport error ∧ Stamped operation url status error

/-- `int` accepts the seconds, or `parsedate_to_datetime` returns or refuses; and the milliseconds
have a text. -/
def RetryAfterReadable (rt : PyRuntime) (now : Int) : Option Text → Prop
  | none => True
  | some value =>
    let value := stripChars isBlankChar value
    if rt.unicode.isDigitText value then
      ∃ seconds, rt.unicode.int value = .ok seconds ∧
        rt.reprFails (.int ((seconds * 1000 : Nat) : Int)) = none
    else
      match rt.parseDate value with
      | .refused => True
      | .other _ => False
      | .date micros utcOffset =>
        rt.reprFails (.int (max 0 (rt.totalMs (micros - utcOffset.getD 0 - now))).toNat) = none

/-- The body that the hooks read. -/
def replyBody (call : HttpCall) (r : HttpResponse) : Option Json :=
  if call.parseJson then r.json.toOption else some .null

/-- The value of the reply, other than a text, that the refusal of a post quotes. -/
def quotedOnRefusal (p : HttpProvider) (o : Operation) (body : Json) : Option Json :=
  match o, p with
  | .post _, .generic =>
    match body.field "accepted", nonEmptyStr (body.field "message_id") with
    | some (.bool false), some _ => some ((body.field "reason").getD .null)
    | _, _ => none
  | .post payload, .templated options =>
    match options.acceptedPath.bind (optionalPath body) with
    | some (.bool false) => some (optionalIdentifier body options.messageIdPath (sentId payload))
    | _ => none
  | _, _ => none

/-- Nothing on the way of the reply raises an exception that the provider does not expect. -/
structure Survives (rt : PyRuntime) (now : Int) (p : HttpProvider) (o : Operation) (call : HttpCall)
    (r : HttpResponse) : Prop where
  decodes : r.status ∈ call.expectedStatuses → call.parseJson = true →
    ∀ name, r.json ≠ .error (.other name)
  quotesBody : (r.status ∉ call.expectedStatuses ∨
    call.parseJson = true ∧ r.json = .error .valueError) → ∀ name, r.text ≠ .error name
  refusalDecodes : r.status ∉ call.expectedStatuses → 400 ≤ r.status → r.status < 500 →
    ∀ body ∈ r.text.toOption, ∀ name, rt.loads body ≠ .error (.other name)
  retryAfter : r.status ∉ call.expectedStatuses → r.status = 429 →
    ∀ body ∈ r.text.toOption, contextWindowExceeded (rt.loads body).toOption = false →
    RetryAfterReadable rt now r.retryAfter
  quoted : r.status ∈ call.expectedStatuses → ∀ body ∈ replyBody call r,
    ∀ value ∈ quotedOnRefusal p o body, rt.reprFails value = none

/-! ## Details -/

theorem detailsFail_eq_none {details : List (String × Json)} :
    detailsFail rt details = none ↔ ∀ item ∈ details, rt.reprFails item.2 = none :=
  List.findSome?_eq_none_iff

theorem transportError_of_renders {errorType : ErrorType} {code : String} {retryable : Bool}
    {details : List (String × Json)} (h : ∀ item ∈ details, rt.reprFails item.2 = none) :
    transportError rt errorType code retryable details =
      .ok (mkError errorType code "TransportGateway" details .high retryable) := by
  unfold transportError
  rw [detailsFail_eq_none.2 h]

/-- An error that can be told, or an exception of another class. -/
def Classified (rt : PyRuntime) : Except HttpExc NormalizedError → Prop
  | .ok error => ∀ item ∈ error.details, rt.reprFails item.2 = none
  | .error e => ∃ name, e = .other name

theorem transportError_classified {errorType : ErrorType} {code : String} {retryable : Bool}
    {details : List (String × Json)} :
    Classified rt (transportError rt errorType code retryable details) := by
  unfold transportError
  cases hfail : detailsFail rt details with
  | some name => exact ⟨name, rfl⟩
  | none => exact detailsFail_eq_none.1 hfail

theorem transportError_ok_iff {errorType : ErrorType} {code : String} {retryable : Bool}
    {details : List (String × Json)} :
    (∃ error, transportError rt errorType code retryable details = .ok error) ↔
      ∀ item ∈ details, rt.reprFails item.2 = none := by
  rw [← detailsFail_eq_none]
  unfold transportError
  cases detailsFail rt details <;> simp

/-- A status has three digits, and so a text. -/
theorem stamp_renders (operation url : String) {status : Nat} (h : status < 1000) :
    ∀ item ∈ stamp operation url status, rt.reprFails item.2 = none := by
  have hdigits : (Nat.toDigits 10 (status : Int).natAbs).length ≤ intMaxStrDigits :=
    ((Nat.length_toDigits_le_iff (by decide) (by decide : 0 < 3)).2 h).trans (by decide)
  simp only [stamp, List.forall_mem_cons]
  exact ⟨rt.reprFails_str _, (rt.reprFails_int _).2 hdigits, rt.reprFails_str _,
    fun item hmem => absurd hmem List.not_mem_nil⟩

theorem stamped_append {operation url : String} {status : Nat} {kept details : List (String × Json)}
    {error : NormalizedError}
    (hkept : ∀ item ∈ kept, item.1 ∉ (stamp operation url status).map Prod.fst)
    (h : error.details = kept ++ stamp operation url status ++ details) :
    Stamped operation url status error := by
  have hskip : ∀ k ∈ (stamp operation url status).map Prod.fst, kept.lookup k = none := by
    intro k hk
    rw [List.lookup_eq_none_iff]
    intro item hitem
    rw [bne_iff_ne]
    rintro rfl
    exact hkept item hitem hk
  constructor
  all_goals
    rw [h, List.lookup_append, List.lookup_append, hskip _ (by simp [stamp])]
    rfl

/-! ## The errors of the base -/

theorem raiseStamped_settled {α : Type} {operation url : String} {status : Nat}
    (hstatus : status < 1000) {error : NormalizedError}
    (h : ∀ item ∈ error.details, rt.reprFails item.2 = none) :
    Settled operation url status
      (raiseStamped rt operation url status error : Except HttpExc α) := by
  intro e he
  unfold raiseStamped at he
  dsimp only at he
  rw [transportError_of_renders] at he
  · cases he
    refine ⟨_, rfl, @stamped_append _ _ _ _ [] _ ?_ (List.append_nil _).symm⟩
    intro item hitem
    exact of_decide_eq_true (List.mem_filter.1 hitem).2
  · rw [List.forall_mem_append]
    exact ⟨fun item hitem => h item (List.mem_filter.1 hitem).1, stamp_renders _ _ hstatus⟩

theorem raiseProtocol_settled {α : Type} {operation url : String} {status : Nat}
    (hstatus : status < 1000) {code : String} {details : List (String × Json)}
    (hkeys : ∀ item ∈ details, item.1 ∉ takenKeywords)
    (h : ∀ item ∈ details, rt.reprFails item.2 = none) :
    Settled operation url status
      (raiseProtocol rt operation url status code details : Except HttpExc α) := by
  intro e he
  unfold raiseProtocol at he
  rw [if_neg (by simpa using hkeys), transportError_of_renders] at he
  · cases he
    exact ⟨_, rfl,
      @stamped_append _ _ _ [] _ _ (fun item hitem => absurd hitem List.not_mem_nil) rfl⟩
  · rw [List.forall_mem_append]
    exact ⟨stamp_renders _ _ hstatus, h⟩

theorem retryAfterMs_ok_iff {now : Int} {value : Option Text} :
    (∃ delay, retryAfterMs rt now value = .ok delay ∧
      ∀ ms ∈ delay, rt.reprFails (.int ((ms : Nat) : Int)) = none) ↔
      RetryAfterReadable rt now value := by
  unfold retryAfterMs RetryAfterReadable
  cases value with
  | none => simp
  | some value =>
    dsimp only
    split
    · cases rt.unicode.int (stripChars isBlankChar value) <;> simp
    · cases rt.parseDate (stripChars isBlankChar value) <;> simp

theorem retryAfterMs_error {now : Int} {value : Option Text} {e : HttpExc}
    (h : retryAfterMs rt now value = .error e) : ∃ name, e = .other name := by
  unfold retryAfterMs at h
  cases value with
  | none => cases h
  | some value =>
    dsimp only at h
    split at h
    · cases hint : rt.unicode.int (stripChars isBlankChar value) <;> rw [hint] at h <;> cases h
      exact ⟨_, rfl⟩
    · cases hdate : rt.parseDate (stripChars isBlankChar value) <;> rw [hdate] at h <;> cases h
      exact ⟨_, rfl⟩

theorem excerpt_renders (body : String) : rt.reprFails (excerpt body) = none := rt.reprFails_str _

theorem common_renders (body : String) :
    ∀ item ∈ [("body", excerpt body)], rt.reprFails item.2 = none := by
  rw [List.forall_mem_singleton]
  exact excerpt_renders body

theorem rateLimit_ok_iff {code : String} {now : Int} {body : String} {retryAfter : Option Text} :
    (∃ error, (match retryAfterMs rt now retryAfter with
      | .error e => Except.error e
      | .ok delay =>
        transportError rt .rateLimitError code true ([("body", excerpt body)] ++
          (delay.map fun ms : Nat => ("retry_after_ms", Json.int ms)).toList)) = .ok error) ↔
      RetryAfterReadable rt now retryAfter := by
  rw [← retryAfterMs_ok_iff]
  cases retryAfterMs rt now retryAfter with
  | error e => simp
  | ok delay =>
    dsimp only
    rw [transportError_ok_iff, List.forall_mem_append]
    constructor
    · rintro ⟨-, h⟩
      refine ⟨delay, rfl, fun ms hms => h ("retry_after_ms", .int ms) ?_⟩
      rw [Option.mem_toList, hms, Option.map_some]
    · rintro ⟨delay', hok, hrenders⟩
      cases hok
      refine ⟨common_renders _, fun item hitem => ?_⟩
      rw [Option.mem_toList, Option.map_eq_some_iff] at hitem
      obtain ⟨ms, hms, rfl⟩ := hitem
      exact hrenders ms hms

theorem classifyClientError_ok_iff {now : Int} {status : Nat} {body : String} {retryAfter : Option Text} :
    (∃ error, classifyClientError rt now status body retryAfter = .ok error) ↔
      (status = 429 → RetryAfterReadable rt now retryAfter) := by
  unfold classifyClientError
  dsimp only
  by_cases h429 : status = 429
  · simp only [h429]
    rw [if_neg (by decide), if_neg (by decide), if_neg (by decide), if_pos trivial]
    exact rateLimit_ok_iff.trans ⟨fun h _ => h, fun h => h trivial⟩
  · refine ⟨fun _ h => absurd h h429, fun _ => ?_⟩
    rw [if_neg h429]
    split_ifs <;> exact transportError_ok_iff.2 (common_renders _)

theorem classifyError_ok_iff {now : Int} {status : Nat} {body : String} {retryAfter : Option Text} :
    (∃ error, classifyError rt now status body retryAfter = .ok error) ↔
      (400 ≤ status → status < 500 → ∀ name, rt.loads body ≠ .error (.other name)) ∧
        (status = 429 → contextWindowExceeded (rt.loads body).toOption = false →
          RetryAfterReadable rt now retryAfter) := by
  unfold classifyError
  dsimp only
  have hcommon : ∀ {errorType code retryable}, ∃ error,
      transportError rt errorType code retryable [("body", excerpt body)] = .ok error :=
    transportError_ok_iff.2 (common_renders _)
  split_ifs with hclient hserver h504 hnetwork
  · unfold tryJson
    cases rt.loads body with
    | ok json =>
      dsimp only [Except.toOption]
      cases contextWindowExceeded (some json) with
      | true => simp [hcommon]
      | false => simp [classifyClientError_ok_iff]
    | error failure =>
      cases failure with
      | valueError =>
        simp [classifyClientError_ok_iff, contextWindowExceeded, Except.toOption]
      | other name => simp [hclient.1, hclient.2]
  · simp only [hcommon, true_iff]
    exact ⟨fun h h' => absurd ⟨h, h'⟩ hclient, fun h => by omega⟩
  · simp only [hcommon, true_iff]
    exact ⟨fun h h' => absurd ⟨h, h'⟩ hclient, fun h => by omega⟩
  · refine ⟨fun _ => ⟨fun h h' => absurd ⟨h, h'⟩ hclient, fun h => by omega⟩, fun _ => ?_⟩
    rw [transportError_ok_iff, List.forall_mem_append]
    exact ⟨common_renders _, List.forall_mem_singleton.2 (rt.reprFails_bool true)⟩
  · simp only [hcommon, true_iff]
    exact ⟨fun h h' => absurd ⟨h, h'⟩ hclient, fun h => by omega⟩

theorem classifyClientError_classified {now : Int} {status : Nat} {body : String} {retryAfter : Option Text} :
    Classified rt (classifyClientError rt now status body retryAfter) := by
  unfold classifyClientError
  dsimp only
  split_ifs
  all_goals first | exact transportError_classified | skip
  split
  · rename_i e hretry
    exact retryAfterMs_error hretry
  · exact transportError_classified

theorem classifyError_classified {now : Int} {status : Nat} {body : String} {retryAfter : Option Text} :
    Classified rt (classifyError rt now status body retryAfter) := by
  unfold classifyError tryJson
  dsimp only
  split
  · cases rt.loads body with
    | ok json =>
      dsimp only
      split
      · exact transportError_classified
      · exact classifyClientError_classified
    | error failure =>
      cases failure with
      | valueError => exact classifyClientError_classified
      | other name => exact ⟨name, rfl⟩
  · split_ifs <;> exact transportError_classified

/-! ## The hooks -/

/-- What a hook may end in, when a refusal quotes `quoted`. -/
def HookOutcome {α : Type} (rt : PyRuntime) (quoted : Option Json) : Except HttpExc α → Prop
  | .ok _ => ∀ value ∈ quoted, rt.reprFails value = none
  | .error (.transport _) => False
  | .error (.invalidResponse _ details) =>
    (∀ item ∈ details, item.1 ∉ takenKeywords) ∧ (∀ item ∈ details, rt.reprFails item.2 = none) ∧
      ∀ value ∈ quoted, rt.reprFails value = none
  | .error (.other _) => ∃ value ∈ quoted, rt.reprFails value ≠ none

theorem HookOutcome.error {α β : Type} {quoted : Option Json} {x : Except HttpExc α} {e : HttpExc}
    (h : HookOutcome rt quoted x) (he : x = .error e) :
    HookOutcome rt quoted (.error e : Except HttpExc β) := by
  subst he
  cases e <;> exact h

theorem hookOutcome_ok {α : Type} (a : α) : HookOutcome rt none (.ok a) :=
  fun value hvalue => absurd hvalue (Option.not_mem_none value)

theorem raiseInvalid_outcome {α : Type} {code : String} {details : List (String × Json)}
    {quoted : Option Json} (hkeys : ∀ item ∈ details, item.1 ∉ takenKeywords)
    (htexts : ∀ item ∈ details, item.2 ∉ quoted → rt.reprFails item.2 = none)
    (hquoted : ∀ value ∈ quoted, ∃ item ∈ details, item.2 = value) :
    HookOutcome rt quoted (raiseInvalid rt code details : Except HttpExc α) := by
  unfold raiseInvalid
  cases hfail : detailsFail rt details with
  | some name =>
    obtain ⟨item, hitem, hname⟩ := List.exists_of_findSome?_eq_some hfail
    have hne : rt.reprFails item.2 ≠ none := by
      rw [hname]
      exact Option.some_ne_none name
    exact ⟨item.2, by_contra fun hmem => hne (htexts item hitem hmem), hne⟩
  | none =>
    have hrenders := detailsFail_eq_none.1 hfail
    refine ⟨hkeys, hrenders, fun value hvalue => ?_⟩
    obtain ⟨item, hitem, rfl⟩ := hquoted value hvalue
    exact hrenders item hitem

theorem missing_outcome {α : Type} {reason : String} :
    HookOutcome rt none (missing rt reason : Except HttpExc α) := by
  refine raiseInvalid_outcome ?_ ?_ fun value hvalue => absurd hvalue (Option.not_mem_none value)
  · rw [List.forall_mem_singleton]
    exact show "reason" ∉ takenKeywords by decide
  · rw [List.forall_mem_singleton]
    exact fun _ => rt.reprFails_str _

theorem unexpectedType_outcome {α : Type} {path expected : String} :
    HookOutcome rt none (unexpectedType rt path expected : Except HttpExc α) := by
  refine raiseInvalid_outcome ?_ ?_ fun value hvalue => absurd hvalue (Option.not_mem_none value)
  · simp [takenKeywords]
  · simp [rt.reprFails_str]

theorem extractPath_outcome {value : Json} {path : ResponsePath} {reportedAs : String} :
    HookOutcome rt none (extractPath rt value path reportedAs) := by
  unfold extractPath
  split
  · exact hookOutcome_ok _
  · refine raiseInvalid_outcome ?_ ?_ fun value hvalue => absurd hvalue (Option.not_mem_none value)
    · simp [takenKeywords]
    · simp [rt.reprFails_str]

theorem asIdentifier_outcome {value : Json} {path : ResponsePath} :
    HookOutcome rt none (asIdentifier rt value path) := by
  unfold asIdentifier
  split
  · split
    · exact unexpectedType_outcome
    · exact hookOutcome_ok _
  · exact hookOutcome_ok _
  · exact unexpectedType_outcome

theorem genericParseInit_outcome {body : Json} :
    HookOutcome rt none (genericParseInit rt body) := by
  unfold genericParseInit
  split
  · exact hookOutcome_ok _
  · exact missing_outcome

theorem genericParsePost_outcome {payload body : Json} {status : Nat} :
    HookOutcome rt (quotedOnRefusal .generic (.post payload) body)
      (genericParsePost rt status body) := by
  unfold genericParsePost quotedOnRefusal
  cases body.field "accepted" with
  | none => exact missing_outcome
  | some accepted =>
    cases nonEmptyStr (body.field "message_id") with
    | none =>
      cases accepted with
      | bool accepted => cases accepted <;> exact missing_outcome
      | _ => exact missing_outcome
    | some messageId =>
      cases accepted with
      | bool accepted =>
        cases accepted with
        | true => exact hookOutcome_ok _
        | false =>
          refine raiseInvalid_outcome ?_ ?_ ?_
          · simp [takenKeywords]
          · simp [rt.reprFails_str]
          · simp
      | _ => exact missing_outcome

theorem genericParseGet_outcome {body : Json} {status : Nat} :
    HookOutcome rt none (genericParseGet rt status body) := by
  unfold genericParseGet
  split
  · split
    · exact missing_outcome
    · split
      · exact hookOutcome_ok _
      · exact hookOutcome_ok _
      · exact missing_outcome
  · exact missing_outcome

variable {options : TemplatedOptions}

theorem templatedParseInit_outcome {body : Json} :
    HookOutcome rt none (templatedParseInit rt options body) := by
  unfold templatedParseInit
  split
  · rename_i e he
    exact extractPath_outcome.error he
  · exact asIdentifier_outcome

theorem templatedAck_outcome {payload body : Json} {status : Nat} :
    HookOutcome rt none (templatedAck rt options status payload body) := by
  unfold templatedAck
  split
  · split <;> exact hookOutcome_ok _
  · split
    · rename_i e he
      exact extractPath_outcome.error he
    · split
      · rename_i e he
        exact asIdentifier_outcome.error he
      · exact hookOutcome_ok _

/-- A path that is not there ends in an error, and one that is there in its value. -/
theorem extractPath_cases (value : Json) (path : ResponsePath) (reportedAs : String) :
    (stepsValue path.steps value = none ∧ ∃ e, extractPath rt value path reportedAs = .error e) ∨
      ∃ found, stepsValue path.steps value = some found ∧
        extractPath rt value path reportedAs = .ok found := by
  unfold extractPath
  cases stepsValue path.steps value with
  | none =>
    refine .inl ⟨rfl, ?_⟩
    unfold raiseInvalid
    dsimp only
    split <;> exact ⟨_, rfl⟩
  | some found => exact .inr ⟨found, rfl, rfl⟩

theorem templatedParsePost_outcome {payload body : Json} {status : Nat} :
    HookOutcome rt (quotedOnRefusal (.templated options) (.post payload) body)
      (templatedParsePost rt options status payload body) := by
  unfold templatedParsePost quotedOnRefusal
  dsimp only
  cases options.acceptedPath with
  | none => exact templatedAck_outcome
  | some path =>
    dsimp only [Option.bind_some, optionalPath]
    obtain ⟨hsteps, e, he⟩ | ⟨found, hsteps, hfound⟩ := @extractPath_cases rt body path path.text
    · rw [hsteps, he]
      exact (@extractPath_outcome rt body path path.text).error he
    · rw [hsteps, hfound]
      cases found with
      | bool accepted =>
        cases accepted with
        | true => exact templatedAck_outcome
        | false =>
          refine raiseInvalid_outcome ?_ ?_ ?_
          · simp [takenKeywords]
          · simp [rt.reprFails_str]
          · simp
      | _ => exact unexpectedType_outcome

theorem templatedMessage_outcome {index : Nat} {item : Json} :
    HookOutcome rt none (templatedMessage rt options index item) := by
  unfold templatedMessage
  dsimp only
  split
  · split
    · exact hookOutcome_ok _
    · exact unexpectedType_outcome
  · split
    · rename_i e he
      exact extractPath_outcome.error he
    · split
      · exact hookOutcome_ok _
      · exact unexpectedType_outcome

theorem templatedMessages_outcome {index : Nat} {items : List Json} :
    HookOutcome rt none (templatedMessages rt options index items) := by
  induction items generalizing index with
  | nil => exact hookOutcome_ok _
  | cons item items ih =>
    unfold templatedMessages
    split
    · rename_i e he
      exact templatedMessage_outcome.error he
    · split
      · rename_i e he
        exact ih.error he
      · exact hookOutcome_ok _

theorem templatedParseGet_outcome {body : Json} {status : Nat} :
    HookOutcome rt none (templatedParseGet rt options status body) := by
  unfold templatedParseGet
  split
  · rename_i e he
    exact extractPath_outcome.error he
  · split
    · rename_i e he
      exact templatedMessages_outcome.error he
    · split
      · exact hookOutcome_ok _
      · split
        · exact hookOutcome_ok _
        · exact hookOutcome_ok _
        · exact unexpectedType_outcome
  · exact unexpectedType_outcome

theorem parseHook_outcome {p : HttpProvider} {o : Operation} {status : Nat} {body : Json} :
    HookOutcome rt (quotedOnRefusal p o body) (parseHook rt p o status body) := by
  cases o <;> cases p
  · exact genericParseInit_outcome
  · exact templatedParseInit_outcome
  · exact genericParsePost_outcome
  · exact templatedParsePost_outcome
  · exact genericParseGet_outcome
  · exact templatedParseGet_outcome
  · exact hookOutcome_ok _
  · exact hookOutcome_ok _

/-! ## The operations -/

theorem not_settled_other {α : Type} {operation url name : String} {status : Nat} :
    ¬ Settled operation url status (.error (.other name) : Except HttpExc α) := fun h => by
  obtain ⟨error, heq, -⟩ := h _ rfl
  cases heq

theorem parsing_settled_iff {α : Type} {operation url : String} {status : Nat}
    (hstatus : status < 1000) {quoted : Option Json} {parsed : Except HttpExc α}
    (h : HookOutcome rt quoted parsed) :
    Settled operation url status (parsing rt operation url status parsed) ↔
      ∀ value ∈ quoted, rt.reprFails value = none := by
  cases parsed with
  | ok a => exact ⟨fun _ => h, fun _ e he => by cases he⟩
  | error e =>
    cases e with
    | transport error => exact absurd h id
    | invalidResponse code details =>
      obtain ⟨hkeys, hrenders, hquoted⟩ := h
      exact ⟨fun _ => hquoted, fun _ => raiseProtocol_settled hstatus hkeys hrenders⟩
    | other name =>
      obtain ⟨value, hvalue, hne⟩ := h
      exact ⟨fun hsettled => absurd hsettled not_settled_other,
        fun hquoted => absurd (hquoted value hvalue) hne⟩

theorem notJson_outcome {α : Type} {body : String} :
    HookOutcome rt none (raiseInvalid rt invalidBody
      [("reason", .str "not_json"), ("body", excerpt body)] : Except HttpExc α) := by
  refine raiseInvalid_outcome ?_ ?_ fun value hvalue => absurd hvalue (Option.not_mem_none value)
  · simp [takenKeywords]
  · simp [rt.reprFails_str, excerpt_renders]

theorem Settled.of_error {α β : Type} {operation url : String} {status : Nat} {e : HttpExc}
    (h : Settled operation url status (.error e : Except HttpExc α)) :
    Settled operation url status (.error e : Except HttpExc β) := by
  intro e' he'
  cases he'
  exact h e rfl

theorem exists_raiseStamped {α : Type} (operation url : String) (status : Nat)
    (error : NormalizedError) :
    ∃ e, (raiseStamped rt operation url status error : Except HttpExc α) = .error e := by
  unfold raiseStamped
  dsimp only
  split <;> exact ⟨_, rfl⟩

theorem exists_parsing_raiseInvalid {α : Type} (operation url : String) (status : Nat)
    (code : String) (details : List (String × Json)) :
    ∃ e, parsing rt operation url status (raiseInvalid rt code details : Except HttpExc α) =
      .error e := by
  unfold raiseInvalid
  cases detailsFail rt details with
  | some name => exact ⟨_, rfl⟩
  | none =>
    unfold parsing raiseProtocol
    dsimp only
    split
    · exact ⟨_, rfl⟩
    · split <;> exact ⟨_, rfl⟩

/-- An operation of a provider returns its value or raises a `TransportError` that names the
operation, the status and the redacted url, exactly when nothing on the way of the reply raises
anything else. -/
theorem perform_settled_iff (rt : PyRuntime) (now : Int) (p : HttpProvider) (secrets : Secrets)
    (o : Operation) (call : HttpCall) (r : HttpResponse) :
    Settled o.name (redactUrl p secrets call.url) r.status (perform rt now p secrets o call r) ↔
      Survives rt now p o call r := by
  unfold perform send
  by_cases hstatus : r.status ∈ call.expectedStatuses
  · rw [if_neg (not_not_intro hstatus)]
    have hread : ∀ body, replyBody call r = some body →
        (Settled o.name (redactUrl p secrets call.url) r.status
          (parsing rt o.name (redactUrl p secrets call.url) r.status
            (parseHook rt p o r.status body)) ↔
          ∀ b ∈ replyBody call r, ∀ value ∈ quotedOnRefusal p o b, rt.reprFails value = none) := by
      intro body hbody
      rw [parsing_settled_iff r.status_lt parseHook_outcome, hbody]
      simp
    cases hparse : call.parseJson with
    | false =>
      rw [if_pos (by simp)]
      have hbody : replyBody call r = some .null := by
        unfold replyBody
        rw [hparse]
        rfl
      refine (hread .null hbody).trans
        ⟨fun h => ⟨?_, ?_, ?_, ?_, fun _ => h⟩, fun h => h.quoted hstatus⟩
      · exact fun _ htrue => absurd (hparse.symm.trans htrue) (by decide)
      · rintro (hnot | ⟨htrue, -⟩)
        · exact absurd hstatus hnot
        · exact absurd (hparse.symm.trans htrue) (by decide)
      · exact fun hnot => absurd hstatus hnot
      · exact fun hnot => absurd hstatus hnot
    | true =>
      rw [if_neg (by simp)]
      cases hjson : r.json with
      | ok body =>
        have hbody : replyBody call r = some body := by
          unfold replyBody
          rw [hparse, hjson]
          rfl
        refine (hread body hbody).trans
          ⟨fun h => ⟨?_, ?_, ?_, ?_, fun _ => h⟩, fun h => h.quoted hstatus⟩
        · intro _ _ name hname
          rw [hjson] at hname
          cases hname
        · rintro (hnot | ⟨-, hfailed⟩)
          · exact absurd hstatus hnot
          · rw [hjson] at hfailed
            cases hfailed
        · exact fun hnot => absurd hstatus hnot
        · exact fun hnot => absurd hstatus hnot
      | error failure =>
        cases failure with
        | valueError =>
          cases htext : r.text with
          | error name =>
            refine ⟨fun h => absurd h not_settled_other, fun h => ?_⟩
            exact absurd htext (h.quotesBody (.inr ⟨hparse, hjson⟩) name)
          | ok text =>
            have hsettled : Settled o.name (redactUrl p secrets call.url) r.status
                (parsing rt o.name (redactUrl p secrets call.url) r.status
                  (raiseInvalid rt invalidBody [("reason", .str "not_json"),
                    ("body", excerpt text)] : Except HttpExc Json)) :=
              (parsing_settled_iff r.status_lt notJson_outcome).2 fun value hvalue =>
                absurd hvalue (Option.not_mem_none value)
            obtain ⟨e, he⟩ := @exists_parsing_raiseInvalid rt Json o.name
              (redactUrl p secrets call.url) r.status invalidBody
              [("reason", .str "not_json"), ("body", excerpt text)]
            rw [he] at hsettled
            dsimp only
            rw [he]
            refine ⟨fun _ => ⟨?_, ?_, ?_, ?_, ?_⟩, fun _ => hsettled.of_error⟩
            · intro _ _ name hname
              rw [hjson] at hname
              cases hname
            · intro _ name hname
              rw [htext] at hname
              cases hname
            · exact fun hnot => absurd hstatus hnot
            · exact fun hnot => absurd hstatus hnot
            · intro _ body hbody
              unfold replyBody at hbody
              rw [hparse, hjson] at hbody
              cases hbody
        | other name =>
          refine ⟨fun h => absurd h not_settled_other, fun h => ?_⟩
          exact absurd hjson (h.decodes hstatus hparse name)
  · rw [if_pos hstatus]
    cases htext : r.text with
    | error name =>
      refine ⟨fun h => absurd h not_settled_other, fun h => ?_⟩
      exact absurd htext (h.quotesBody (.inl hstatus) name)
    | ok text =>
      have hiff : Survives rt now p o call r ↔
          ∃ error, classifyError rt now r.status text r.retryAfter = .ok error := by
        rw [classifyError_ok_iff]
        constructor
        · intro h
          have hdecodes := h.refusalDecodes hstatus
          have hretry := h.retryAfter hstatus
          rw [htext] at hdecodes hretry
          exact ⟨fun hlow hhigh => hdecodes hlow hhigh text rfl, fun h429 => hretry h429 text rfl⟩
        · intro h
          refine ⟨fun hmem => absurd hmem hstatus, fun _ name hname => ?_, fun _ hlow hhigh => ?_,
            fun _ h429 => ?_, fun hmem => absurd hmem hstatus⟩
          · rw [htext] at hname
            cases hname
          · rw [htext]
            rintro body ⟨⟩
            exact h.1 hlow hhigh
          · rw [htext]
            rintro body ⟨⟩
            exact h.2 h429
      rw [hiff]
      have hclassified := @classifyError_classified rt now r.status text r.retryAfter
      dsimp only
      cases hclassify : classifyError rt now r.status text r.retryAfter with
      | error e =>
        rw [hclassify] at hclassified
        obtain ⟨name, rfl⟩ := hclassified
        simp [not_settled_other]
      | ok error =>
        rw [hclassify] at hclassified
        have hsettled := @raiseStamped_settled rt Json o.name (redactUrl p secrets call.url) r.status
          r.status_lt error hclassified
        obtain ⟨e, he⟩ := @exists_raiseStamped rt Json o.name (redactUrl p secrets call.url) r.status
          error
        rw [he] at hsettled
        dsimp only
        rw [he]
        exact ⟨fun _ => ⟨error, rfl⟩, fun _ => hsettled.of_error⟩

/-! ## A delay of `²` seconds -/

/-- The library on ASCII and the superscripts, with a decoder of JSON and without dates. -/
def plainRuntime : PyRuntime where
  unicode := Dialects.superscripts
  loads text := match Json.loads text.toList with
    | some json => .ok json
    | none => .error .valueError
  reprFails
    | .int n => if (Nat.toDigits 10 n.natAbs).length ≤ intMaxStrDigits then none else "ValueError"
    | _ => none
  str _ := ""
  parseDate _ := .refused
  totalMs micros := micros / 1000
  reprFails_str _ := rfl
  reprFails_bool _ := rfl
  reprFails_int n := by split <;> simp_all

/-- Too many requests, and the header `Retry-After: ²`. -/
def superscriptDelay : HttpResponse where
  status := 429
  retryAfter := some ['²']
  text := .ok ""
  json := .error .valueError
  status_lt := by decide

theorem superscript_delay_escapes :
    ¬ Settled "GET" "http://127.0.0.1/messages" 429
      (perform plainRuntime 0 .generic ⟨none, []⟩ .get
        ⟨"http://127.0.0.1/messages", [200], true⟩ superscriptDelay) := by
  have hraised : perform plainRuntime 0 .generic ⟨none, []⟩ .get
      ⟨"http://127.0.0.1/messages", [200], true⟩ superscriptDelay =
      .error (.other "ValueError") := rfl
  rw [hraised]
  exact not_settled_other

end Http

end AgenticLocalApp
