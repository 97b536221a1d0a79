import AgenticLocalApp.Library.Program
import AgenticLocalApp.Transport.HttpErrors
import AgenticLocalApp.Transport.ToolCallCodec

/-!
# Waiting for a reply through a codec

The provider reads the remote conversation until there is a message or the time is up, and the codec
makes envelopes of what was read.  Whoever waits gets at least one envelope or an error.
-/

namespace AgenticLocalApp

open Prog

namespace Http

/-! ## Polling -/

/-- The clock, and what the reads have come to so far. -/
structure Polls where
  clock : Int
  answers : List (Except HttpExc GetResult) := []

inductive PollOp where
  /-- `_get`. -/
  | get (after : Option String)
  | sleep (ms : Int)

abbrev PollOp.Ans : PollOp → Type
  | .get _ => Except HttpExc GetResult
  | .sleep _ => Unit

abbrev Polling : Lang where
  State := Polls
  Err := HttpExc
  Op := PollOp
  Ans := PollOp.Ans

/-- The settings of the wait. -/
structure ReplyTimes where
  replyTimeoutMs : Nat
  pollIntervalMs : Nat
  replyTimeoutMs_pos : 0 < replyTimeoutMs
  pollIntervalMs_pos : 0 < pollIntervalMs

/-- A `TransportError` that is raised. -/
def raised (rt : PyRuntime) (errorType : ErrorType) (code : String) (retryable : Bool)
    (details : List (String × Json)) : HttpExc :=
  match transportError rt errorType code retryable details with
  | .ok error => .transport error
  | .error e => e

section Wait

variable (rt : PyRuntime) (times : ReplyTimes) (url : String) (after : Option String)

/-- `MODEL_GET_TIMEOUT`. -/
def getTimeout (elapsedMs : Int) (polls : Nat) : HttpExc :=
  raised rt .timeoutError "MODEL_GET_TIMEOUT" true
    [("operation", .str "GET"), ("http_status", .null), ("url", .str url),
      ("timeout_ms", .int times.replyTimeoutMs), ("poll_interval_ms", .int times.pollIntervalMs),
      ("elapsed_ms", .int elapsedMs), ("polls", .int polls)]

/-- The loop of `_wait`, after so many reads. -/
def waitFrom (start : Int) : (fuel polls : Nat) → Prog Polling GetResult
  | 0, _ => .diverge
  | fuel + 1, polls => do
    let result ← Prog.ofExcept (L := Polling) (← Prog.query (L := Polling) (.get after))
    if ¬result.messages.isEmpty then return result
    let now := (← Prog.read (L := Polling)).clock
    let deadline := start + times.replyTimeoutMs
    if deadline ≤ now then throw (getTimeout rt times url (now - start) (polls + 1))
    else
      Prog.query (L := Polling) (.sleep (min times.pollIntervalMs (deadline - now)))
      waitFrom start fuel (polls + 1)

/-- `_wait`.  A read for each millisecond and one more is all that it can come to. -/
def waitForReply : Prog Polling GetResult := do
  let start := (← Prog.read (L := Polling)).clock
  waitFrom rt times url after start (times.replyTimeoutMs + 1) 0

end Wait

/-- A read takes its time, and a sleep lasts at least as long as was asked. -/
def polling : Contract Polling where
  rely op s a s' :=
    match op, a with
    | .get _, answer => s'.answers = s.answers ++ [answer] ∧ s.clock ≤ s'.clock
    | .sleep ms, _ => s'.answers = s.answers ∧ s.clock + ms ≤ s'.clock
  guar _ _ := False
  wait _ _ := True
  stuck _ := False

/-! ## The codec -/

/-- `MessageCodec`. -/
structure MessageCodec where
  label : String
  decodeInbound : List Json → Except JsonTextCodec.CodecError (List JsonTextCodec.Envelope)
  encodeOutbound : JsonTextCodec.Envelope → Json

/-- `ToolCallCodec`. -/
def toolCallCodec (loads : List Char → Except String Json) (pyStr : Json → String)
    (options : ToolCallCodec.ToolCallOptions) : MessageCodec where
  label := "tool_call"
  decodeInbound := ToolCallCodec.decodeInbound loads pyStr options
  encodeOutbound := ToolCallCodec.encodeOutbound options

section Codec

variable (rt : PyRuntime) (codec : MessageCodec) (after : Option String)

/-- A `CodecError`, stamped with the operation and the status of the read. -/
def codecRaised (e : JsonTextCodec.CodecError) (httpStatus : Nat) : HttpExc :=
  raised rt .modelProtocolError "UNPARSEABLE_REPLY" false
    ([("codec", Json.str e.codec), ("index", .int e.index), ("excerpt", .str e.excerpt),
      ("reason", .str e.reason)] ++ e.details ++
      [("operation", .str "GET"), ("http_status", .int httpStatus)])

/-- `_decode`. -/
def decodeResult (result : GetResult) : Except HttpExc GetResult :=
  match codec.decodeInbound result.messages with
  | .error e => .error (codecRaised rt e result.httpStatus)
  | .ok envelopes =>
    let messages := envelopes.map Json.obj
    let cursor :=
      if result.cursor = none ∨ result.cursor = after then (lastMessageId messages).or result.cursor
      else result.cursor
    .ok ⟨messages, cursor, result.httpStatus⟩

/-- `CodecTransport.wait_for_reply`, from what the provider has returned on. -/
def decodeReply (result : GetResult) : Except HttpExc GetResult := do
  let decoded ← decodeResult rt codec after result
  match result.messages, decoded.messages with
  | first :: _, [] =>
    .error (codecRaised rt { JsonTextCodec.codecError 0 first "no_envelope" [] with
      codec := codec.label } result.httpStatus)
  | _, _ => return decoded

/-- `CodecTransport.wait_for_reply`. -/
def codecWaitForReply (times : ReplyTimes) (url : String) : Prog Polling GetResult := do
  let result ← waitForReply rt times url after
  Prog.ofExcept (L := Polling) (decodeReply rt codec after result)

end Codec

/-! ## What a wait comes to -/

/-- Reads that have brought nothing. -/
def Quiet (answers : List (Except HttpExc GetResult)) : Prop :=
  ∀ answer ∈ answers, ∃ result, answer = .ok result ∧ result.messages = []

section Spec

variable {rt : PyRuntime} {times : ReplyTimes} {url : String} {after : Option String} {start : Int}

/-- After `polls` quiet reads, the wait ends with the first read that brings a message or fails, or
when the time is up. -/
def Waited (rt : PyRuntime) (times : ReplyTimes) (url : String) (start : Int) (polls : Nat)
    (s : Polls) : Except HttpExc GetResult → Polls → Prop
  | .ok result, s' => result.messages ≠ [] ∧ ∃ quiet, Quiet quiet ∧
      s'.answers = s.answers ++ (quiet ++ [.ok result]) ∧
      (polls + quiet.length - 1) * times.pollIntervalMs < times.replyTimeoutMs
  | .error e, s' => ∃ quiet, Quiet quiet ∧
      (s'.answers = s.answers ++ (quiet ++ [.error e]) ∧
          (polls + quiet.length - 1) * times.pollIntervalMs < times.replyTimeoutMs ∨
        s'.answers = s.answers ++ quiet ∧ start + times.replyTimeoutMs ≤ s'.clock ∧
          (polls + quiet.length - 2) * times.pollIntervalMs < times.replyTimeoutMs ∧
          e = getTimeout rt times url (s'.clock - start) (polls + quiet.length))

theorem Waited.later {polls : Nat} {s s₁ s' : Polls} {result : GetResult}
    {r : Except HttpExc GetResult} (hempty : result.messages = [])
    (hanswers : s₁.answers = s.answers ++ [.ok result])
    (h : Waited rt times url start (polls + 1) s₁ r s') :
    Waited rt times url start polls s r s' := by
  have hquiet : ∀ {quiet}, Quiet quiet → Quiet (.ok result :: quiet) := fun hq =>
    List.forall_mem_cons.2 ⟨⟨result, rfl, hempty⟩, hq⟩
  have hpolls : ∀ quiet : List (Except HttpExc GetResult),
      polls + 1 + quiet.length = polls + (Except.ok result :: quiet).length := by
    intro quiet
    rw [List.length_cons]
    omega
  rcases r with e | last
  · obtain ⟨quiet, hq, hend⟩ := h
    rw [hpolls, hanswers, List.append_assoc, List.append_assoc] at hend
    exact ⟨_, hquiet hq, hend⟩
  · obtain ⟨hmessages, quiet, hq, hend⟩ := h
    rw [hpolls, hanswers, List.append_assoc] at hend
    exact ⟨hmessages, _, hquiet hq, hend⟩

theorem waitFrom_spec {fuel polls : Nat} {s : Polls}
    (hfuel : fuel + polls = times.replyTimeoutMs + 1)
    (hpolls : (polls - 1) * times.pollIntervalMs < times.replyTimeoutMs)
    (hclock : start + min (polls * times.pollIntervalMs : Int) times.replyTimeoutMs ≤ s.clock) :
    wp polling (waitFrom rt times url after start fuel polls)
      (Waited rt times url start polls s) s := by
  have hpos := times.pollIntervalMs_pos
  induction fuel generalizing polls s with
  | zero =>
    exfalso
    have hmul : polls - 1 ≤ (polls - 1) * times.pollIntervalMs := Nat.le_mul_of_pos_right _ hpos
    omega
  | succ fuel ih =>
    unfold waitFrom
    rw [wp_bind, wp_query]
    refine ⟨trivial, fun answer s₁ ⟨hanswers, hlater⟩ => ?_⟩
    rw [after_ok, wp_bind, wp_ofExcept]
    rcases answer with e | result
    · exact ⟨[], fun _ h => absurd h List.not_mem_nil, .inl ⟨hanswers, hpolls⟩⟩
    · rw [after_ok]
      cases hmessages : result.messages with
      | cons message rest =>
        refine ⟨fun h => ?_, [], fun _ h => absurd h List.not_mem_nil, hanswers, hpolls⟩
        rw [hmessages] at h
        cases h
      | nil =>
        simp only [List.isEmpty_nil, not_true_eq_false, if_false]
        rw [wp_bind, wp_read, after_ok]
        by_cases hdeadline : start + times.replyTimeoutMs ≤ s₁.clock
        · rw [if_pos hdeadline]
          have hquiet : Quiet [.ok result] := fun a ha =>
            ⟨result, List.mem_singleton.1 ha, hmessages⟩
          refine ⟨_, hquiet, .inr ⟨hanswers, hdeadline, ?_, rfl⟩⟩
          rw [List.length_singleton, Nat.add_sub_add_right polls 1 1]
          exact hpolls
        · rw [if_neg hdeadline, wp_bind, wp_query]
          refine ⟨trivial, fun _ s₂ ⟨hsame, hslept⟩ => ?_⟩
          rw [after_ok]
          have hanswers₂ : s₂.answers = s.answers ++ [.ok result] := hsame.trans hanswers
          have hnext : polls * times.pollIntervalMs < times.replyTimeoutMs := by
            have hcast : ((polls * times.pollIntervalMs : Nat) : Int) =
                polls * times.pollIntervalMs := Int.natCast_mul _ _
            omega
          refine wp_mono (ih (by omega) (by rwa [Nat.add_sub_cancel]) ?_) fun r s' h =>
            h.later hmessages hanswers₂
          have hcast : ((polls + 1 : Nat) : Int) * times.pollIntervalMs =
              polls * times.pollIntervalMs + times.pollIntervalMs := by
            rw [Int.natCast_add, Int.add_mul, Int.natCast_one, Int.one_mul]
          rw [hcast]
          omega

theorem waitForReply_spec (s : Polls) : wp polling (waitForReply rt times url after)
    (Waited rt times url s.clock 0 s) s := by
  unfold waitForReply
  rw [wp_bind, wp_read, after_ok]
  refine waitFrom_spec (Nat.add_zero _) ?_ ?_
  · rw [Nat.zero_sub, Nat.zero_mul]
    exact times.replyTimeoutMs_pos
  · rw [Int.natCast_zero, Int.zero_mul]
    omega

variable {codec : MessageCodec}

/-- What the codec makes of a read that has brought messages. -/
def Decodes (rt : PyRuntime) (codec : MessageCodec) (after : Option String) (result : GetResult) :
    Except HttpExc GetResult → Prop
  | .ok reply => ∃ envelopes, codec.decodeInbound result.messages = .ok envelopes ∧
      envelopes ≠ [] ∧ reply.messages = envelopes.map Json.obj ∧
      reply.httpStatus = result.httpStatus ∧
      reply.cursor = if result.cursor = none ∨ result.cursor = after then
        (lastMessageId reply.messages).or result.cursor else result.cursor
  | .error e => ∃ error : JsonTextCodec.CodecError,
      e = codecRaised rt error result.httpStatus ∧
        (codec.decodeInbound result.messages = .error error ∨
          codec.decodeInbound result.messages = .ok [] ∧ error.reason = "no_envelope" ∧
            error.codec = codec.label)

theorem decodeReply_spec {result : GetResult} (h : result.messages ≠ []) :
    Decodes rt codec after result (decodeReply rt codec after result) := by
  obtain ⟨first, rest, hmessages⟩ := List.exists_cons_of_ne_nil h
  unfold decodeReply decodeResult
  cases hdecoded : codec.decodeInbound result.messages with
  | error error => exact ⟨error, rfl, .inl hdecoded⟩
  | ok envelopes =>
    rw [hmessages]
    cases envelopes with
    | nil => exact ⟨_, rfl, .inr ⟨hdecoded, rfl, rfl⟩⟩
    | cons envelope others =>
      exact ⟨_, hdecoded, List.cons_ne_nil _ _, rfl, rfl, rfl⟩

/-- What waiting through the codec comes to, with the reads that it took: the first one that brought
messages is decoded, and an error is that of a read, of the codec, or that of the time. -/
def Replied (rt : PyRuntime) (codec : MessageCodec) (times : ReplyTimes) (url : String)
    (after : Option String) (start : Int) (r : Except HttpExc GetResult) (s' : Polls) : Prop :=
  ∃ quiet, Quiet quiet ∧
    (s'.answers.length - 2) * times.pollIntervalMs < times.replyTimeoutMs ∧
    ((∃ result, result.messages ≠ [] ∧ s'.answers = quiet ++ [.ok result] ∧
        Decodes rt codec after result r) ∨
      ∃ e, r = .error e ∧ (s'.answers = quiet ++ [.error e] ∨
        s'.answers = quiet ∧ start + times.replyTimeoutMs ≤ s'.clock ∧
          e = getTimeout rt times url (s'.clock - start) quiet.length))

theorem codecWaitForReply_spec (start : Int) :
    wp polling (codecWaitForReply rt codec after times url)
      (Replied rt codec times url after start) { clock := start } := by
  unfold codecWaitForReply
  rw [wp_bind]
  refine wp_mono (waitForReply_spec _) fun r s' h => ?_
  have hlength : ∀ {quiet : List (Except HttpExc GetResult)} {last : Except HttpExc GetResult},
      s'.answers = [] ++ (quiet ++ [last]) →
      (0 + quiet.length - 1) * times.pollIntervalMs < times.replyTimeoutMs →
      (s'.answers.length - 2) * times.pollIntervalMs < times.replyTimeoutMs := by
    intro quiet last hanswers hbound
    rw [hanswers, List.nil_append, List.length_append, List.length_singleton]
    rwa [Nat.zero_add] at hbound
  rcases r with e | result
  · obtain ⟨quiet, hquiet, ⟨hanswers, hbound⟩ | ⟨hanswers, htime, hbound, rfl⟩⟩ := h
    · exact ⟨quiet, hquiet, hlength hanswers hbound, .inr ⟨e, rfl, .inl hanswers⟩⟩
    · rw [Nat.zero_add] at hbound
      have hquiets : s'.answers = quiet := hanswers
      refine ⟨quiet, hquiet, by rwa [hquiets], .inr ⟨_, rfl, .inr ⟨hquiets, htime, ?_⟩⟩⟩
      rw [Nat.zero_add]
  · obtain ⟨hmessages, quiet, hquiet, hanswers, hbound⟩ := h
    rw [after_ok, wp_ofExcept]
    exact ⟨quiet, hquiet, hlength hanswers hbound,
      .inl ⟨result, hmessages, hanswers, decodeReply_spec hmessages⟩⟩

theorem exists_pollAnswer (op : PollOp) (s : Polls) : ∃ a s', polling.rely op s a s' := by
  cases op with
  | get after =>
    exact ⟨.error (.other "ConnectError"), { s with answers := s.answers ++ [_] }, rfl, le_rfl⟩
  | sleep ms => exact ⟨(), { s with clock := s.clock + ms }, rfl, le_rfl⟩

/-- In every run of a wait through a codec, whatever the reads come to and however long they take,
the run is never stuck and, as a sleep lasts, takes no more reads than the timeout has intervals and
two more.  It ends with at least one envelope, all of them from the first read that brought
messages, or with the error of that read, of the codec, or, not before the timeout, with the error
that no read brought any. -/
theorem wait_for_reply_ends {start : Int} {p : Prog Polling GetResult} {s' : Polls}
    (hr : Reaches polling.rely
      (codecWaitForReply rt codec after times url, ({ clock := start } : Polls)) (p, s')) :
    (∃ c, Step polling.rely (p, s') c) ∨
      ∃ r, p = .ret r ∧ Replied rt codec times url after start r s' := by
  have hspec : wp polling (codecWaitForReply rt codec after times url)
      (Replied rt codec times url after start) { clock := start } := codecWaitForReply_spec start
  have hw := wp_reaches (C := polling) (c := (_, { clock := start })) hspec hr
  rcases wp_progress (C := polling) (fun op s _ => exists_pollAnswer op s) hw
    with hstep | ⟨r, hp, hret⟩ | ⟨-, hstuck⟩
  · exact .inl hstep
  · exact .inr ⟨r, hp, hret⟩
  · exact absurd hstuck id

/-- A read that brings a call of a tool, once there have been two that brought nothing. -/
def thirdTime : Script Polling := fun n op s =>
  match op with
  | .get _ =>
    let messages := if n < 4 then [] else [ToolCallCodec.sampleCall (.obj [])]
    (.ok ⟨messages, none, 200⟩, { s with answers := s.answers ++ [.ok ⟨messages, none, 200⟩] })
  | .sleep ms => ((), { s with clock := s.clock + ms })

theorem thirdTime_honest (n : Nat) (op : PollOp) (s : Polls) :
    polling.rely op s (thirdTime n op s).1 (thirdTime n op s).2 := by
  cases op with
  | get after => exact ⟨rfl, le_rfl⟩
  | sleep ms => exact ⟨rfl, le_rfl⟩

def oneSecond : ReplyTimes := ⟨5000, 1000, by decide, by decide⟩

def sampleCodec : MessageCodec := toolCallCodec (fun _ => .error "") (fun _ => "")
  { idPath := some ⟨"id", [.key "id"]⟩ }

theorem wait_for_reply_ends_third :
    let c := drive thirdTime 40 0 (codecWaitForReply plainRuntime sampleCodec none oneSecond "u",
      ({ clock := 0 } : Polls))
    c.2.answers.length = 3 ∧ ∃ reply, c.1 = .ret (.ok reply) ∧ reply.cursor = some "7" ∧
      Replied plainRuntime sampleCodec oneSecond "u" none 0 (.ok reply) c.2 := by
  intro c
  rcases wait_for_reply_ends (drive_reaches thirdTime_honest 40 0
    (codecWaitForReply plainRuntime sampleCodec none oneSecond "u", ({ clock := 0 } : Polls)))
    with ⟨c', hstep⟩ | ⟨r, hr, hreplied⟩
  · cases hstep
  · cases hr
    exact ⟨rfl, _, rfl, rfl, hreplied⟩

end Spec

end Http

end AgenticLocalApp
