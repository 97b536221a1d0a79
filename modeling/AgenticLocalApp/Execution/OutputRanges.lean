import AgenticLocalApp.Execution.FitMessage
import AgenticLocalApp.Execution.OutputBudget
import AgenticLocalApp.Execution.ResultCollector
import AgenticLocalApp.Library.Program

/-!
# The ranges of a fitted result

A result says which bytes of a stream its text is.  `apply` counts them in the stream, `_halve` in
the text it cuts, encoded again, and a byte that is not UTF-8 is three bytes long there: the ranges
stay in order as long as no text to be halved is twice as long as the range it stands for, which the
bytes of a stream tell that end in a character of one or two bytes.
-/

namespace AgenticLocalApp

/-! ## Results made of outputs -/

/-- The result of a task whose two streams were kept by `apply`. -/
def OutputResult (rc : ResultCollector) (r : TaskResult) : Prop :=
  ∃ task stdout stderr, ∃ budget : Nat, ∃ out translation,
    PayloadGuard.apply stdout stderr budget = .ok out ∧
      r = rc.cmdResult task (some out) translation

/-- Every output handed to the collector was kept by `apply`. -/
def Kept (outputs : Outputs TruncatedOutput) : Prop :=
  ∀ id out, outputs id = some out →
    ∃ stdout stderr, ∃ budget : Nat, PayloadGuard.apply stdout stderr budget = .ok out

namespace ResultCollector

variable {rc : ResultCollector} {outputs : Outputs TruncatedOutput} {chunks : Outputs ChunkResult}

/-- A result has a text only if its task has an output. -/
theorem taskResult_texts (h : Kept outputs) {task : TaskRecord} {r : TaskResult}
    (hr : rc.taskResult task (outputs task.taskId) (chunks task.taskId) = .ok r) :
    OutputResult rc r ∨ ∀ stream, PayloadGuard.streamText stream r = "" := by
  unfold taskResult at hr
  cases htype : task.type with
  | chunkRequest =>
    rw [htype] at hr
    obtain rfl := Except.ok.inj hr
    exact .inr fun stream => by cases stream <;> rfl
  | cmd =>
    rw [htype] at hr
    obtain ⟨translation, -, hr⟩ := Prog.bind_eq_ok.1 hr
    obtain rfl := Except.ok.inj hr
    cases hout : outputs task.taskId with
    | none => exact .inr fun stream => by cases stream <;> rfl
    | some out =>
      obtain ⟨stdout, stderr, budget, happly⟩ := h task.taskId out hout
      exact .inl ⟨task, stdout, stderr, budget, out, translation, happly, rfl⟩

theorem addTask_results {plan : PlanRecord} {content content' : ExecutionResultContent}
    {task : TaskRecord} (h : rc.addTask plan outputs chunks content task = .ok content') :
    content'.results = content.results ∨ ∃ r,
      rc.taskResult task (outputs task.taskId) (chunks task.taskId) = .ok r ∧
        content'.results = content.results ++ [r] := by
  unfold addTask at h
  split at h
  · cases h
  · split at h
    · obtain ⟨r, hr, h⟩ := Prog.bind_eq_ok.1 h
      cases h
      exact .inr ⟨r, hr, rfl⟩
    · split at h
      · cases h
        exact .inl rfl
      · cases h
        exact .inl rfl
      · cases h
        exact .inl rfl
      · cases h

theorem foldlM_results {plan : PlanRecord} {tasks : List TaskRecord}
    {content content' : ExecutionResultContent}
    (h : tasks.foldlM (rc.addTask plan outputs chunks) content = .ok content') :
    ∀ r ∈ content'.results, r ∈ content.results ∨
      ∃ task, rc.taskResult task (outputs task.taskId) (chunks task.taskId) = .ok r := by
  induction tasks generalizing content with
  | nil =>
    cases h
    exact fun r hr => .inl hr
  | cons task tasks ih =>
    rw [List.foldlM_cons] at h
    cases hadd : rc.addTask plan outputs chunks content task with
    | error e =>
      rw [hadd] at h
      cases h
    | ok added =>
      rw [hadd] at h
      intro r hr
      obtain hmem | htask := ih h r hr
      · obtain heq | ⟨r', hr', heq⟩ := addTask_results hadd
        · exact .inl (heq ▸ hmem)
        · rw [heq, List.mem_append, List.mem_singleton] at hmem
          exact hmem.imp_right fun hr => ⟨task, by rw [hr, hr']⟩
      · exact .inr htask

theorem build_results {plan : PlanRecord} {tasks : List TaskRecord}
    {content : ExecutionResultContent} (h : rc.build plan tasks outputs chunks = .ok content) :
    ∀ r ∈ content.results,
      ∃ task, rc.taskResult task (outputs task.taskId) (chunks task.taskId) = .ok r := by
  intro r hr
  unfold build at h
  split at h
  · cases h
  · split at h
    · cases h
    · obtain hmem | htask := foldlM_results h r hr
      · cases hmem
      · exact htask

theorem build_texts {plan : PlanRecord} {tasks : List TaskRecord}
    {content : ExecutionResultContent}
    (h : rc.build plan tasks outputs chunks = .ok content) (houtputs : Kept outputs) :
    ∀ r ∈ content.results,
      OutputResult rc r ∨ ∀ stream, PayloadGuard.streamText stream r = "" := by
  intro r hr
  obtain ⟨task, htask⟩ := build_results h r hr
  exact taskResult_texts houtputs htask

end ResultCollector

namespace PayloadGuard

/-! ## Ranges -/

/-- What a result says of a stream is in order: the range lies within the stream, and a range that
starts late is said to be cut. -/
def RangeOrdered (stream : OutputStream) (r : TaskResult) : Prop :=
  ∃ start stop total, streamRange stream r = some (start, stop) ∧
    streamTotal stream r = some total ∧ 0 ≤ start ∧ start ≤ stop ∧ stop ≤ total ∧
    (0 < start → r.truncated = true)

/-- The range keeps its end, and its start does not move back. -/
def RangeAdvances (stream : OutputStream) (before after : TaskResult) : Prop :=
  ∀ start stop start' stop', streamRange stream before = some (start, stop) →
    streamRange stream after = some (start', stop') → stop' = stop ∧ start ≤ start'

/-- Half of the text is no longer than the range it stands for. -/
def HalfWithinRange (stream : OutputStream) (r : TaskResult) : Prop :=
  ∀ start stop, streamRange stream r = some (start, stop) →
    ((streamSize stream r / 2 : Nat) : Int) ≤ stop - start

theorem rangeOrdered_output {rc : ResultCollector} {r : TaskResult} (h : OutputResult rc r)
    (stream : OutputStream) : RangeOrdered stream r := by
  obtain ⟨task, stdout, stderr, budget, out, translation, happly, rfl⟩ := h
  rw [apply_eq] at happly
  cases happly
  have hout := stdoutShare_le stdout stderr budget
  have herr := stderrShare_le stdout stderr budget
  rw [applyBudget_eq]
  cases stream with
  | stdout =>
    refine ⟨_, _, _, rfl, rfl, by omega, by omega, le_rfl, fun hstart => ?_⟩
    exact Bool.or_eq_true_iff.2 (.inr (decide_eq_true (by omega)))
  | stderr =>
    refine ⟨_, _, _, rfl, rfl, by omega, by omega, le_rfl, fun hstart => ?_⟩
    exact Bool.or_eq_true_iff.2 (.inl (decide_eq_true (by omega)))

theorem streamRange_halve {stream : OutputStream} {r : TaskResult} {start stop : Int}
    (h : streamRange stream r = some (start, stop)) :
    streamRange stream (halve r stream) =
      some (stop - (streamSize stream r / 2 : Nat), stop) := by
  have hlength : (lastBytes (streamSize stream r / 2) (encodeText (streamText stream r))).length =
      streamSize stream r / 2 := length_lastBytes (Nat.div_le_self _ _)
  unfold streamSize at hlength ⊢
  cases stream with
  | stdout =>
    unfold streamRange halve
    dsimp only
    rw [h, hlength]
    rfl
  | stderr =>
    unfold streamRange halve
    dsimp only
    rw [h, hlength]
    rfl

theorem streamTotal_halve {stream : OutputStream} {r : TaskResult} {total : Int}
    (h : streamTotal stream r = some total) :
    streamTotal stream (halve r stream) = some total := by
  cases stream with
  | stdout =>
    unfold streamTotal halve
    dsimp only
    rw [h]
    rfl
  | stderr =>
    unfold streamTotal halve
    dsimp only
    rw [h]
    rfl

theorem truncated_halve (stream : OutputStream) (r : TaskResult) :
    (halve r stream).truncated = true := by
  cases stream <;> rfl

theorem streamRange_halve_of_ne {stream other : OutputStream} (h : stream ≠ other)
    (r : TaskResult) : streamRange other (halve r stream) = streamRange other r := by
  cases stream <;> cases other <;> first | rfl | exact absurd rfl h

theorem streamTotal_halve_of_ne {stream other : OutputStream} (h : stream ≠ other)
    (r : TaskResult) : streamTotal other (halve r stream) = streamTotal other r := by
  cases stream <;> cases other <;> first | rfl | exact absurd rfl h

/-- A halving whose half is within the range keeps every range of the result in order. -/
theorem RangeOrdered.halve {stream other : OutputStream} {r : TaskResult}
    (h : RangeOrdered other r) (hhalf : HalfWithinRange stream r) :
    RangeOrdered other (halve r stream) := by
  obtain ⟨start, stop, total, hrange, htotal, hstart, hstop, hle, -⟩ := h
  by_cases hstream : stream = other
  · subst hstream
    have hwithin := hhalf start stop hrange
    exact ⟨_, _, _, streamRange_halve hrange, streamTotal_halve htotal, by omega, by omega, hle,
      fun _ => truncated_halve stream r⟩
  · exact ⟨start, stop, total, by rw [streamRange_halve_of_ne hstream, hrange],
      by rw [streamTotal_halve_of_ne hstream, htotal], hstart, hstop, hle,
      fun _ => truncated_halve stream r⟩

/-- The range of the text that is halved advances exactly when half of the text is within it. -/
theorem rangeAdvances_halve_iff {stream : OutputStream} {r : TaskResult} :
    RangeAdvances stream r (halve r stream) ↔ HalfWithinRange stream r ∨
      streamRange stream r = none := by
  constructor
  · intro h
    cases hrange : streamRange stream r with
    | none => exact .inr rfl
    | some range =>
      obtain ⟨start, stop⟩ := range
      refine .inl fun start' stop' heq => ?_
      rw [hrange] at heq
      cases heq
      have hmoved := (h _ _ _ _ hrange (streamRange_halve hrange)).2
      omega
  · rintro (h | h)
    · intro start stop start' stop' hrange hafter
      rw [streamRange_halve hrange] at hafter
      cases hafter
      have hwithin := h start stop hrange
      exact ⟨rfl, by omega⟩
    · intro start stop start' stop' hrange
      rw [h] at hrange
      cases hrange

theorem rangeAdvances_of_eq {stream : OutputStream} {before after : TaskResult}
    (h : streamRange stream after = streamRange stream before) :
    RangeAdvances stream before after := by
  intro start stop start' stop' hbefore hafter
  rw [h, hbefore] at hafter
  cases hafter
  exact ⟨rfl, le_rfl⟩

/-! ## The loop, round by round -/

/-- A round of the loop on a content that is too big. -/
def Round (limit : Nat) (c c' : ExecutionResultContent) : Prop :=
  limit < messageSize c ∧ ∃ results, shrink c.results = some results ∧
    c' = { c with results := results }

/-- The contents that the loop comes to. -/
def Reached (limit : Nat) : ExecutionResultContent → ExecutionResultContent → Prop :=
  Relation.ReflTransGen (Round limit)

/-- What `fit_message` returns is a content that its loop came to. -/
theorem reached_fitMessage {limit rounds : Nat} {content fitted : ExecutionResultContent}
    (h : fitMessage limit rounds content = some fitted) : Reached limit content fitted := by
  induction rounds generalizing content with
  | zero => cases h
  | succ rounds ih =>
    unfold fitMessage at h
    split at h
    · cases h
      exact .refl
    · rename_i hsize
      split at h
      · cases h
        exact .refl
      · rename_i results hshrink
        exact .head ⟨by omega, results, hshrink, rfl⟩ (ih h)

/-- A round leaves every result alone but the one it halves. -/
theorem Round.cases {limit : Nat} {c c' : ExecutionResultContent} (h : Round limit c c') :
    ∃ stream i r, nextHalved c.results = some (stream, i) ∧ c.results[i]? = some r ∧
      streamText stream r ≠ "" ∧ c'.results[i]? = some (halve r stream) ∧
      ∀ j, j ≠ i → c'.results[j]? = c.results[j]? := by
  obtain ⟨-, results, hshrink, rfl⟩ := h
  rw [shrink_eq, Option.map_eq_some_iff] at hshrink
  obtain ⟨⟨stream, i⟩, hnext, rfl⟩ := hshrink
  obtain ⟨r, hr, hne⟩ := nextHalved_spec hnext
  refine ⟨stream, i, r, hnext, hr, hne, ?_, fun j hj => ?_⟩
  · dsimp only
    rw [List.getElem?_modify_eq, hr]
    rfl
  · dsimp only
    exact List.getElem?_modify_ne _ _ (Ne.symm hj)

theorem round_of_nextHalved {limit : Nat} {c : ExecutionResultContent}
    (hsize : limit < messageSize c) {stream : OutputStream} {i : Nat}
    (h : nextHalved c.results = some (stream, i)) : ∃ c', Round limit c c' := by
  refine ⟨{ c with results := c.results.modify i fun r => halve r stream }, hsize, _, ?_, rfl⟩
  rw [shrink_eq, h]
  rfl

/-! ## Every round -/

section Ranges

variable (rc : ResultCollector) (limit : Nat) (content : ExecutionResultContent)

/-- In `c`, the ranges of the results that stand for an output in `content` are in order. -/
def Ordered (c : ExecutionResultContent) : Prop :=
  ∀ (i : Nat) (r₀ r : TaskResult), content.results[i]? = some r₀ → OutputResult rc r₀ →
    c.results[i]? = some r → ∀ stream, RangeOrdered stream r

/-- The ranges that the outputs of the tasks are reported with are in order in every content that
the loop comes to, the one it returns among them, and advance from each of them to the next. -/
structure RangesHold : Prop where
  ordered : ∀ c, Reached limit content c → Ordered rc content c
  fitted : ∀ rounds fitted, fitMessage limit rounds content = some fitted →
    Ordered rc content fitted
  advances : ∀ c c', Reached limit content c → Round limit c c' →
    ∀ (i : Nat) (r r' : TaskResult), c.results[i]? = some r → c'.results[i]? = some r' →
      ∀ stream, RangeAdvances stream r r'

/-- No round halves a text whose half is longer than the range it stands for. -/
def HalvesWithinRanges : Prop :=
  ∀ c, Reached limit content c → limit < messageSize c →
    ∀ (stream : OutputStream) (i : Nat) (r : TaskResult),
      nextHalved c.results = some (stream, i) → c.results[i]? = some r → HalfWithinRange stream r

/-- Of every result, it is known whether it stands for an output, and it has no text otherwise. -/
def Texts (c : ExecutionResultContent) : Prop :=
  ∀ (i : Nat) (r : TaskResult), c.results[i]? = some r → ∃ r₀, content.results[i]? = some r₀ ∧
    (OutputResult rc r₀ ∨ ∀ stream, streamText stream r = "")

variable {rc limit content}

theorem Texts.round {c c' : ExecutionResultContent} (h : Texts rc content c)
    (hround : Round limit c c') : Texts rc content c' := by
  obtain ⟨stream, i, r, -, hr, hne, hhalved, hothers⟩ := hround.cases
  intro j r' hr'
  by_cases hj : j = i
  · subst hj
    obtain ⟨r₀, hr₀, hout | hempty⟩ := h j r hr
    · exact ⟨r₀, hr₀, .inl hout⟩
    · exact absurd (hempty stream) hne
  · rw [hothers j hj] at hr'
    exact h j r' hr'

theorem Texts.reached {c : ExecutionResultContent} (h : Texts rc content content)
    (hreached : Reached limit content c) : Texts rc content c := by
  induction hreached with
  | refl => exact h
  | tail _ hround ih => exact ih.round hround

theorem Ordered.round {c c' : ExecutionResultContent} (h : Ordered rc content c)
    (hround : Round limit c c')
    (hwithin : ∀ (stream : OutputStream) (i : Nat) (r : TaskResult),
      nextHalved c.results = some (stream, i) → c.results[i]? = some r → HalfWithinRange stream r) : Ordered rc content c' := by
  obtain ⟨stream, i, r, hnext, hr, -, hhalved, hothers⟩ := hround.cases
  intro j r₀ r' hr₀ hout hr' other
  by_cases hj : j = i
  · subst hj
    rw [hhalved] at hr'
    cases hr'
    exact (h j r₀ r hr₀ hout hr other).halve (hwithin stream j r hnext hr)
  · rw [hothers j hj] at hr'
    exact h j r₀ r' hr₀ hout hr' other

theorem ordered_reached (h : HalvesWithinRanges limit content) {c : ExecutionResultContent}
    (hreached : Reached limit content c) : Ordered rc content c := by
  induction hreached with
  | refl =>
    intro i r₀ r hr₀ hout hr stream
    rw [hr₀] at hr
    cases hr
    exact rangeOrdered_output hout stream
  | tail hbefore hround ih => exact ih.round hround (h _ hbefore hround.1)

theorem advances_round {c c' : ExecutionResultContent} (hround : Round limit c c')
    (hwithin : ∀ (stream : OutputStream) (i : Nat) (r : TaskResult),
      nextHalved c.results = some (stream, i) → c.results[i]? = some r → HalfWithinRange stream r) {i : Nat} {r r' : TaskResult} (hr : c.results[i]? = some r)
    (hr' : c'.results[i]? = some r') (other : OutputStream) : RangeAdvances other r r' := by
  obtain ⟨stream, j, s, hnext, hs, -, hhalved, hothers⟩ := hround.cases
  by_cases hi : i = j
  · subst hi
    rw [hr] at hs
    cases hs
    rw [hhalved] at hr'
    cases hr'
    by_cases hstream : stream = other
    · subst hstream
      exact rangeAdvances_halve_iff.2 (.inl (hwithin stream i r hnext hr))
    · exact rangeAdvances_of_eq (streamRange_halve_of_ne hstream r)
  · rw [hothers i hi, hr] at hr'
    cases hr'
    exact rangeAdvances_of_eq rfl

/-- A round that halves a text whose half is longer than its range moves the start back. -/
theorem RangesHold.within (h : RangesHold rc limit content) (htexts : Texts rc content content) :
    HalvesWithinRanges limit content := by
  intro c hreached hsize stream i r hnext hr
  obtain ⟨c', hround⟩ := round_of_nextHalved hsize hnext
  obtain ⟨stream', i', r', hnext', hr', hne, hhalved, -⟩ := hround.cases
  rw [hnext] at hnext'
  cases hnext'
  rw [hr] at hr'
  cases hr'
  obtain hwithin | hnone :=
    rangeAdvances_halve_iff.1 (h.advances c c' hreached hround i r _ hr hhalved stream)
  · exact hwithin
  · obtain ⟨r₀, hr₀, hout | hempty⟩ := htexts.reached hreached i r hr
    · obtain ⟨start, stop, total, hrange, -⟩ := h.ordered c hreached i r₀ r hr₀ hout hr stream
      rw [hnone] at hrange
      cases hrange
    · exact absurd (hempty stream) hne

end Ranges

/-! ## Steady outputs -/

/-- The bytes that a budget keeps of a stream, decoded, take no more than twice their room, and end
so that a cut leaves no more of a character than there is behind it. -/
def SteadyBytes (kept : List UInt8) : Prop :=
  (encodeText (decodeOutput kept)).length ≤ 2 * kept.length + 1 ∧ SteadyEnd (decodeOutput kept)

/-- Every output stands for two streams of which the budget keeps steady bytes. -/
def SteadyOutputs (outputs : Outputs TruncatedOutput) : Prop :=
  ∀ id out, outputs id = some out → ∃ stdout stderr, ∃ budget : Nat,
    PayloadGuard.apply stdout stderr budget = .ok out ∧
      SteadyBytes (lastBytes (stdoutShare stdout.length stderr.length budget) stdout) ∧
      SteadyBytes (lastBytes (stderrShare stdout.length stderr.length budget) stderr)

/-- The text of a result that is in its range, and stays so however often it is halved. -/
def SteadyText (stream : OutputStream) (r : TaskResult) : Prop :=
  streamText stream r = "" ∨ HalfWithinRange stream r ∧ SteadyEnd (streamText stream r)

theorem streamText_halve (stream : OutputStream) (r : TaskResult) :
    streamText stream (halve r stream) = halveText (streamText stream r) := by
  cases stream <;> rfl

theorem streamText_halve_of_ne {stream other : OutputStream} (h : stream ≠ other)
    (r : TaskResult) : streamText other (halve r stream) = streamText other r := by
  cases stream <;> cases other <;> first | rfl | exact absurd rfl h

/-- A range is as long as the bytes that the last halving kept. -/
theorem streamRange_halve_width {stream : OutputStream} {r : TaskResult} {start stop : Int}
    (h : streamRange stream (halve r stream) = some (start, stop)) :
    stop - start = (streamSize stream r / 2 : Nat) := by
  have hlength : (lastBytes (streamSize stream r / 2) (encodeText (streamText stream r))).length =
      streamSize stream r / 2 := length_lastBytes (Nat.div_le_self _ _)
  unfold streamSize at hlength ⊢
  cases stream with
  | stdout =>
    cases h
    rw [hlength]
    omega
  | stderr =>
    cases h
    rw [hlength]
    omega

theorem SteadyText.halve {stream other : OutputStream} {r : TaskResult}
    (h : SteadyText other r) : SteadyText other (PayloadGuard.halve r stream) := by
  by_cases hstream : stream = other
  · subst hstream
    unfold SteadyText
    rw [streamText_halve]
    obtain hempty | ⟨-, hsteady⟩ := h
    · rw [hempty]
      exact .inl rfl
    · obtain ⟨hsteady', hsize⟩ := steadyEnd_halveText hsteady
      refine .inr ⟨fun start stop hrange => ?_, hsteady'⟩
      rw [streamRange_halve_width hrange]
      unfold streamSize
      rw [streamText_halve]
      exact Int.ofNat_le.2 hsize
  · unfold SteadyText HalfWithinRange streamSize
    rw [streamText_halve_of_ne hstream, streamRange_halve_of_ne hstream]
    exact h

/-- A text that is decoded from steady bytes, with their range. -/
theorem steadyText_of_bytes {stream : OutputStream} {r : TaskResult} {kept : List UInt8}
    {total : Int} (h : SteadyBytes kept) (htext : streamText stream r = decodeOutput kept)
    (hrange : streamRange stream r = some (total - kept.length, total)) :
    SteadyText stream r := by
  unfold SteadyText
  rw [htext]
  refine .inr ⟨fun start stop heq => ?_, h.2⟩
  rw [hrange] at heq
  cases heq
  have hsize := h.1
  unfold streamSize
  rw [htext]
  omega

theorem steadyText_taskResult {rc : ResultCollector} {outputs : Outputs TruncatedOutput}
    (h : SteadyOutputs outputs) {task : TaskRecord} {chunk : Option ChunkResult} {r : TaskResult}
    (hr : rc.taskResult task (outputs task.taskId) chunk = .ok r) (stream : OutputStream) :
    SteadyText stream r := by
  unfold ResultCollector.taskResult at hr
  cases htype : task.type with
  | chunkRequest =>
    rw [htype] at hr
    obtain rfl := Except.ok.inj hr
    exact .inl (by cases stream <;> rfl)
  | cmd =>
    rw [htype] at hr
    obtain ⟨translation, -, hr⟩ := Prog.bind_eq_ok.1 hr
    obtain rfl := Except.ok.inj hr
    cases hout : outputs task.taskId with
    | none => exact .inl (by cases stream <;> rfl)
    | some out =>
      obtain ⟨stdout, stderr, budget, happly, hstdout, hstderr⟩ := h task.taskId out hout
      rw [apply_eq] at happly
      cases happly
      cases stream with
      | stdout =>
        refine @steadyText_of_bytes _ _ _ stdout.length hstdout rfl ?_
        rw [length_lastBytes (stdoutShare_le stdout stderr budget)]
        rfl
      | stderr =>
        refine @steadyText_of_bytes _ _ _ stderr.length hstderr rfl ?_
        rw [length_lastBytes (stderrShare_le stdout stderr budget)]
        rfl

theorem steadyText_reached {limit : Nat} {content c : ExecutionResultContent}
    (h : ∀ r ∈ content.results, ∀ stream, SteadyText stream r) (hreached : Reached limit content c) :
    ∀ r ∈ c.results, ∀ stream, SteadyText stream r := by
  induction hreached with
  | refl => exact h
  | tail _ hround ih =>
    obtain ⟨stream, i, r, -, hr, -, hhalved, hothers⟩ := hround.cases
    intro r' hr' other
    obtain ⟨j, hj⟩ := List.getElem?_of_mem hr'
    by_cases hji : j = i
    · subst hji
      rw [hhalved] at hj
      cases hj
      exact (ih r (List.mem_of_getElem? hr) other).halve
    · rw [hothers j hji] at hj
      exact ih r' (List.mem_of_getElem? hj) other

theorem halvesWithinRanges_of_steady {limit : Nat} {content : ExecutionResultContent}
    (h : ∀ r ∈ content.results, ∀ stream, SteadyText stream r) :
    HalvesWithinRanges limit content := by
  intro c hreached _ stream i r hnext hr
  obtain hempty | ⟨hwithin, -⟩ := steadyText_reached h hreached r (List.mem_of_getElem? hr) stream
  · obtain ⟨r', hr', hne⟩ := nextHalved_spec hnext
    rw [hr] at hr'
    cases hr'
    exact absurd hempty hne
  · exact hwithin

/-- A content that fits is left alone. -/
theorem halvesWithinRanges_of_le {limit : Nat} {content : ExecutionResultContent}
    (h : messageSize content ≤ limit) : HalvesWithinRanges limit content := by
  intro c hreached hsize
  obtain rfl | ⟨c', hround, -⟩ := Relation.ReflTransGen.cases_head hreached
  · exact absurd h (Nat.not_le_of_gt hsize)
  · exact absurd h (Nat.not_le_of_gt hround.1)

/-- The ranges reported for the outputs of a plan hold through the halvings of a content that fits,
or whose outputs are steady; they do not when the first text that is halved takes more than twice
the room of the bytes that it stands for. -/
theorem ranges_hold (rc : ResultCollector) {plan : PlanRecord} {tasks : List TaskRecord}
    {outputs : Outputs TruncatedOutput} {chunks : Outputs ChunkResult}
    {content : ExecutionResultContent} (hbuild : rc.build plan tasks outputs chunks = .ok content)
    (houtputs : Kept outputs) (limit : Nat) :
    (messageSize content ≤ limit ∨ SteadyOutputs outputs → RangesHold rc limit content) ∧
    (∀ stream i r start stop, limit < messageSize content →
      nextHalved content.results = some (stream, i) → content.results[i]? = some r →
      streamRange stream r = some (start, stop) → 2 * (stop - start) + 1 < streamSize stream r →
      ¬ RangesHold rc limit content) := by
  refine ⟨fun h => ?_, fun stream i r start stop hsize hnext hr hrange hlong hranges => ?_⟩
  · have hwithin : HalvesWithinRanges limit content := by
      refine h.elim halvesWithinRanges_of_le fun hsteady => halvesWithinRanges_of_steady ?_
      intro r hr stream
      obtain ⟨task, htask⟩ := ResultCollector.build_results hbuild r hr
      exact steadyText_taskResult hsteady htask stream
    exact {
      ordered := fun c hreached => ordered_reached hwithin hreached
      fitted := fun rounds fitted hfit => ordered_reached hwithin (reached_fitMessage hfit)
      advances := fun c c' hreached hround i r r' hr hr' =>
        advances_round hround (hwithin c hreached hround.1) hr hr' }
  · have htexts : Texts rc content content := fun i r hr =>
      ⟨r, hr, ResultCollector.build_texts hbuild houtputs r (List.mem_of_getElem? hr)⟩
    have hhalf := hranges.within htexts content .refl hsize stream i r hnext hr start stop hrange
    omega

/-! ### A task that wrote two bytes -/

def plainCollector : ResultCollector := ⟨⟨fun _ => false⟩, ⟨.posix, fun _ => .ok none⟩⟩

def ranPlan : PlanRecord where
  planId := "p"
  sessionId := "s"
  conversationId := "c"
  cycleId := "y"
  planType := .executionPlan
  objective := "look"
  executionPolicy := .sequential
  status := .completed
  createdAt := 0
  updatedAt := 0

def ranTask : TaskRecord where
  taskId := "t"
  planId := "p"
  sessionId := "s"
  conversationId := "c"
  orderIndex := 0
  type := .cmd
  cmd := some "cat f"
  status := .completed
  exitCode := some 0
  createdAt := 0
  updatedAt := 0

/-- The content for the plan, given what its task wrote. -/
def ranContent (stdout : List UInt8) : ExecutionResultContent where
  planId := "p"
  status := "completed"
  results := [plainCollector.cmdResult ranTask (some (applyBudget stdout [] 64)) none]

theorem build_ran (stdout : List UInt8) :
    plainCollector.build ranPlan [ranTask] (fun _ => some (applyBudget stdout [] 64))
      (fun _ => none) = .ok (ranContent stdout) := rfl

theorem kept_ran (stdout : List UInt8) : Kept fun _ => some (applyBudget stdout [] 64) := by
  intro id out hout
  cases hout
  exact ⟨stdout, [], 64, apply_eq stdout [] 64⟩

/-- The task wrote "café" and a line end. -/
theorem ranges_hold_ran :
    RangesHold plainCollector 1 (ranContent [0x63, 0x61, 0x66, 0xC3, 0xA9, 0x0A]) := by
  let stdout : List UInt8 := [0x63, 0x61, 0x66, 0xC3, 0xA9, 0x0A]
  have htext : decodeOutput stdout = "café\n" := by decide +kernel
  have hlast : endsSteady ['\n', 'é', 'f', 'a', 'c'] :=
    .inr ⟨by decide +kernel, fun d hd => by cases hd; decide +kernel⟩
  have hsteady : SteadyBytes stdout := by
    unfold SteadyBytes SteadyEnd
    rw [htext]
    exact ⟨by decide +kernel, .inr hlast⟩
  refine (ranges_hold plainCollector (build_ran stdout) (kept_ran stdout) 1).1
    (.inr fun id out hout => ?_)
  obtain rfl := Option.some.inj hout
  exact ⟨stdout, [], 64, apply_eq stdout [] 64, hsteady, ⟨by decide +kernel, .inr trivial⟩⟩

/-- Two bytes that are not UTF-8 are six bytes once decoded: half of them starts before the
stream. -/
theorem ranges_fail_not_utf8 :
    plainCollector.build ranPlan [ranTask] (fun _ => some (applyBudget [0xFF, 0xFF] [] 64))
        (fun _ => none) = .ok (ranContent [0xFF, 0xFF]) ∧
      ¬ RangesHold plainCollector (messageSize (ranContent [0xFF, 0xFF]) - 1)
        (ranContent [0xFF, 0xFF]) := by
  refine ⟨build_ran _, fun h => ?_⟩
  have hfit : (fitMessage (messageSize (ranContent [0xFF, 0xFF]) - 1) 2
      (ranContent [0xFF, 0xFF])).map (fun c => c.results.map TaskResult.stdoutRange) =
        some [some (-1, 2)] := by decide +kernel
  rw [Option.map_eq_some_iff] at hfit
  obtain ⟨fitted, hfitted, hranges⟩ := hfit
  cases hresults : fitted.results with
  | nil =>
    rw [hresults] at hranges
    cases hranges
  | cons r rest =>
    rw [hresults, List.map_cons] at hranges
    have hout : OutputResult plainCollector
        (plainCollector.cmdResult ranTask (some (applyBudget [0xFF, 0xFF] [] 64)) none) :=
      ⟨ranTask, [0xFF, 0xFF], [], 64, _, none, apply_eq _ _ _, rfl⟩
    obtain ⟨start, stop, total, hrange, -, hstart, -⟩ :=
      h.fitted 2 fitted hfitted 0 _ r rfl hout (by rw [hresults]; rfl) .stdout
    have hminus : r.stdoutRange = some (-1, 2) := (List.cons.inj hranges).1
    unfold streamRange at hrange
    dsimp only at hrange
    rw [hminus] at hrange
    cases hrange
    exact absurd hstart (by decide)

end PayloadGuard

end AgenticLocalApp
