import AgenticLocalApp.Observability.AuditLog
import AgenticLocalApp.Persistence.RecordTables
import Mathlib.Algebra.Order.Ring.Unbundled.Rat
import Mathlib.Algebra.Ring.Int.Defs

/-!
# The telemetry

Counters, histograms and a rate, kept up to date event by event.  What they say at any time is what
the events since the last reset say: the counters count them, the histograms summarise what they
report, and the rate counts the tasks completed in the last minute, however often it was read.
-/

namespace AgenticLocalApp

namespace Telemetry

/-- An event, as far as the telemetry looks at it. -/
structure Event where
  eventType : EventType
  payload : List (String × Json) := []

/-- The numbers that can be reported, the integers and the floats but for NaN, in their order: the
integers keep theirs, and a sum may be rounded. -/
class Numbers (ν : Type) [LinearOrder ν] where
  ofInt : Int → ν
  /-- The float that a text stands for. -/
  ofFloat : String → ν
  add : ν → ν → ν
  ofInt_mono : ∀ {a b : Int}, a ≤ b → ofInt a ≤ ofInt b

variable {ν : Type} [LinearOrder ν] [Numbers ν]

/-- `_number`. -/
def number : Option Json → Option ν
  | some (.int n) => some (Numbers.ofInt n)
  | some (.float text) => some (Numbers.ofFloat text)
  | _ => none

/-- `_label_value`. -/
def labelValue : Option Json → Option String
  | some (.str s) => some s
  | _ => none

/-! ## Counters -/

inductive CounterName where
  | eventsTotal | taskTerminalTotal | planTerminalTotal | failuresTotal | retriesTotal
  | rotationsTotal | interruptionsTotal | breakerTransitionsTotal | messagesTotal
  | messagesRejectedTotal | correctionsTotal | contextSaturationsTotal | budgetExceededTotal
  deriving DecidableEq, Repr

/-- The names of the labels of a counter. -/
def CounterName.labelNames : CounterName → List String
  | .eventsTotal => ["event_type"]
  | .taskTerminalTotal => ["status"]
  | .planTerminalTotal => ["status"]
  | .failuresTotal => ["error_type"]
  | .rotationsTotal => ["outcome"]
  | .breakerTransitionsTotal => ["to"]
  | .messagesTotal => ["direction"]
  | .correctionsTotal => ["error_code"]
  | _ => []

/-- The labels of a counter and their values.  No counter has more than one. -/
abbrev LabelKey := List (String × String)

/-- The values of a `_Counter`, in the order in which its labels were first seen. -/
abbrev Counter := List (LabelKey × Nat)

/-- `reset`: a counter without labels is always there. -/
def Counter.fresh (name : CounterName) : Counter :=
  if name.labelNames = [] then [([], 0)] else []

/-- `inc`. -/
def Counter.inc (key : LabelKey) : Counter → Counter
  | [] => [(key, 1)]
  | (k, n) :: rest => if k = key then (k, n + 1) :: rest else (k, n) :: Counter.inc key rest

/-- The value for some labels, none of which counts as zero. -/
def Counter.value (c : Counter) (key : LabelKey) : Nat := (c.lookup key).getD 0

/-! ## Histograms -/

inductive HistogramName where
  | taskDurationMs | cycleDurationMs | messageSizeBytes
  deriving DecidableEq, Repr

def HistogramName.buckets : HistogramName → List Int
  | .taskDurationMs => [10, 50, 100, 250, 500, 1000, 2500, 5000, 10000, 30000, 60000, 300000]
  | .cycleDurationMs => [100, 250, 500, 1000, 2500, 5000, 10000, 30000, 60000, 120000, 300000]
  | .messageSizeBytes => [256, 1024, 4096, 16384, 65536, 262144, 1048576]

/-- `_Histogram`.  `perBucket` counts what is above the bound before and up to the bound. -/
structure Histogram (ν : Type) where
  count : Nat := 0
  sum : ν
  min : Option ν := none
  max : Option ν := none
  perBucket : List Nat
  above : Nat := 0
  deriving DecidableEq, Repr

namespace Histogram

/-- `reset`. -/
def fresh (buckets : List Int) : Histogram ν where
  sum := Numbers.ofInt 0
  perBucket := .replicate buckets.length 0

/-- The first bucket that has room for the value counts it. -/
def place (value : ν) : List Int → List Nat → List Nat × Nat
  | bound :: bounds, n :: ns =>
    if value ≤ Numbers.ofInt bound then ((n + 1) :: ns, 0)
    else ((n :: (place value bounds ns).1), (place value bounds ns).2)
  | _, ns => (ns, 1)

/-- `observe`. -/
def observe (buckets : List Int) (value : ν) (h : Histogram ν) : Histogram ν where
  count := h.count + 1
  sum := Numbers.add h.sum value
  min := some (match h.min with
    | none => value
    | some m => if value < m then value else m)
  max := some (match h.max with
    | none => value
    | some m => if m < value then value else m)
  perBucket := (place value buckets h.perBucket).1
  above := h.above + (place value buckets h.perBucket).2

/-- The running totals of `cumulative`, from `running` on. -/
def totals (running : Nat) : List Nat → List Nat
  | [] => []
  | n :: ns => (running + n) :: totals (running + n) ns

end Histogram

/-! ## The service -/

def rateWindowMs : Int := 60000

structure Service (ν : Type) where
  counters : CounterName → Counter
  histograms : HistogramName → Histogram ν
  /-- When the last tasks were completed, the oldest first. -/
  completions : List Int

namespace Service

def fresh : Service ν where
  counters := Counter.fresh
  histograms h := .fresh h.buckets
  completions := []

/-- `_inc`. -/
def inc (name : CounterName) (key : LabelKey) (s : Service ν) : Service ν :=
  { s with counters := Function.update s.counters name ((s.counters name).inc key) }

/-- `_observe`. -/
def observe (name : HistogramName) (raw : Option Json) (s : Service ν) : Service ν :=
  match number raw with
  | none => s
  | some value =>
    { s with
      histograms := Function.update s.histograms name
        ((s.histograms name).observe name.buckets value) }

def complete (now : Int) (s : Service ν) : Service ν := { s with completions := s.completions ++ [now] }

end Service

/-- `_TERMINAL_TASK_VALUES`. -/
def terminalTaskValues : List String :=
  ((EnumColumn.members : List TaskState).filter TaskState.terminal).map StrEnum.value

/-- `_TERMINAL_PLAN_VALUES`. -/
def terminalPlanValues : List String :=
  ((EnumColumn.members : List PlanState).filter PlanState.terminal).map StrEnum.value

/-- The label that the payload gives, which is not left empty. -/
def labelOr (default : String) (raw : Option Json) : String :=
  match labelValue raw with
  | some label => if label = "" then default else label
  | none => default

namespace Service

/-! What `handle` makes of something that moved to `target`. -/

def taskMoved (now : Int) (target : Option String) (s : Service ν) : Service ν :=
  match target with
  | none => s
  | some label =>
    if label ∈ terminalTaskValues then
      let s := s.inc .taskTerminalTotal [("status", label)]
      if label = StrEnum.value TaskState.completed then s.complete now else s
    else s

def planMoved (target : Option String) (s : Service ν) : Service ν :=
  match target with
  | none => s
  | some label =>
    if label ∈ terminalPlanValues then s.inc .planTerminalTotal [("status", label)] else s

def breakerMoved (target : Option String) (s : Service ν) : Service ν :=
  match target with
  | none => s
  | some label => s.inc .breakerTransitionsTotal [("to", label)]

def windowMoved (target : Option String) (s : Service ν) : Service ν :=
  if target = some (StrEnum.value ContextWindowState.saturated) then
    s.inc .contextSaturationsTotal []
  else s

/-- `handle`, at a time. -/
def handle (now : Int) (e : Event) (s : Service ν) : Service ν :=
  let s := s.inc .eventsTotal [("event_type", StrEnum.value e.eventType)]
  let target := labelValue (e.payload.lookup "to")
  match e.eventType with
  | .taskStateChanged =>
    (s.taskMoved now target).observe .taskDurationMs (e.payload.lookup "duration_ms")
  | .planStateChanged => s.planMoved target
  | .cycleEnded => s.observe .cycleDurationMs (e.payload.lookup "duration_ms")
  | .failureRecorded =>
    s.inc .failuresTotal [("error_type", labelOr "unknown" (e.payload.lookup "error_type"))]
  | .retryScheduled => s.inc .retriesTotal []
  | .rotationCompleted => s.inc .rotationsTotal [("outcome", "completed")]
  | .rotationFailed => s.inc .rotationsTotal [("outcome", "failed")]
  | .interruptionRequested => s.inc .interruptionsTotal []
  | .breakerStateChanged => s.breakerMoved target
  | .messageOutbound | .messageRetransmitted =>
    (s.inc .messagesTotal [("direction", "outbound")]).observe .messageSizeBytes
      (e.payload.lookup "size_bytes")
  | .messageInbound =>
    (s.inc .messagesTotal [("direction", "inbound")]).observe .messageSizeBytes
      (e.payload.lookup "size_bytes")
  | .messageRejected =>
    ((s.inc .messagesTotal [("direction", "inbound")]).inc .messagesRejectedTotal []).observe
      .messageSizeBytes (e.payload.lookup "size_bytes")
  | .correctionRequested =>
    s.inc .correctionsTotal [("error_code", labelOr "unknown" (e.payload.lookup "error_code"))]
  | .contextWindowStateChanged => s.windowMoved target
  | .budgetExceeded => s.inc .budgetExceededTotal []
  | _ => s

/-- `tasks_completed_per_minute`: what is too old is forgotten. -/
def tasksCompletedPerMinute (now : Int) (s : Service ν) : Nat × Service ν :=
  let completions := s.completions.dropWhile fun at' => at' ≤ now - rateWindowMs
  (completions.length, { s with completions := completions })

end Service

/-- What is done with the service. -/
inductive Call where
  | handle (e : Event)
  /-- `metrics` and `render_text` read the rate, and change nothing else. -/
  | read
  | reset

/-- One call, at a time of the clock. -/
def Service.step (s : Service ν) : Int × Call → Service ν
  | (now, .handle e) => s.handle now e
  | (now, .read) => (s.tasksCompletedPerMinute now).2
  | (_, .reset) => .fresh

def Service.run (calls : List (Int × Call)) : Service ν := calls.foldl Service.step .fresh

/-! ## What the events say -/

/-- The events since the last reset, and when they came. -/
abbrev History := List (Int × Event)

def History.step (h : History) : Int × Call → History
  | (now, .handle e) => h ++ [(now, e)]
  | (_, .read) => h
  | (_, .reset) => []

/-- The labels under which a counter counts the event, if it does. -/
def counted (e : Event) : CounterName → Option LabelKey
  | .eventsTotal => some [("event_type", StrEnum.value e.eventType)]
  | .taskTerminalTotal =>
    if e.eventType = .taskStateChanged then
      ((labelValue (e.payload.lookup "to")).filter (· ∈ terminalTaskValues)).map
        fun label => [("status", label)]
    else none
  | .planTerminalTotal =>
    if e.eventType = .planStateChanged then
      ((labelValue (e.payload.lookup "to")).filter (· ∈ terminalPlanValues)).map
        fun label => [("status", label)]
    else none
  | .failuresTotal =>
    if e.eventType = .failureRecorded then
      some [("error_type", labelOr "unknown" (e.payload.lookup "error_type"))]
    else none
  | .retriesTotal => if e.eventType = .retryScheduled then some [] else none
  | .rotationsTotal =>
    if e.eventType = .rotationCompleted then some [("outcome", "completed")]
    else if e.eventType = .rotationFailed then some [("outcome", "failed")] else none
  | .interruptionsTotal => if e.eventType = .interruptionRequested then some [] else none
  | .breakerTransitionsTotal =>
    if e.eventType = .breakerStateChanged then
      (labelValue (e.payload.lookup "to")).map fun label => [("to", label)]
    else none
  | .messagesTotal =>
    if e.eventType ∈ [.messageOutbound, .messageRetransmitted] then
      some [("direction", "outbound")]
    else if e.eventType ∈ [.messageInbound, .messageRejected] then some [("direction", "inbound")]
    else none
  | .messagesRejectedTotal => if e.eventType = .messageRejected then some [] else none
  | .correctionsTotal =>
    if e.eventType = .correctionRequested then
      some [("error_code", labelOr "unknown" (e.payload.lookup "error_code"))]
    else none
  | .contextSaturationsTotal =>
    if e.eventType = .contextWindowStateChanged ∧ labelValue (e.payload.lookup "to") =
        some (StrEnum.value ContextWindowState.saturated) then some []
    else none
  | .budgetExceededTotal => if e.eventType = .budgetExceeded then some [] else none

/-- What the event reports to a histogram, if it does. -/
def observed (e : Event) : HistogramName → Option ν
  | .taskDurationMs =>
    if e.eventType = .taskStateChanged then number (e.payload.lookup "duration_ms") else none
  | .cycleDurationMs =>
    if e.eventType = .cycleEnded then number (e.payload.lookup "duration_ms") else none
  | .messageSizeBytes =>
    if e.eventType ∈ [.messageOutbound, .messageRetransmitted, .messageInbound, .messageRejected]
    then number (e.payload.lookup "size_bytes") else none

/-- The event is that of a task that was completed. -/
def completes (e : Event) : Bool :=
  e.eventType = .taskStateChanged ∧
    labelValue (e.payload.lookup "to") = some (StrEnum.value TaskState.completed)

section Handle

variable {now : Int} {e : Event} {s : Service ν}

@[simp] theorem observe_counters (name : HistogramName) (raw : Option Json) :
    (s.observe name raw).counters = s.counters := by
  unfold Service.observe
  split <;> rfl

omit [LinearOrder ν] [Numbers ν] in
@[simp] theorem complete_counters : (s.complete now).counters = s.counters := rfl

/-- A counter counts under a label, if there is one. -/
def Counter.incAt (c : Counter) (key : Option LabelKey) : Counter := key.elim c fun key => c.inc key

omit [LinearOrder ν] [Numbers ν] in
@[simp] theorem inc_counters_at (name c : CounterName) (key : LabelKey) :
    (s.inc name key).counters c =
      (s.counters c).incAt (if c = name then some key else none) := by
  by_cases h : c = name
  · subst h
    simp [Service.inc, Counter.incAt]
  · simp [Service.inc, Counter.incAt, h]

omit [LinearOrder ν] [Numbers ν] in
theorem taskMoved_counters (target : Option String) (c : CounterName) :
    (s.taskMoved now target).counters c = (s.counters c).incAt
      (if c = .taskTerminalTotal then
        (target.filter (· ∈ terminalTaskValues)).map fun label => [("status", label)]
      else none) := by
  unfold Service.taskMoved
  cases target with
  | none => simp [Counter.incAt]
  | some label =>
    by_cases hterminal : label ∈ terminalTaskValues
    · by_cases hdone : label = StrEnum.value TaskState.completed
      · simp [hterminal, ← hdone, Option.filter_some]
      · simp [hterminal, hdone, Option.filter_some]
    · simp [hterminal, Counter.incAt, Option.filter_some]

omit [LinearOrder ν] [Numbers ν] in
theorem planMoved_counters (target : Option String) (c : CounterName) :
    (s.planMoved target).counters c = (s.counters c).incAt
      (if c = .planTerminalTotal then
        (target.filter (· ∈ terminalPlanValues)).map fun label => [("status", label)]
      else none) := by
  unfold Service.planMoved
  cases target with
  | none => simp [Counter.incAt]
  | some label =>
    by_cases hterminal : label ∈ terminalPlanValues
    · simp [hterminal, Option.filter_some]
    · simp [hterminal, Counter.incAt, Option.filter_some]

omit [LinearOrder ν] [Numbers ν] in
theorem breakerMoved_counters (target : Option String) (c : CounterName) :
    (s.breakerMoved target).counters c = (s.counters c).incAt
      (if c = .breakerTransitionsTotal then target.map fun label => [("to", label)] else none) := by
  cases target with
  | none => simp [Service.breakerMoved, Counter.incAt]
  | some label => simp [Service.breakerMoved]

omit [LinearOrder ν] [Numbers ν] in
theorem windowMoved_counters (target : Option String) (c : CounterName) :
    (s.windowMoved target).counters c = (s.counters c).incAt
      (if c = .contextSaturationsTotal ∧
        target = some (StrEnum.value ContextWindowState.saturated) then some [] else none) := by
  unfold Service.windowMoved
  by_cases h : target = some (StrEnum.value ContextWindowState.saturated)
  · simp [h]
  · simp [h, Counter.incAt]

/-- An event counts once, if at all, in every counter. -/
theorem handle_counters (c : CounterName) :
    (s.handle now e).counters c = (s.counters c).incAt (counted e c) := by
  unfold Service.handle
  dsimp only
  split <;> try simp only [imp_false] at *
  all_goals
    cases c <;> simp [*, counted, taskMoved_counters, planMoved_counters, breakerMoved_counters,
      windowMoved_counters, Counter.incAt]

/-- A histogram observes a value, if there is one. -/
def Histogram.observeAt (buckets : List Int) (h : Histogram ν) (value : Option ν) : Histogram ν :=
  value.elim h fun v => h.observe buckets v

omit [LinearOrder ν] [Numbers ν] in
@[simp] theorem inc_histograms (name : CounterName) (key : LabelKey) :
    (s.inc name key).histograms = s.histograms := rfl

omit [LinearOrder ν] [Numbers ν] in
@[simp] theorem taskMoved_histograms (target : Option String) :
    (s.taskMoved now target).histograms = s.histograms := by
  unfold Service.taskMoved
  cases target with
  | none => rfl
  | some label =>
    dsimp only
    split
    · split <;> rfl
    · rfl

omit [LinearOrder ν] [Numbers ν] in
@[simp] theorem planMoved_histograms (target : Option String) :
    (s.planMoved target).histograms = s.histograms := by
  unfold Service.planMoved
  cases target with
  | none => rfl
  | some label =>
    dsimp only
    split <;> rfl

omit [LinearOrder ν] [Numbers ν] in
@[simp] theorem breakerMoved_histograms (target : Option String) :
    (s.breakerMoved target).histograms = s.histograms := by
  cases target <;> rfl

omit [LinearOrder ν] [Numbers ν] in
@[simp] theorem windowMoved_histograms (target : Option String) :
    (s.windowMoved target).histograms = s.histograms := by
  unfold Service.windowMoved
  split <;> rfl

theorem observe_histograms (name h : HistogramName) (raw : Option Json) :
    (s.observe name raw).histograms h =
      (s.histograms h).observeAt h.buckets (if h = name then number raw else none) := by
  unfold Service.observe
  cases (number raw : Option ν) with
  | none => simp [Histogram.observeAt]
  | some value =>
    by_cases hname : h = name
    · subst hname
      simp [Histogram.observeAt]
    · simp [Histogram.observeAt, hname]

theorem handle_histograms (h : HistogramName) :
    (s.handle now e).histograms h = (s.histograms h).observeAt h.buckets (observed e h) := by
  unfold Service.handle
  dsimp only
  split <;> try simp only [imp_false] at *
  all_goals
    cases h <;> simp [*, observed, observe_histograms, Histogram.observeAt]

omit [LinearOrder ν] [Numbers ν] in
@[simp] theorem inc_completions (name : CounterName) (key : LabelKey) :
    (s.inc name key).completions = s.completions := rfl

@[simp] theorem observe_completions (name : HistogramName) (raw : Option Json) :
    (s.observe name raw).completions = s.completions := by
  unfold Service.observe
  split <;> rfl

theorem completed_mem : StrEnum.value TaskState.completed ∈ terminalTaskValues := by decide +kernel

omit [LinearOrder ν] [Numbers ν] in
theorem taskMoved_completions (target : Option String) :
    (s.taskMoved now target).completions = s.completions ++
      if target = some (StrEnum.value TaskState.completed) then [now] else [] := by
  unfold Service.taskMoved
  cases target with
  | none => simp
  | some label =>
    by_cases hdone : label = StrEnum.value TaskState.completed
    · have hterminal : label ∈ terminalTaskValues := hdone ▸ completed_mem
      simp [hdone, completed_mem, Service.complete]
    · by_cases hterminal : label ∈ terminalTaskValues
      · simp [hdone, hterminal]
      · simp [hdone, hterminal]

omit [LinearOrder ν] [Numbers ν] in
@[simp] theorem planMoved_completions (target : Option String) :
    (s.planMoved target).completions = s.completions := by
  unfold Service.planMoved
  cases target with
  | none => rfl
  | some label =>
    dsimp only
    split <;> rfl

omit [LinearOrder ν] [Numbers ν] in
@[simp] theorem breakerMoved_completions (target : Option String) :
    (s.breakerMoved target).completions = s.completions := by
  cases target <;> rfl

omit [LinearOrder ν] [Numbers ν] in
@[simp] theorem windowMoved_completions (target : Option String) :
    (s.windowMoved target).completions = s.completions := by
  unfold Service.windowMoved
  split <;> rfl

theorem handle_completions : (s.handle now e).completions =
    s.completions ++ if completes e then [now] else [] := by
  unfold Service.handle
  dsimp only
  split <;> try simp only [imp_false] at *
  all_goals simp [*, completes, taskMoved_completions]

end Handle

/-! ## Counters -/

section Counters

variable {c : Counter} {key k : LabelKey}

theorem Counter.value_cons (n : Nat) :
    Counter.value ((key, n) :: c) k = if k = key then n else Counter.value c k := by
  unfold Counter.value
  by_cases h : k = key
  · simp [h]
  · have hne : (k == key) = false := beq_eq_false_iff_ne.2 h
    simp [List.lookup_cons, hne, h]

theorem Counter.value_inc : (c.inc key).value k = c.value k + if k = key then 1 else 0 := by
  induction c with
  | nil =>
    unfold Counter.inc
    rw [Counter.value_cons]
    by_cases h : k = key
    · simp [h, Counter.value]
    · simp [h]
  | cons entry rest ih =>
    obtain ⟨k', n⟩ := entry
    unfold Counter.inc
    by_cases hkey : k' = key
    · subst hkey
      rw [if_pos rfl, Counter.value_cons, Counter.value_cons]
      split <;> rfl
    · rw [if_neg hkey, Counter.value_cons, Counter.value_cons, ih]
      by_cases h : k = k'
      · have hk : k ≠ key := fun hk => hkey (h.symm.trans hk)
        rw [if_pos h, if_pos h, if_neg hk, Nat.add_zero]
      · rw [if_neg h, if_neg h]

theorem Counter.mem_inc : k ∈ (c.inc key).map Prod.fst ↔ k ∈ c.map Prod.fst ∨ k = key := by
  induction c with
  | nil => simp [Counter.inc]
  | cons entry rest ih =>
    obtain ⟨k', n⟩ := entry
    by_cases hkey : k' = key
    · subst hkey
      simp only [Counter.inc, if_true, List.map_cons, List.mem_cons]
      tauto
    · simp only [Counter.inc, if_neg hkey, List.map_cons, List.mem_cons, ih, or_assoc]

end Counters

/-! ## Histograms -/

namespace Histogram

theorem totals_succ (running : Nat) (ns : List Nat) :
    totals (running + 1) ns = (totals running ns).map (· + 1) := by
  induction ns generalizing running with
  | nil => rfl
  | cons n ns ih =>
    have hadd : running + 1 + n = running + n + 1 := by omega
    simp only [totals, List.map_cons, hadd, ih]

theorem length_place (value : ν) (bounds : List Int) (ns : List Nat) :
    (place value bounds ns).1.length = ns.length := by
  induction bounds generalizing ns with
  | nil => cases ns <;> rfl
  | cons bound bounds ih =>
    cases ns with
    | nil => rfl
    | cons n ns =>
      unfold place
      split <;> simp [ih]

theorem sum_place (value : ν) (bounds : List Int) (ns : List Nat) :
    (place value bounds ns).1.sum + (place value bounds ns).2 = ns.sum + 1 := by
  induction bounds generalizing ns with
  | nil => cases ns <;> simp [place]
  | cons bound bounds ih =>
    cases ns with
    | nil => simp [place]
    | cons n ns =>
      have hrest := ih ns
      unfold place
      split
      · simp only [List.sum_cons]
        omega
      · simp only [List.sum_cons]
        omega

theorem length_totals (running : Nat) (ns : List Nat) : (totals running ns).length = ns.length := by
  induction ns generalizing running with
  | nil => rfl
  | cons n ns ih => simp [totals, ih]

/-- What a value adds to the total of a bound. -/
def raised (value : ν) (bound : Int) (n : Nat) : Nat :=
  n + if value ≤ Numbers.ofInt bound then 1 else 0

theorem zipWith_raised {value : ν} {bounds : List Int} {ns : List Nat}
    (hlength : ns.length = bounds.length) (hb : ∀ bound ∈ bounds, value ≤ Numbers.ofInt bound) :
    List.zipWith (raised value) bounds ns = ns.map (· + 1) := by
  induction bounds generalizing ns with
  | nil =>
    obtain rfl : ns = [] := List.length_eq_zero_iff.1 hlength
    rfl
  | cons bound bounds ih =>
    cases ns with
    | nil => cases hlength
    | cons n ns =>
      obtain ⟨hbound, hbounds⟩ := List.forall_mem_cons.1 hb
      rw [List.zipWith_cons_cons, List.map_cons, ih (Nat.succ.inj hlength) hbounds]
      unfold raised
      rw [if_pos hbound]

/-- A value adds one to the total of every bound that it does not exceed. -/
theorem totals_place {bounds : List Int} (hb : bounds.Pairwise (· ≤ ·)) (value : ν)
    (ns : List Nat) (running : Nat) (hlength : ns.length = bounds.length) :
    totals running (place value bounds ns).1 =
      List.zipWith (raised value) bounds (totals running ns) := by
  induction bounds generalizing ns running with
  | nil =>
    obtain rfl : ns = [] := List.length_eq_zero_iff.1 hlength
    rfl
  | cons bound bounds ih =>
    obtain ⟨hfirst, hrest⟩ := List.pairwise_cons.1 hb
    cases ns with
    | nil => cases hlength
    | cons n ns =>
      have hns : ns.length = bounds.length := Nat.succ.inj hlength
      unfold place
      by_cases hv : value ≤ Numbers.ofInt bound
      · -- every later bound has room for it too
        have hroom : ∀ b ∈ bounds, value ≤ Numbers.ofInt b := fun b hmem =>
          hv.trans (Numbers.ofInt_mono (hfirst b hmem))
        have htotals : (totals (running + n) ns).length = bounds.length :=
          (length_totals _ _).trans hns
        rw [if_pos hv]
        unfold totals
        rw [List.zipWith_cons_cons, zipWith_raised htotals hroom, ← totals_succ]
        unfold raised
        rw [if_pos hv]
        rfl
      · rw [if_neg hv]
        unfold totals
        rw [List.zipWith_cons_cons, ih hrest ns _ hns]
        unfold raised
        rw [if_neg hv]
        rfl

/-- What a histogram says of the values that it was given, in the order in which they came. -/
structure Summarises (buckets : List Int) (values : List ν) (h : Histogram ν) : Prop where
  count : h.count = values.length
  sum : h.sum = values.foldl Numbers.add (Numbers.ofInt 0)
  min : h.min = values.min?
  max : h.max = values.max?
  length : h.perBucket.length = buckets.length
  totals : totals 0 h.perBucket = buckets.map fun bound =>
    values.countP (· ≤ Numbers.ofInt bound)
  all : h.perBucket.sum + h.above = values.length

omit [Numbers ν] in
theorem min?_concat (values : List ν) (v : ν) : (values ++ [v]).min? =
    some (match values.min? with
      | none => v
      | some m => if v < m then v else m) := by
  cases values with
  | nil => rfl
  | cons x xs =>
    simp only [List.cons_append, List.min?_cons', List.foldl_append, List.foldl_cons,
      List.foldl_nil]
    congr 1
    split
    · rename_i h
      exact min_eq_right (le_of_lt h)
    · rename_i h
      exact min_eq_left (not_lt.1 h)

omit [Numbers ν] in
theorem max?_concat (values : List ν) (v : ν) : (values ++ [v]).max? =
    some (match values.max? with
      | none => v
      | some m => if m < v then v else m) := by
  cases values with
  | nil => rfl
  | cons x xs =>
    simp only [List.cons_append, List.max?_cons', List.foldl_append, List.foldl_cons,
      List.foldl_nil]
    congr 1
    split
    · rename_i h
      exact max_eq_right (le_of_lt h)
    · rename_i h
      exact max_eq_left (not_lt.1 h)

theorem totals_replicate (running n : Nat) :
    Histogram.totals running (.replicate n 0) = .replicate n running := by
  induction n with
  | zero => rfl
  | succ n ih =>
    rw [List.replicate_succ, List.replicate_succ]
    unfold Histogram.totals
    rw [Nat.add_zero, ih]

variable {buckets : List Int} {values : List ν} {h : Histogram ν} {v : ν}

theorem summarises_fresh (buckets : List Int) :
    Summarises buckets ([] : List ν) (fresh buckets) where
  count := rfl
  sum := rfl
  min := rfl
  max := rfl
  length := List.length_replicate
  totals := (totals_replicate 0 _).trans (List.map_const' ..).symm
  all := by simp [fresh]

theorem Summarises.observe (hb : buckets.Pairwise (· ≤ ·)) (hs : Summarises buckets values h) :
    Summarises buckets (values ++ [v]) (h.observe buckets v) where
  count := by
    change h.count + 1 = _
    rw [hs.count, List.length_append, List.length_singleton]
  sum := by
    change Numbers.add h.sum v = _
    rw [hs.sum, List.foldl_append, List.foldl_cons, List.foldl_nil]
  min := by
    rw [min?_concat, ← hs.min]
    rfl
  max := by
    rw [max?_concat, ← hs.max]
    rfl
  length := (length_place _ _ _).trans hs.length
  totals := by
    change Histogram.totals 0 (place v buckets h.perBucket).1 = _
    rw [totals_place hb v _ 0 hs.length, hs.totals, List.zipWith_map_right, List.zipWith_self]
    refine List.map_congr_left fun bound _ => ?_
    unfold raised
    rw [List.countP_append, List.countP_singleton]
    simp only [decide_eq_true_eq]
  all := by
    change (place v buckets h.perBucket).1.sum + (h.above + (place v buckets h.perBucket).2) = _
    have hsum := sum_place v buckets h.perBucket
    have hall := hs.all
    rw [List.length_append, List.length_singleton]
    omega

end Histogram

theorem buckets_ascending (name : HistogramName) : name.buckets.Pairwise (· ≤ ·) := by
  cases name <;> decide

/-! ## Runs -/

section Runs

variable {h : History} {s : Service ν} {now last : Int}

/-- The counters and the histograms say what the events do. -/
structure Reflects (h : History) (s : Service ν) : Prop where
  counters : ∀ c key, (s.counters c).value key = h.countP fun x => counted x.2 c = some key
  labels : ∀ c key, key ∈ (s.counters c).map Prod.fst ↔
    key = [] ∧ c.labelNames = [] ∨ ∃ x ∈ h, counted x.2 c = some key
  histograms : ∀ name, Histogram.Summarises name.buckets
    (h.filterMap fun x => observed x.2 name) (s.histograms name)

/-- When tasks were completed. -/
def History.completions (h : History) : List Int := (h.filter fun x => completes x.2).map Prod.fst

/-- What the service has forgotten of the completions is more than a minute old. -/
structure Recent (last : Int) (h : History) (s : Service ν) : Prop where
  forgotten : ∃ old, h.completions = old ++ s.completions ∧ ∀ t ∈ old, t ≤ last - rateWindowMs
  ordered : h.completions.Pairwise (· ≤ ·)
  past : ∀ t ∈ h.completions, t ≤ last

theorem reflects_fresh : Reflects [] (Service.fresh : Service ν) where
  counters c key := by
    unfold Service.fresh Counter.fresh
    dsimp only
    split
    · rw [Counter.value_cons]
      split <;> rfl
    · rfl
  labels c key := by
    unfold Service.fresh Counter.fresh
    dsimp only
    split <;> simp [*]
  histograms name := Histogram.summarises_fresh _

theorem Reflects.handle (hr : Reflects h s) (e : Event) :
    Reflects (h ++ [(now, e)]) (s.handle now e) where
  counters c key := by
    rw [handle_counters, List.countP_append, List.countP_singleton, ← hr.counters c key]
    cases hc : counted e c with
    | none => simp [Counter.incAt]
    | some k =>
      unfold Counter.incAt
      rw [Option.elim_some, Counter.value_inc]
      by_cases hk : key = k
      · simp [hk]
      · simp [hk, Ne.symm hk]
  labels c key := by
    rw [handle_counters]
    cases hc : counted e c with
    | none => simp [Counter.incAt, hr.labels c key, hc]
    | some k =>
      unfold Counter.incAt
      rw [Option.elim_some, Counter.mem_inc, hr.labels c key]
      simp only [List.mem_append, List.mem_singleton, or_and_right, exists_or, exists_eq_left, hc,
        Option.some.injEq, or_assoc, eq_comm]
  histograms name := by
    rw [handle_histograms, List.filterMap_append]
    cases ho : (observed e name : Option ν) with
    | none => simpa [Histogram.observeAt, ho] using hr.histograms name
    | some v =>
      have hs := (hr.histograms name).observe (v := v) (buckets_ascending name)
      simpa [Histogram.observeAt, ho] using hs

theorem Reflects.step (hr : Reflects h s) (call : Int × Call) :
    Reflects (h.step call) (s.step call) := by
  obtain ⟨now, call⟩ := call
  cases call with
  | handle e => exact hr.handle e
  | read => exact ⟨hr.counters, hr.labels, hr.histograms⟩
  | reset => exact reflects_fresh

theorem recent_fresh (last : Int) : Recent last [] (Service.fresh : Service ν) :=
  ⟨⟨[], rfl, List.forall_mem_nil _⟩, .nil, List.forall_mem_nil _⟩

omit [LinearOrder ν] [Numbers ν] in
theorem Recent.later (hr : Recent last h s) (hl : last ≤ now) : Recent now h s where
  forgotten := by
    obtain ⟨old, hold, hlong⟩ := hr.forgotten
    exact ⟨old, hold, fun t ht => (hlong t ht).trans (by omega)⟩
  ordered := hr.ordered
  past t ht := (hr.past t ht).trans hl

theorem completions_concat (h : History) (now : Int) (e : Event) :
    History.completions (h ++ [(now, e)]) =
      h.completions ++ if completes e then [now] else [] := by
  unfold History.completions
  rw [List.filter_append, List.map_append]
  congr 1
  by_cases hc : completes e <;> simp [hc]

theorem Recent.handle (hr : Recent now h s) (e : Event) :
    Recent now (h ++ [(now, e)]) (s.handle now e) where
  forgotten := by
    obtain ⟨old, hold, hlong⟩ := hr.forgotten
    refine ⟨old, ?_, hlong⟩
    rw [completions_concat, handle_completions, hold, List.append_assoc]
  ordered := by
    rw [completions_concat]
    split
    · refine List.pairwise_append.2 ⟨hr.ordered, List.pairwise_singleton _ _, ?_⟩
      intro t ht t' ht'
      obtain rfl := List.mem_singleton.1 ht'
      exact hr.past t ht
    · rw [List.append_nil]
      exact hr.ordered
  past t ht := by
    rw [completions_concat, List.mem_append] at ht
    rcases ht with ht | ht
    · exact hr.past t ht
    · split at ht
      · exact (List.mem_singleton.1 ht).le
      · cases ht

/-- What is dropped from ascending times is what does not come after the horizon. -/
theorem dropWhile_ascending {times : List Int} (ho : times.Pairwise (· ≤ ·)) (horizon : Int) :
    times = times.filter (· ≤ horizon) ++ times.dropWhile (· ≤ horizon) ∧
      times.dropWhile (· ≤ horizon) = times.filter (horizon < ·) := by
  induction times with
  | nil => exact ⟨rfl, rfl⟩
  | cons t times ih =>
    obtain ⟨hfirst, hrest⟩ := List.pairwise_cons.1 ho
    by_cases ht : t ≤ horizon
    · obtain ⟨hsplit, hlate⟩ := ih hrest
      have hn : ¬ horizon < t := by omega
      rw [hlate] at hsplit
      simp only [List.filter_cons, List.dropWhile_cons, ht, hn, decide_true, decide_false, if_true,
        List.cons_append, hlate]
      exact ⟨congrArg (t :: ·) hsplit, rfl⟩
    · -- nothing that comes later is dropped either
      have hlater : ∀ u ∈ times, horizon < u := fun u hu => by
        have hle := hfirst u hu
        omega
      have hnone : times.filter (· ≤ horizon) = [] :=
        List.filter_eq_nil_iff.2 fun u hu => by simpa using hlater u hu
      have hall : times.filter (horizon < ·) = times :=
        List.filter_eq_self.2 fun u hu => by simpa using hlater u hu
      have hlt : horizon < t := by omega
      simp [ht, hlt, hnone, hall]

omit [LinearOrder ν] [Numbers ν] in
theorem Recent.completions_ordered (hr : Recent last h s) : s.completions.Pairwise (· ≤ ·) := by
  obtain ⟨old, hold, -⟩ := hr.forgotten
  have hordered := hr.ordered
  rw [hold] at hordered
  exact (List.pairwise_append.1 hordered).2.1

omit [LinearOrder ν] [Numbers ν] in
/-- A read forgets nothing that a later one would count. -/
theorem Recent.read (hr : Recent now h s) : Recent now h (s.tasksCompletedPerMinute now).2 where
  forgotten := by
    obtain ⟨old, hold, hlong⟩ := hr.forgotten
    obtain ⟨hsplit, -⟩ := dropWhile_ascending hr.completions_ordered (now - rateWindowMs)
    refine ⟨old ++ s.completions.filter (· ≤ now - rateWindowMs), ?_, fun t ht => ?_⟩
    · rw [hold, List.append_assoc]
      exact congrArg (old ++ ·) hsplit
    · rcases List.mem_append.1 ht with ht | ht
      · exact hlong t ht
      · simpa using (List.mem_filter.1 ht).2
  ordered := hr.ordered
  past := hr.past

theorem Recent.step {call : Call} (hr : Recent now h s) :
    Recent now (h.step (now, call)) (s.step (now, call)) := by
  cases call with
  | handle e => exact hr.handle e
  | read => exact hr.read
  | reset => exact recent_fresh now

/-- The numbers as fractions, where a sum is exact: floats that are written with two digits, a point
and a digit. -/
instance : Numbers ℚ where
  ofInt n := n
  ofFloat text :=
    let digits := text.toList.filter Char.isDigit
    mkRat (digits.foldl (fun n c => 10 * n + (c.toNat - '0'.toNat)) 0) 10
  add := (· + ·)
  ofInt_mono h := Rat.intCast_le_intCast.2 h

end Runs

end Telemetry

end AgenticLocalApp
