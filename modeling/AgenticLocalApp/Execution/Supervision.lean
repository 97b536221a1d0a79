import AgenticLocalApp.Execution.Executor
import AgenticLocalApp.Library.Program

/-!
# The supervision of a process

The executor starts a process, waits for its exit, for the cancellation token or for the timeout,
and ends a process that has not come to its end by a soft signal, a grace period and a hard kill.
The coroutine itself may be cancelled wherever it waits.  Signals are sent at once, without a wait.
-/

namespace AgenticLocalApp

open Prog

namespace Supervision

/-- `terminate_gracefully` and `kill` of the platform. -/
inductive Signal where
  | terminateGracefully
  | kill
  deriving DecidableEq

/-- The token, the process with what it was sent, what was read of it, and how long the waits with a
timeout took together. -/
structure Supervised where
  cancelRequested : Bool := false
  pid : Option Int := none
  returncode : Option Int := none
  signals : List Signal := []
  stdout : List UInt8 := []
  stderr : List UInt8 := []
  waitedMs : Nat := 0

def Supervised.send (signal : Signal) (s : Supervised) : Supervised :=
  { s with signals := s.signals ++ [signal] }

/-- What the coroutine raises. -/
inductive Raised where
  | cancelledError
  | callback (exc : Exc)
  | taskExecutionError (error : NormalizedError)

/-- The tasks that are done when a wait for them is over. -/
structure Done where
  exitTask : Bool
  cancelTask : Bool

inductive Spawned where
  | started (pid : Int) (pgid : Option Int)
  /-- `OSError` or `ValueError`. -/
  | failed (error : String)

/-- Where the coroutine is suspended. -/
inductive SupervisionOp where
  | spawn
  /-- `asyncio.wait` for the exit task, and for the cancel task in the first wait. -/
  | wait (forCancel : Bool) (timeoutMs : Nat)
  | waitReaders (timeoutMs : Nat)
  /-- `asyncio.gather` of tasks that are done or were cancelled. -/
  | gather
  /-- The same of the readers, with what each one raised. -/
  | gatherReaders

/-- What an await comes to, unless the coroutine is cancelled. -/
abbrev SupervisionOp.Result : SupervisionOp → Type
  | .spawn => Spawned
  | .wait .. => Done
  | .waitReaders _ | .gather => Unit
  | .gatherReaders => List (Option String)

abbrev Executing : Lang where
  State := Supervised
  Err := Raised
  Op := SupervisionOp
  Ans op := Option op.Result

def await (op : SupervisionOp) : Prog Executing op.Result := do
  match ← Prog.query (L := Executing) op with
  | some result => return result
  | none => throw .cancelledError

/-- `_abort`. -/
def abort (drainMs : Nat) : Prog Executing Unit := do
  Prog.update (L := Executing) (Supervised.send .kill)
  let done ← await (.wait false drainMs)
  if ¬done.exitTask then await .gather

/-- `_terminate_two_phase`. -/
def terminateTwoPhase (drainMs : Nat) : Prog Executing Unit := do
  Prog.update (L := Executing) (Supervised.send .terminateGracefully)
  let done ← await (.wait false drainMs)
  if ¬done.exitTask then
    Prog.update (L := Executing) (Supervised.send .kill)
    let _ ← await (.wait false drainMs)

/-- `_supervise`: whether the process was ended for the timeout, and for the token. -/
def supervise (timeoutMs drainMs : Nat) : Prog Executing (Bool × Bool) :=
  Prog.ensure
    (Prog.tryCatch
      (do
        let done ← await (.wait true timeoutMs)
        if done.exitTask then return (false, false)
        else
          terminateTwoPhase drainMs
          return (!done.cancelTask, done.cancelTask))
      (fun
        | .cancelledError => do
          abort drainMs
          throw .cancelledError
        | e => throw e))
    (await .gather)

/-- `_settle_readers`. -/
def settleReaders (drainMs : Nat) : Prog Executing Unit := do
  await (.waitReaders drainMs)
  let outcomes ← await .gatherReaders
  match outcomes.findSome? id with
  | some error => throw (.taskExecutionError
      (taskExecutionError "OUTPUT_READ_FAILED" [("error", .str error)]))
  | none => return

/-- `_result`, of a process that was started. -/
def Supervised.result (s : Supervised) (pid : Int) (pgid : Option Int)
    (timedOut cancelled : Bool) : RawExecution where
  stdout := s.stdout
  stderr := s.stderr
  exitCode := if timedOut || cancelled then none else s.returncode
  timedOut := timedOut
  cancelled := cancelled
  spawnError := none
  pid := some pid
  processGroupId := pgid

/-- `execute`, where `onSpawn` says what the callback raises. -/
def execute (spec : CommandSpec) (drainMs : Nat) (onSpawn : Int → Option Int → Option Exc) :
    Prog Executing RawExecution := do
  if (← Prog.read (L := Executing)).cancelRequested then
    return {
      stdout := [], stderr := [], exitCode := none, timedOut := false, cancelled := true
      spawnError := none, pid := none, processGroupId := none }
  match ← await .spawn with
  | .failed error => return {
      stdout := [], stderr := [], exitCode := none, timedOut := false, cancelled := false
      spawnError := some error, pid := none, processGroupId := none }
  | .started pid pgid =>
    let (timedOut, cancelled) ← Prog.ensure
      (match onSpawn pid pgid with
        | some exc => do
          abort drainMs
          throw (.callback exc)
        | none => supervise spec.timeoutMs.toNat drainMs)
      (settleReaders drainMs)
    return (← Prog.read (L := Executing)).result pid pgid timedOut cancelled

/-! ## The surroundings -/

/-- The longest that an await lasts, if it has a timeout. -/
def SupervisionOp.timeoutMs : SupervisionOp → Nat
  | .wait _ timeoutMs | .waitReaders timeoutMs => timeoutMs
  | .spawn | .gather | .gatherReaders => 0

/-- What happens elsewhere: the token is set once, a return code stays, output is added. -/
structure Supervised.Later (s s' : Supervised) : Prop where
  cancelRequested : s.cancelRequested = true → s'.cancelRequested = true
  returncode : ∀ code, s.returncode = some code → s'.returncode = some code
  signals : s'.signals = s.signals
  stdout : s.stdout <+: s'.stdout
  stderr : s.stderr <+: s'.stderr

/-- What an answer says of the state in which the coroutine goes on.  A task may be done later than
what it waits for, and a cancelled `create_subprocess_exec` leaves no process behind. -/
def SupervisionOp.Tells (s s' : Supervised) : (op : SupervisionOp) → Option op.Result → Prop
  | .spawn, some (.started pid _) => s'.pid = some pid
  | .spawn, _ => s'.pid = none ∧ s'.returncode = none
  | .wait forCancel _, some done => s'.pid = s.pid ∧
      (done.exitTask = true → s'.returncode.isSome) ∧
      (done.cancelTask = true → forCancel = true ∧ s'.cancelRequested = true)
  | _, _ => s'.pid = s.pid

/-- A signal is sent to the process, the soft one before any other. -/
def Sends (s s' : Supervised) : Prop :=
  ∃ signal, s' = s.send signal ∧ s.pid.isSome ∧ (signal = .terminateGracefully → s.signals = [])

/-- Anything may answer, within the timeouts; a process is started once. -/
def executing : Contract Executing where
  rely op s a s' := s.Later s' ∧ s'.waitedMs ≤ s.waitedMs + op.timeoutMs ∧ op.Tells s s' a
  guar := Sends
  wait op s := op = .spawn → s.pid = none ∧ s.returncode = none
  stuck _ := False

section Rules

variable {s : Supervised} {Q : Except Raised Unit → Supervised → Prop}

theorem wp_await {op : SupervisionOp} {Q : Except Raised op.Result → Supervised → Prop}
    (hwait : op = .spawn → s.pid = none ∧ s.returncode = none)
    (hok : ∀ result s', s.Later s' → s'.waitedMs ≤ s.waitedMs + op.timeoutMs →
      op.Tells s s' (some result) → Q (.ok result) s')
    (hcancel : ∀ s', s.Later s' → s'.waitedMs ≤ s.waitedMs + op.timeoutMs →
      op.Tells s s' none → Q (.error .cancelledError) s') :
    wp executing (await op) Q s := by
  unfold await
  rw [wp_bind, wp_query]
  refine ⟨hwait, fun a s' ⟨hlater, hwaited, htells⟩ => ?_⟩
  cases a with
  | none => exact hcancel s' hlater hwaited htells
  | some result => exact hok result s' hlater hwaited htells

theorem wp_send {signal : Signal} (hpid : s.pid.isSome)
    (hfirst : signal = .terminateGracefully → s.signals = []) (h : Q (.ok ()) (s.send signal)) :
    wp executing (Prog.update (L := Executing) (Supervised.send signal)) Q s :=
  (wp_update (L := Executing) (Supervised.send signal) Q).2 ⟨⟨signal, rfl, hpid, hfirst⟩, h⟩

end Rules

/-! ## The pieces -/

section Pieces

variable {s : Supervised} {timeoutMs drainMs : Nat}

/-- The process was sent these signals since, and the waits took at most so long. -/
structure Since (s : Supervised) (signals : List Signal) (ms : Nat) (s' : Supervised) : Prop where
  pid : s'.pid = s.pid
  cancelRequested : s.cancelRequested = true → s'.cancelRequested = true
  returncode : ∀ code, s.returncode = some code → s'.returncode = some code
  signals : s'.signals = s.signals ++ signals
  waitedMs : s'.waitedMs ≤ s.waitedMs + ms

theorem Supervised.Later.since {s' : Supervised} {ms : Nat} (h : s.Later s') (hpid : s'.pid = s.pid)
    (hwaited : s'.waitedMs ≤ s.waitedMs + ms) : Since s [] ms s' where
  pid := hpid
  cancelRequested := h.cancelRequested
  returncode := h.returncode
  signals := by rw [h.signals, List.append_nil]
  waitedMs := hwaited

theorem since_send (signal : Signal) : Since s [signal] 0 (s.send signal) :=
  ⟨rfl, id, fun _ => id, rfl, Nat.le_refl _⟩

theorem Since.trans {s₁ s₂ : Supervised} {first rest : List Signal} {m n : Nat}
    (h : Since s first m s₁) (h' : Since s₁ rest n s₂) : Since s (first ++ rest) (m + n) s₂ where
  pid := h'.pid.trans h.pid
  cancelRequested := h'.cancelRequested ∘ h.cancelRequested
  returncode code := h'.returncode code ∘ h.returncode code
  signals := by rw [h'.signals, h.signals, List.append_assoc]
  waitedMs := by
    have := h.waitedMs
    have := h'.waitedMs
    omega

theorem Since.mono {s' : Supervised} {signals : List Signal} {m n : Nat} (h : Since s signals m s')
    (hmn : m ≤ n) : Since s signals n s' :=
  { h with waitedMs := h.waitedMs.trans (Nat.add_le_add_left hmn _) }

/-- The wait for the exit. -/
theorem wp_waitExit {ms : Nat} {Q : Except Raised Done → Supervised → Prop}
    (hok : ∀ done s', Since s [] ms s' → (done.exitTask = true → s'.returncode.isSome) →
      Q (.ok done) s')
    (hcancel : ∀ s', Since s [] ms s' → Q (.error .cancelledError) s') :
    wp executing (await (.wait false ms)) Q s := by
  refine wp_await (fun h => by cases h) ?_ ?_
  · rintro done s' hlater hwaited ⟨hpid, hexit, -⟩
    exact hok done s' (hlater.since hpid hwaited) hexit
  · intro s' hlater hwaited hpid
    exact hcancel s' (hlater.since hpid hwaited)

theorem wp_gather {Q : Except Raised Unit → Supervised → Prop}
    (h : ∀ r s', Since s [] 0 s' → r ∈ [Except.ok (), .error .cancelledError] → Q r s') :
    wp executing (await .gather) Q s := by
  refine wp_await (fun h => by cases h) ?_ ?_
  · rintro ⟨⟩ s' hlater hwaited hpid
    exact h _ s' (hlater.since hpid hwaited) (.head _)
  · intro s' hlater hwaited hpid
    exact h _ s' (hlater.since hpid hwaited) (.tail _ (.head _))

/-- The process is killed at once. -/
theorem abort_spec (hpid : s.pid.isSome) :
    wp executing (abort drainMs) (fun r s' => Since s [.kill] drainMs s' ∧
      r ∈ [Except.ok (), .error .cancelledError]) s := by
  unfold abort
  rw [wp_bind]
  refine wp_send hpid (fun h => by cases h) ?_
  rw [after_ok, wp_bind]
  apply wp_waitExit
  · intro done s' hsince _
    have hsince : Since s [.kill] (0 + drainMs) s' := (since_send .kill).trans hsince
    rw [Nat.zero_add] at hsince
    rw [after_ok]
    split
    · exact wp_gather fun r s'' hgather hr => ⟨hsince.trans hgather, hr⟩
    · exact ⟨hsince, .head _⟩
  · intro s' hsince
    have hsince : Since s [.kill] (0 + drainMs) s' := (since_send .kill).trans hsince
    rw [Nat.zero_add] at hsince
    exact ⟨hsince, .tail _ (.head _)⟩

/-- The process has exited after the soft signal, or it was killed as well, unless the coroutine was
cancelled meanwhile. -/
theorem terminateTwoPhase_spec (hpid : s.pid.isSome) (hsignals : s.signals = []) :
    wp executing (terminateTwoPhase drainMs) (fun r s' =>
      (Since s [.terminateGracefully] drainMs s' ∧ (r = .ok () → s'.returncode.isSome) ∨
        Since s [.terminateGracefully, .kill] (2 * drainMs) s') ∧
      r ∈ [Except.ok (), .error .cancelledError]) s := by
  unfold terminateTwoPhase
  rw [wp_bind]
  refine wp_send hpid (fun _ => hsignals) ?_
  rw [after_ok, wp_bind]
  apply wp_waitExit
  · intro done s' hsince hexit
    have hsince : Since s [.terminateGracefully] (0 + drainMs) s' :=
      (since_send .terminateGracefully).trans hsince
    rw [Nat.zero_add] at hsince
    rw [after_ok]
    split
    · rw [wp_bind]
      refine wp_send (by rwa [hsince.pid]) (fun h => by cases h) ?_
      rw [after_ok, wp_bind]
      have hkill : Since s [.terminateGracefully, .kill] (drainMs + 0) (s'.send .kill) :=
        hsince.trans (since_send .kill)
      apply wp_waitExit
      · intro done' s'' hlast _
        exact ⟨.inr ((hkill.trans hlast).mono (by omega)), .head _⟩
      · intro s'' hlast
        exact ⟨.inr ((hkill.trans hlast).mono (by omega)), .tail _ (.head _)⟩
    · rename_i hdone
      exact ⟨.inl ⟨hsince, fun _ => hexit (by simpa using hdone)⟩, .head _⟩
  · intro s' hsince
    have hsince : Since s [.terminateGracefully] (0 + drainMs) s' :=
      (since_send .terminateGracefully).trans hsince
    rw [Nat.zero_add] at hsince
    exact ⟨.inl ⟨hsince, fun h => by cases h⟩, .tail _ (.head _)⟩

theorem Since.quiet {s₁ s₂ : Supervised} {signals : List Signal} {m n : Nat}
    (h : Since s signals m s₁) (h' : Since s₁ [] n s₂) : Since s signals (m + n) s₂ := by
  have hboth := h.trans h'
  rwa [List.append_nil] at hboth

theorem Since.exited {s' : Supervised} {signals : List Signal} {ms : Nat}
    (h : Since s signals ms s') (hexited : s.returncode.isSome) : s'.returncode.isSome := by
  obtain ⟨code, hcode⟩ := Option.isSome_iff_exists.1 hexited
  rw [h.returncode code hcode]
  rfl

/-- What the supervision comes to: the process has exited by itself and was sent nothing, it was
stopped, or the coroutine was cancelled and the process has exited or was killed. -/
def Supervises (timeoutMs drainMs : Nat) (s : Supervised) :
    Except Raised (Bool × Bool) → Supervised → Prop
  | .ok (timedOut, cancelled), s' =>
    timedOut = false ∧ cancelled = false ∧ Since s [] timeoutMs s' ∧ s'.returncode.isSome ∨
      timedOut = !cancelled ∧ (cancelled = true → s'.cancelRequested = true) ∧
        (Since s [.terminateGracefully] (timeoutMs + drainMs) s' ∧ s'.returncode.isSome ∨
          Since s [.terminateGracefully, .kill] (timeoutMs + 2 * drainMs) s')
  | .error _, s' => ∃ signals,
      Since s signals (timeoutMs + 3 * drainMs) s' ∧ (s'.returncode.isSome ∨ .kill ∈ signals)

theorem Supervises.quiet {r : Except Raised (Bool × Bool)} {s₁ s₂ : Supervised} {ms : Nat}
    (h : Supervises timeoutMs drainMs s r s₁) (h' : Since s₁ [] ms s₂) :
    Supervises (timeoutMs + ms) drainMs s r s₂ := by
  rcases r with e | ⟨timedOut, cancelled⟩
  · obtain ⟨signals, hsince, hgone⟩ := h
    exact ⟨signals, (hsince.quiet h').mono (by omega), hgone.imp_left h'.exited⟩
  · rcases h with ⟨htime, hcancel, hsince, hexited⟩ | ⟨hflags, htoken, hstop⟩
    · exact .inl ⟨htime, hcancel, hsince.quiet h', h'.exited hexited⟩
    · refine .inr ⟨hflags, fun hc => h'.cancelRequested (htoken hc), ?_⟩
      rcases hstop with ⟨hsince, hexited⟩ | hsince
      · exact .inl ⟨(hsince.quiet h').mono (by omega), h'.exited hexited⟩
      · exact .inr ((hsince.quiet h').mono (by omega))

theorem Supervises.raises {r : Except Raised (Bool × Bool)} {s' : Supervised}
    (h : Supervises timeoutMs drainMs s r s') (e : Raised) :
    Supervises timeoutMs drainMs s (.error e) s' := by
  rcases r with e' | ⟨timedOut, cancelled⟩
  · exact h
  · rcases h with ⟨-, -, hsince, hexited⟩ | ⟨-, -, ⟨hsince, hexited⟩ | hsince⟩
    · exact ⟨[], hsince.mono (by omega), .inl hexited⟩
    · exact ⟨_, hsince.mono (by omega), .inl hexited⟩
    · exact ⟨_, hsince.mono (by omega), .inr (by decide)⟩

/-- What the executor itself raises. -/
def Raised.Own : Raised → Prop
  | .cancelledError => True
  | .callback _ => False
  | .taskExecutionError error =>
    ∃ text, error = AgenticLocalApp.taskExecutionError "OUTPUT_READ_FAILED" [("error", .str text)]

/-- What is raised after the process was killed. -/
theorem abort_raises {s₁ : Supervised} {signals : List Signal} (e : Raised) (hpid : s.pid.isSome)
    (h : Since s signals (timeoutMs + 2 * drainMs) s₁) :
    wp executing (do abort drainMs; throw e : Prog Executing (Bool × Bool))
      (fun r s' => Supervises timeoutMs drainMs s r s' ∧
        ∀ e', r = .error e' → e' = .cancelledError ∨ e' = e) s₁ := by
  rw [wp_bind]
  refine wp_mono (abort_spec (by rwa [h.pid])) fun r s' ⟨hsince, hr⟩ => ?_
  have hkilled : ∃ signals, Since s signals (timeoutMs + 3 * drainMs) s' ∧
      (s'.returncode.isSome ∨ .kill ∈ signals) :=
    ⟨signals ++ [.kill], (h.trans hsince).mono (by omega), .inr (by simp)⟩
  simp only [List.mem_cons, List.not_mem_nil, or_false] at hr
  rcases hr with rfl | rfl
  · refine ⟨hkilled, fun e' he => ?_⟩
    cases he
    exact .inr rfl
  · refine ⟨hkilled, fun e' he => ?_⟩
    cases he
    exact .inl rfl

theorem supervise_spec (hpid : s.pid.isSome) (hsignals : s.signals = []) :
    wp executing (supervise timeoutMs drainMs) (fun r s' => Supervises timeoutMs drainMs s r s' ∧
      ∀ e, r = .error e → e.Own) s := by
  have hown : ∀ {r : Except Raised (Bool × Bool)} {s' : Supervised},
      (Supervises timeoutMs drainMs s r s' ∧
        ∀ e, r = .error e → e = .cancelledError ∨ e = .cancelledError) →
      Supervises timeoutMs drainMs s r s' ∧ ∀ e, r = .error e → e.Own := by
    rintro r s' ⟨h, he⟩
    refine ⟨h, fun e hr => ?_⟩
    obtain rfl : e = .cancelledError := or_self_iff.1 (he e hr)
    trivial
  unfold supervise
  rw [wp_ensure]
  refine wp_mono (Q := fun r s' => Supervises timeoutMs drainMs s r s' ∧
    ∀ e : Raised, r = .error e → e.Own) ?_ ?_
  · rw [wp_tryCatch, wp_bind]
    refine wp_await (fun h => by cases h) ?_ ?_
    · rintro done s₁ hlater hwaited ⟨hpid₁, hexit, htoken⟩
      have hsince : Since s [] timeoutMs s₁ := hlater.since hpid₁ hwaited
      rw [after_ok]
      split
      · rename_i hdone
        exact ⟨.inl ⟨rfl, rfl, hsince, hexit hdone⟩, fun e he => by cases he⟩
      · rw [wp_bind]
        have hnone : s₁.signals = [] := by rw [hsince.signals, hsignals]; rfl
        refine wp_mono (terminateTwoPhase_spec (by rwa [hsince.pid]) hnone) ?_
        rintro r s₂ ⟨hstop, hr⟩
        simp only [List.mem_cons, List.not_mem_nil, or_false] at hr
        rcases hr with rfl | rfl
        · refine ⟨.inr ⟨rfl, fun hc => ?_, ?_⟩, fun e he => by cases he⟩
          · rcases hstop with ⟨hstop, -⟩ | hstop
            · exact hstop.cancelRequested (htoken hc).2
            · exact hstop.cancelRequested (htoken hc).2
          · rcases hstop with ⟨hstop, hexited⟩ | hstop
            · exact .inl ⟨hsince.trans hstop, hexited rfl⟩
            · exact .inr (hsince.trans hstop)
        · rcases hstop with ⟨hstop, -⟩ | hstop
          · have hsince₂ : Since s ([] ++ [.terminateGracefully]) (timeoutMs + 2 * drainMs) s₂ :=
              (hsince.trans hstop).mono (by omega)
            exact wp_mono (abort_raises _ hpid hsince₂) fun _ _ => hown
          · exact wp_mono (abort_raises _ hpid (hsince.trans hstop)) fun _ _ => hown
    · intro s₁ hlater hwaited hpid₁
      have hsince : Since s [] (timeoutMs + 2 * drainMs) s₁ :=
        (hlater.since hpid₁ hwaited).mono (Nat.le_add_right _ _)
      exact wp_mono (abort_raises _ hpid hsince) fun _ _ => hown
  · rintro r s₁ ⟨h, he⟩
    refine wp_gather fun r' s₂ hquiet hr' => ?_
    simp only [List.mem_cons, List.not_mem_nil, or_false] at hr'
    rcases hr' with rfl | rfl
    · exact ⟨h.quiet hquiet, he⟩
    · refine ⟨(h.quiet hquiet).raises .cancelledError, fun e he' => ?_⟩
      cases he'
      trivial

theorem settleReaders_spec : wp executing (settleReaders drainMs) (fun r s' =>
    Since s [] drainMs s' ∧ ∀ e, r = .error e → e.Own) s := by
  unfold settleReaders
  rw [wp_bind]
  refine wp_await (fun h => by cases h) ?_ ?_
  · intro _ s₁ hlater hwaited hpid
    have hsince : Since s [] drainMs s₁ := hlater.since hpid hwaited
    rw [after_ok, wp_bind]
    refine wp_await (fun h => by cases h) ?_ ?_
    · intro outcomes s₂ hlater₂ hwaited₂ hpid₂
      have hquiet : Since s [] drainMs s₂ := hsince.quiet (hlater₂.since hpid₂ hwaited₂)
      rw [after_ok]
      split
      · rename_i text _
        refine ⟨hquiet, fun e he => ?_⟩
        cases he
        exact ⟨text, rfl⟩
      · exact ⟨hquiet, fun e he => by cases he⟩
    · intro s₂ hlater₂ hwaited₂ hpid₂
      refine ⟨hsince.quiet (hlater₂.since hpid₂ hwaited₂), fun e he => ?_⟩
      cases he
      trivial
  · intro s₁ hlater hwaited hpid
    refine ⟨hlater.since hpid hwaited, fun e he => ?_⟩
    cases he
    trivial

end Pieces

/-! ## A whole execution -/

section Execution

variable {spec : CommandSpec} {drainMs : Nat} {onSpawn : Int → Option Int → Option Exc}
  {s : Supervised}

/-- What is reported of a process is what has become of it. -/
structure Reported (s : Supervised) (raw : RawExecution) : Prop where
  pid : raw.pid = s.pid
  signals : s.signals ∈ [[], [Signal.terminateGracefully], [.terminateGracefully, .kill]]
  exitCode : raw.exitCode = if s.signals = [] then s.returncode else none
  completed : raw.outcome = .completed ↔ s.signals = [] ∧ s.returncode = some 0
  stopped : s.signals ≠ [] ↔ s.pid.isSome ∧ raw.outcome ∈ [TaskState.cancelled, .timedOut]
  cancelled : raw.outcome = .cancelled → s.cancelRequested = true
  output : s.pid.isSome → raw.stdout = s.stdout ∧ raw.stderr = s.stderr

/-- No process is left behind: it has exited or it was killed. -/
def Supervised.Gone (s : Supervised) : Prop :=
  s.pid.isSome → s.returncode.isSome ∨ .kill ∈ s.signals

/-- The process is supervised and its readers are settled. -/
theorem settled_spec {pid : Int} {pgid : Option Int} {timeoutMs : Nat} (hpid : s.pid.isSome)
    (hsignals : s.signals = []) :
    wp executing
      (Prog.ensure
        (match onSpawn pid pgid with
          | some exc => do
            abort drainMs
            throw (.callback exc)
          | none => supervise timeoutMs drainMs)
        (settleReaders drainMs))
      (fun r s' => Supervises (timeoutMs + drainMs) drainMs s r s' ∧
        ∀ e, r = .error e → e.Own ∨ ∃ exc, onSpawn pid pgid = some exc ∧ e = .callback exc) s := by
  rw [wp_ensure]
  refine wp_mono (Q := fun r s' => Supervises timeoutMs drainMs s r s' ∧
    ∀ e : Raised, r = .error e → e.Own ∨ ∃ exc, onSpawn pid pgid = some exc ∧ e = .callback exc)
    ?_ ?_
  · split
    · rename_i exc hexc
      have hsince : Since s [] (timeoutMs + 2 * drainMs) s :=
        ⟨rfl, id, fun _ => id, (List.append_nil _).symm, Nat.le_add_right _ _⟩
      refine wp_mono (abort_raises (.callback exc) hpid hsince) fun r s' ⟨h, he⟩ =>
        ⟨h, fun e hr => ?_⟩
      rcases he e hr with rfl | rfl
      · exact .inl trivial
      · exact .inr ⟨exc, hexc, rfl⟩
    · exact wp_mono (supervise_spec hpid hsignals) fun r s' ⟨h, he⟩ =>
        ⟨h, fun e hr => .inl (he e hr)⟩
  · rintro r s₁ ⟨h, he⟩
    refine wp_mono settleReaders_spec fun r' s₂ ⟨hquiet, he'⟩ => ?_
    rcases r' with e | ⟨⟩
    · refine ⟨(h.quiet hquiet).raises e, fun e' hr => ?_⟩
      cases hr
      exact .inl (he' e rfl)
    · exact ⟨h.quiet hquiet, he⟩

theorem Supervises.reported {pid : Int} {pgid : Option Int} {timedOut cancelled : Bool} {ms : Nat}
    {s' : Supervised} (h : Supervises ms drainMs s (.ok (timedOut, cancelled)) s')
    (hpid : s.pid = some pid) (hsignals : s.signals = []) :
    Reported s' (s'.result pid pgid timedOut cancelled) := by
  rcases h with ⟨rfl, rfl, hsince, hexited⟩ | ⟨rfl, htoken, hstop⟩
  · have hnone : s'.signals = [] := by rw [hsince.signals, hsignals]; rfl
    obtain ⟨code, hcode⟩ := Option.isSome_iff_exists.1 hexited
    have houtcome : (s'.result pid pgid false false).outcome =
        if s'.returncode = some 0 then .completed else .failed := by
      simp [Supervised.result, RawExecution.outcome]
    refine ⟨(hsince.pid.trans hpid).symm, ?_, ?_, ?_, ?_, ?_, fun _ => ⟨rfl, rfl⟩⟩
    · rw [hnone]
      exact .head _
    · rw [if_pos hnone]
      rfl
    · rw [houtcome]
      by_cases hzero : s'.returncode = some 0
      · simp [hzero, hnone]
      · simp [hzero]
    · rw [houtcome]
      by_cases hzero : s'.returncode = some 0
      · simp [hzero, hnone]
      · simp [hzero, hnone]
    · rw [houtcome]
      by_cases hzero : s'.returncode = some 0
      · simp [hzero]
      · simp [hzero]
  · have hsent : s'.pid = some pid ∧
        (s'.signals = [.terminateGracefully] ∨ s'.signals = [.terminateGracefully, .kill]) := by
      rcases hstop with ⟨hsince, -⟩ | hsince
      · exact ⟨hsince.pid.trans hpid, .inl (by rw [hsince.signals, hsignals]; rfl)⟩
      · exact ⟨hsince.pid.trans hpid, .inr (by rw [hsince.signals, hsignals]; rfl)⟩
    obtain ⟨hpid', hsent⟩ := hsent
    have hsome : s'.signals ≠ [] := by
      rcases hsent with h | h <;> simp [h]
    have houtcome : (s'.result pid pgid (!cancelled) cancelled).outcome =
        if cancelled then .cancelled else .timedOut := by
      cases cancelled <;> rfl
    have hcode : (s'.result pid pgid (!cancelled) cancelled).exitCode = none := by
      cases cancelled <;> rfl
    refine ⟨hpid'.symm, ?_, ?_, ?_, ?_, ?_, fun _ => ⟨rfl, rfl⟩⟩
    · rcases hsent with h | h <;> simp [h]
    · rw [hcode, if_neg hsome]
    · rw [houtcome]
      cases cancelled <;> simp [hsome]
    · rw [houtcome]
      cases cancelled <;> simp [hsome, hpid']
    · rw [houtcome]
      cases cancelled with
      | false => exact fun h => by cases h
      | true => exact fun _ => htoken rfl

theorem Supervises.gone {r : Except Raised (Bool × Bool)} {ms : Nat} {s' : Supervised}
    (h : Supervises ms drainMs s r s') : s'.Gone := by
  obtain ⟨signals, hsince, hgone⟩ := h.raises .cancelledError
  refine fun _ => hgone.imp_right fun hkill => ?_
  rw [hsince.signals]
  exact List.mem_append_right _ hkill

/-- What an execution comes to. -/
def Executes (spec : CommandSpec) (drainMs : Nat) (onSpawn : Int → Option Int → Option Exc)
    (r : Except Raised RawExecution) (s : Supervised) : Prop :=
  s.Gone ∧ s.waitedMs ≤ spec.timeoutMs.toNat + 4 * drainMs ∧
    match r with
    | .ok raw => Reported s raw
    | .error e => e.Own ∨ ∃ pid pgid exc, onSpawn pid pgid = some exc ∧ e = .callback exc

theorem execute_spec (token : Bool) : wp executing (execute spec drainMs onSpawn)
    (Executes spec drainMs onSpawn) { cancelRequested := token } := by
  unfold execute
  rw [wp_bind, wp_read, after_ok]
  split
  · rename_i htoken
    refine ⟨fun h => (by cases h), Nat.zero_le _, ?_⟩
    exact ⟨rfl, .head _, rfl, by simp [RawExecution.outcome], by simp, fun _ => htoken,
      fun h => by cases h⟩
  · rw [wp_bind]
    refine wp_await (fun _ => ⟨rfl, rfl⟩) ?_ ?_
    · intro spawned s₁ hlater hwaited htells
      have hsignals : s₁.signals = [] := hlater.signals
      have hzero : s₁.waitedMs = 0 := Nat.le_zero.1 hwaited
      rw [after_ok]
      cases spawned with
      | failed error =>
        obtain ⟨hpid, hcode⟩ := htells
        refine ⟨fun h => (by rw [hpid] at h; cases h), by omega, ?_⟩
        exact ⟨hpid.symm, by simp [hsignals], by simp [hcode],
          by simp [RawExecution.outcome, hcode], by simp [hsignals, hpid], fun h => (by cases h),
          fun h => by rw [hpid] at h; cases h⟩
      | started pid pgid =>
        have hpid : s₁.pid = some pid := htells
        dsimp only
        rw [wp_bind]
        refine wp_mono (settled_spec (by rw [hpid]; rfl) hsignals) fun r s' ⟨h, he⟩ => ?_
        have hwaited' : s'.waitedMs ≤ spec.timeoutMs.toNat + 4 * drainMs := by
          obtain ⟨signals, hsince, -⟩ := h.raises .cancelledError
          have := hsince.waitedMs
          omega
        rcases r with e | ⟨timedOut, cancelled⟩
        · refine ⟨h.gone, hwaited', (he e rfl).imp_right ?_⟩
          rintro ⟨exc, hexc, rfl⟩
          exact ⟨pid, pgid, exc, hexc, rfl⟩
        · exact ⟨h.gone, hwaited', h.reported hpid hsignals⟩
    · intro s₁ hlater hwaited htells
      obtain ⟨hpid, -⟩ := htells
      have hzero : s₁.waitedMs = 0 := Nat.le_zero.1 hwaited
      exact ⟨fun h => (by rw [hpid] at h; cases h), by omega, .inl trivial⟩

/-- Every await comes to something. -/
theorem exists_answer (op : SupervisionOp) (s : Supervised) (h : executing.wait op s) :
    ∃ a s', executing.rely op s a s' := by
  have hlater : s.Later s := ⟨id, fun _ => id, rfl, List.prefix_rfl, List.prefix_rfl⟩
  cases op with
  | spawn => exact ⟨some (.failed ""), s, hlater, Nat.le_add_right _ _, h rfl⟩
  | wait forCancel timeoutMs =>
    refine ⟨some ⟨false, false⟩, s, hlater, Nat.le_add_right _ _, rfl, ?_, ?_⟩
    · exact fun h => by cases h
    · exact fun h => by cases h
  | waitReaders timeoutMs => exact ⟨some (), s, hlater, Nat.le_add_right _ _, rfl⟩
  | gather => exact ⟨some (), s, hlater, Nat.le_add_right _ _, rfl⟩
  | gatherReaders => exact ⟨some [], s, hlater, Nat.le_add_right _ _, rfl⟩

/-- The soft signal is never sent after another one. -/
theorem signals_of_sends {s' : Supervised} (h : .terminateGracefully ∉ s.signals.tail)
    (hs : Sends s s') : .terminateGracefully ∉ s'.signals.tail := by
  obtain ⟨signal, rfl, -, hfirst⟩ := hs
  change .terminateGracefully ∉ (s.signals ++ [signal]).tail
  cases signal with
  | terminateGracefully =>
    rw [hfirst rfl]
    exact List.not_mem_nil
  | kill =>
    cases hsignals : s.signals with
    | nil => exact List.not_mem_nil
    | cons first rest =>
      rw [hsignals] at h
      simpa using h

/-- In every run of an execution, wherever its coroutine is cancelled and whenever the token is set:
no soft signal follows another signal, the run goes on until it ends, and when it has ended the
process has exited or was killed, within the waits that were asked for.  A result says what became
of the process: it completed just when it exited with zero and was sent nothing. -/
theorem execute_ends {token : Bool} {p : Prog Executing RawExecution} {s' : Supervised}
    (hr : Reaches executing.rely
      (execute spec drainMs onSpawn, ({ cancelRequested := token } : Supervised)) (p, s')) :
    .terminateGracefully ∉ s'.signals.tail ∧
      ((∃ c, Step executing.rely (p, s') c) ∨
        ∃ r, p = .ret r ∧ Executes spec drainMs onSpawn r s') := by
  have hspec : wp executing (execute spec drainMs onSpawn) (Executes spec drainMs onSpawn)
      { cancelRequested := token } := execute_spec token
  refine ⟨?_, ?_⟩
  · refine invariant_reaches (C := executing) (c := (_, { cancelRequested := token }))
      (I := fun s => .terminateGracefully ∉ s.signals.tail) hspec hr List.not_mem_nil
      (fun _ _ => signals_of_sends) ?_
    rintro op s₁ a s₂ h ⟨hlater, -, -⟩
    rwa [hlater.signals]
  · have hw := wp_reaches (C := executing) (c := (_, { cancelRequested := token })) hspec hr
    rcases wp_progress (C := executing) exists_answer hw with hstep | ⟨r, hp, hret⟩ | ⟨-, hstuck⟩
    · exact .inl hstep
    · exact .inr ⟨r, hp, hret⟩
    · exact absurd hstuck id

/-- A process that does not react, whatever is waited for. -/
def stubborn : Script Executing := fun _ op s =>
  match op with
  | .spawn => (some (.started 7 (some 7)), { s with pid := some 7 })
  | .wait .. => (some ⟨false, false⟩, s)
  | .waitReaders _ | .gather => (some (), s)
  | .gatherReaders => (some [none, none], s)

theorem stubborn_honest (n : Nat) (op : SupervisionOp) (s : Supervised) :
    executing.rely op s (stubborn n op s).1 (stubborn n op s).2 := by
  have hlater : s.Later s := ⟨id, fun _ => id, rfl, List.prefix_rfl, List.prefix_rfl⟩
  cases op with
  | spawn =>
    exact ⟨⟨id, fun _ => id, rfl, List.prefix_rfl, List.prefix_rfl⟩, Nat.le_add_right _ _, rfl⟩
  | wait forCancel timeoutMs =>
    refine ⟨hlater, Nat.le_add_right _ _, rfl, ?_, ?_⟩
    · exact fun h => by cases h
    · exact fun h => by cases h
  | waitReaders timeoutMs => exact ⟨hlater, Nat.le_add_right _ _, rfl⟩
  | gather => exact ⟨hlater, Nat.le_add_right _ _, rfl⟩
  | gatherReaders => exact ⟨hlater, Nat.le_add_right _ _, rfl⟩

def sleeping : CommandSpec := ⟨"t1", "sleep 600", 1000, by decide, by decide⟩

/-- It is killed after the grace period, and reported as timed out. -/
theorem execute_ends_stubborn :
    let c := drive stubborn 40 0 (execute sleeping 5000 (fun _ _ => none), ({} : Supervised))
    c.2.signals = [.terminateGracefully, .kill] ∧
      ∃ raw, c.1 = .ret (.ok raw) ∧ raw.outcome = .timedOut ∧ Reported c.2 raw := by
  intro c
  obtain ⟨-, ⟨c', hstep⟩ | ⟨r, hr, -, -, hreported⟩⟩ :=
    execute_ends (drive_reaches stubborn_honest 40 0
      (execute sleeping 5000 (fun _ _ => none), ({} : Supervised)))
  · cases hstep
  · cases hr
    exact ⟨rfl, _, rfl, rfl, hreported⟩

end Execution

end Supervision

end AgenticLocalApp
