import AgenticLocalApp.Interruption.Sweeps

/-!
# The interruption of a session, from the request to the report

The token is set, the loop is waited for at most so long, the store is swept, what was interrupted
is closed remotely and the session is ready again, with a fresh token.  The loop runs while it is
waited for; one that has come to its end writes nothing any more.
-/

namespace AgenticLocalApp

open Prog

namespace Interruption

/-- The loops that were registered, in the order in which they were: the one that is waited for, and
those whose end was signalled. -/
structure Handler where
  loop : Option Nat := none
  registered : Nat := 0
  finished : List Nat := []

/-- `register_loop`. -/
def Handler.registerLoop (h : Handler) : Nat × Handler :=
  (h.registered, { h with loop := some h.registered, registered := h.registered + 1 })

/-- `loop_finished`. -/
def Handler.loopFinished (h : Handler) : Handler :=
  match h.loop with
  | none => h
  | some event => { h with finished := event :: h.finished }

/-- The application, with the handler beside the world. -/
abbrev Handling : Lang := App.withLocal Handler

structure InterruptionReport where
  sessionId : String
  reason : String
  requestedAt : Instant
  completedAt : Instant
  durationMs : Int
  withinTimeout : Bool
  loopDrained : Bool
  nothingToInterrupt : Bool
  interruptedTaskIds : List String
  planId : Option String
  cycleId : Option String
  conversationId : Option String
  sessionStatus : SessionState

/-- `_idle_report`. -/
def idleReport (session : SessionRecord) (reason : String) : Prog App InterruptionReport := do
  let now ← now
  return {
    sessionId := session.sessionId
    reason := reason
    requestedAt := now
    completedAt := now
    durationMs := 0
    withinTimeout := true
    loopDrained := true
    nothingToInterrupt := true
    interruptedTaskIds := []
    planId := none
    cycleId := none
    conversationId := session.currentConversationId
    sessionStatus := session.status }

/-- `_drain`: the loop stays registered while it is waited for. -/
def drain (timeoutMs : Nat) : Prog Handling Bool := do
  match (← Prog.read).2.loop with
  | none => return true
  | some event =>
    if event ∈ (← Prog.read).2.finished then
      Prog.update fun s => (s.1, { s.2 with loop := none })
      return true
    let _ ← Prog.query (L := Handling) (.sleep timeoutMs)
    let drained := decide (event ∈ (← Prog.read).2.finished)
    Prog.update fun s =>
      if s.2.loop = some event then (s.1, { s.2 with loop := none }) else s
    return drained

/-- `_close_remote`: best effort, whatever becomes of it. -/
def closeRemote (hasTransport : Bool) (conversations : List ConversationRecord) :
    Prog Handling Unit :=
  forM conversations fun conversation =>
    match hasTransport, conversation.remoteConversationId with
    | true, some remote => do
      let _ ← Prog.query (L := Handling) (.closeConversation remote)
    | _, _ => pure ()

/-- The steps of `_run` from the signal to the fresh token: whether the loop came to its end, what
the sweep found, and the session. -/
def stop (hasTransport : Bool) (timeoutMs : Nat) (sid reason : String) :
    Prog Handling (Bool × Sweep × SessionRecord) := do
  Prog.update fun s => ({ s.1 with token := s.1.token.cancel reason }, s.2)
  let loopDrained ← drain timeoutMs
  let found ← liftM (sweep sid reason)
  closeRemote hasTransport found.interrupted
  let ready ← liftM (transitionSession sid .ready)
  Prog.update fun s => ({ s.1 with token := {} }, s.2)
  return (loopDrained, found, ready)

/-- `_fail_session`: best effort, whatever it raises. -/
def failSession (sid : String) : Prog App Unit := do
  let _ ← (transitionSession sid .failed).attempt

/-- What `_run` does with an exception of these steps: the session fails over one of the store. -/
def onFailure {α : Type} (sid : String) (e : Exc) : Prog Handling α :=
  if e.isPersistenceError then do
    liftM (failSession sid)
    throw e
  else throw e

/-- The session is asked to stop; one that is already stays as it is. -/
def requestStop (session : SessionRecord) : Prog App Unit := do
  if session.status = .running then
    let _ ← transitionSession session.sessionId .interrupting

/-- `_run`. -/
def run (hasTransport : Bool) (timeoutMs : Nat) (session : SessionRecord) (reason : String) :
    Prog Handling InterruptionReport := do
  let requestedAt ← liftM now
  let t₀ ← liftM monotonicMs
  liftM (requestStop session)
  let (loopDrained, found, ready) ←
    (stop hasTransport timeoutMs session.sessionId reason).tryCatch (onFailure session.sessionId)
  let completedAt ← liftM now
  let t₁ ← liftM monotonicMs
  let durationMs := max 0 (t₁ - t₀)
  return {
    sessionId := session.sessionId
    reason := reason
    requestedAt := requestedAt
    completedAt := completedAt
    durationMs := durationMs
    withinTimeout := decide (durationMs ≤ timeoutMs)
    loopDrained := loopDrained
    nothingToInterrupt := false
    interruptedTaskIds := found.interruptedTaskIds
    planId := found.planId
    cycleId := found.cycleId
    conversationId := found.conversationId
    sessionStatus := ready.status }

/-- `interrupt`, when no other interruption of the session is in progress. -/
def interrupt (hasTransport : Bool) (timeoutMs : Nat) (sid reason : String) :
    Prog Handling InterruptionReport := do
  let session ← liftM (requireSession sid)
  if session.status ∈ idleSessionStates then
    liftM (idleReport session reason)
  else
    run hasTransport timeoutMs session reason

/-! ## The surroundings -/

/-- The session is in the store, in the same state as before. -/
def StatusKept (sid : String) (σ σ' : Store) : Prop :=
  ∀ session, σ.getSession sid = some session →
    ∃ session', σ'.getSession sid = some session' ∧ session'.status = session.status

/-- What the session points to is as it was. -/
structure PointsToSame (sid : String) (σ σ' : Store) : Prop where
  session : σ'.getSession sid = σ.getSession sid
  conversation : ∀ session, σ.getSession sid = some session →
    currentConversation σ' session = currentConversation σ session
  inside : ∀ session c, σ.getSession sid = some session → currentConversation σ session = some c →
    currentPlan σ' c = currentPlan σ c ∧ currentCycle σ' c = currentCycle σ c ∧
      rotatingParent σ' c = rotatingParent σ c

/-- Every loop of the session has come to its end. -/
def Handler.AllFinished (h : Handler) : Prop := ∀ event < h.registered, event ∈ h.finished

/-- At most the loop that is waited for is still under way. -/
def Handler.OneLoop (h : Handler) : Prop :=
  ∀ event < h.registered, event ∈ h.finished ∨ h.loop = some event

/-- While the session is being interrupted no loop starts. -/
structure Handler.Later (h h' : Handler) : Prop where
  loop : h'.loop = h.loop
  registered : h'.registered = h.registered
  finished : ∀ event ∈ h.finished, event ∈ h'.finished

/-- What others may do while the interruption waits. -/
structure Others (sid : String) (s s' : World × Handler) : Prop where
  kept : StatusKept sid s.1.store s'.1.store
  later : s.2.Later s'.2
  same : s.2.AllFinished → PointsToSame sid s.1.store s'.1.store

/-- What the interruption may write: its session, along the table of its states, and records that it
interrupts. -/
inductive Writes (sid reason : String) (σ : Store) : Store → Prop
  | nothing : Writes sid reason σ σ
  | moves (session : SessionRecord) (target : SessionState) (now : Instant)
      (hs : σ.getSession sid = some session)
      (ht : canTransition sessionTransitions session.status target) :
      Writes sid reason σ (σ.saveSession (session.moveTo target now))
  | sweeps (scope : List ConversationRecord) (σ' : Store) (h : Swept reason scope σ σ') :
      Writes sid reason σ σ'

/-- Clocks let nobody run.  Others leave the session in its state while its loop is waited for and
while its conversations are closed, and what it points to once its loops have come to their end. -/
def handling (sid reason : String) : Contract Handling where
  rely op s a s' := (op.Reads → s' = s ∧ op.Answers s.1.store a) ∧
    (¬ op.Reads → Others sid s s')
  guar s s' := Writes sid reason s.1.store s'.1.store
  wait _ _ := True
  stuck _ := False

/-! ## Rules -/

section Rules

variable {sid reason : String} {σ σ' σ'' : Store}

theorem StatusKept.refl (sid : String) (σ : Store) : StatusKept sid σ σ :=
  fun session hs => ⟨session, hs, rfl⟩

theorem StatusKept.trans (h : StatusKept sid σ σ') (h' : StatusKept sid σ' σ'') :
    StatusKept sid σ σ'' := by
  intro session hs
  obtain ⟨session', hs', hstatus⟩ := h session hs
  obtain ⟨session'', hs'', hstatus'⟩ := h' session' hs'
  exact ⟨session'', hs'', hstatus'.trans hstatus⟩

namespace PointsToSame

theorem refl (sid : String) (σ : Store) : PointsToSame sid σ σ :=
  ⟨rfl, fun _ _ => rfl, fun _ _ _ _ => ⟨rfl, rfl, rfl⟩⟩

theorem trans (h : PointsToSame sid σ σ') (h' : PointsToSame sid σ' σ'') :
    PointsToSame sid σ σ'' where
  session := h'.session.trans h.session
  conversation session hs :=
    (h'.conversation session (h.session.trans hs)).trans (h.conversation session hs)
  inside session c hs hc := by
    have hs' := h.session.trans hs
    have hc' := (h.conversation session hs).trans hc
    obtain ⟨hplan, hcycle, hparent⟩ := h.inside session c hs hc
    obtain ⟨hplan', hcycle', hparent'⟩ := h'.inside session c hs' hc'
    exact ⟨hplan'.trans hplan, hcycle'.trans hcycle, hparent'.trans hparent⟩

/-- Where nothing was under way nothing is. -/
theorem stays_over {session : SessionRecord} (h : PointsToSame sid σ σ')
    (hs : σ.getSession sid = some session) (ho : Over σ session) : Over σ' session := by
  intro c hc'
  have hc : currentConversation σ session = some c := (h.conversation session hs).symm.trans hc'
  obtain ⟨hplan, hcycle, hparent⟩ := h.inside session c hs hc
  obtain ⟨hsettled, hnone⟩ := ho c hc
  refine ⟨⟨fun p hp => ?_, fun y hy => ?_, fun v hv => ?_⟩, hparent.trans hnone⟩
  · exact hsettled.plan p (hplan.symm.trans hp)
  · exact hsettled.cycle y (hcycle.symm.trans hy)
  · obtain ⟨cid, -, hfind⟩ := Option.bind_eq_some_iff.1 hc
    obtain ⟨cid', -, hfind'⟩ := Option.bind_eq_some_iff.1 hc'
    obtain rfl : c.conversationId = cid := Table.key_of_find hfind
    obtain rfl : c.conversationId = cid' := Table.key_of_find hfind'
    obtain rfl := Option.some.inj (hv.symm.trans hfind')
    exact hsettled.conversation v hfind

end PointsToSame

namespace Handler

variable {h h' h'' : Handler}

theorem Later.refl (h : Handler) : h.Later h := ⟨rfl, rfl, fun _ he => he⟩

theorem Later.trans (hl : h.Later h') (hl' : h'.Later h'') : h.Later h'' :=
  ⟨hl'.loop.trans hl.loop, hl'.registered.trans hl.registered,
    fun e he => hl'.finished e (hl.finished e he)⟩

theorem AllFinished.later (ha : h.AllFinished) (hl : h.Later h') : h'.AllFinished := by
  intro e he
  rw [hl.registered] at he
  exact hl.finished e (ha e he)

/-- The loop that is waited for is the last one. -/
theorem OneLoop.allFinished (ho : h.OneLoop) (hl : h.Later h')
    (hfinished : ∀ e, h.loop = some e → e ∈ h'.finished) : h'.AllFinished := by
  intro e he
  rw [hl.registered] at he
  rcases ho e he with hf | hloop
  · exact hl.finished e hf
  · exact hfinished e hloop

/-- A loop is registered once the one before it has come to its end. -/
theorem AllFinished.registerLoop (ha : h.AllFinished) : h.registerLoop.2.OneLoop := by
  intro e he
  by_cases hlast : e = h.registered
  · exact .inr (congrArg some hlast.symm)
  · have hbefore : e < h.registered := by
      change e < h.registered + 1 at he
      omega
    exact .inl (ha e hbefore)

theorem later_loopFinished (h : Handler) : h.Later h.loopFinished := by
  unfold loopFinished
  cases hloop : h.loop with
  | none => exact .refl h
  | some event => exact ⟨hloop.symm, rfl, fun e he => List.mem_cons_of_mem _ he⟩

/-- The last loop signals its end. -/
theorem OneLoop.loopFinished (ho : h.OneLoop) : h.loopFinished.AllFinished := by
  refine ho.allFinished h.later_loopFinished fun e he => ?_
  unfold Handler.loopFinished
  rw [he]
  exact List.mem_cons_self

end Handler

namespace Others

variable {s s' s'' : World × Handler}

theorem refl (sid : String) (s : World × Handler) : Others sid s s :=
  ⟨.refl _ _, .refl _, fun _ => .refl _ _⟩

theorem trans (h : Others sid s s') (h' : Others sid s' s'') : Others sid s s'' where
  kept := h.kept.trans h'.kept
  later := h.later.trans h'.later
  same ha := (h.same ha).trans (h'.same (ha.later h.later))

end Others

instance (op : Op) : Decidable op.Reads := by
  cases op <;> first | exact .isTrue trivial | exact .isFalse id

/-- Others may do nothing at all. -/
theorem exists_answer (op : Op) (s : World × Handler) :
    ∃ a s', (handling sid reason).rely op s a s' :=
  ⟨op.answer s.1.store, s, fun _ => ⟨rfl, op.answers_answer _⟩, fun _ => .refl sid s⟩

theorem quietly_handling (sid reason : String) (h : Handler) :
    (quietly (Writes sid reason)).WeakerAt (handling sid reason) h where
  rely op w a s' hreads hrely := by
    obtain ⟨rfl, hanswers⟩ := hrely.1 hreads
    exact ⟨⟨rfl, hanswers⟩, rfl⟩
  guar _ _ hg := hg.1
  wait _ _ _ := trivial
  stuck _ hs := hs

/-- What asks nothing but the time is done alone. -/
theorem wp_quietly {α : Type} {p : Prog App α} {w : World} {h : Handler} {Q}
    (hp : wp (quietly (Writes sid reason)) p (fun r w => Q r (w, h)) w) :
    wp (handling sid reason) (liftM p : Prog Handling α) Q (w, h) :=
  wp_lift_weaker (quietly_handling sid reason h) hp

/-- The postcondition of a program of the handler that must not raise. -/
abbrev comesBack {α : Type} (Q : α → World × Handler → Prop) :
    Except Exc α → World × Handler → Prop :=
  after Q fun _ _ => False

theorem wp_move {w : World} {h : Handler} {session : SessionRecord} {target : SessionState} {Q}
    (hs : w.store.getSession sid = some session)
    (ht : canTransition sessionTransitions session.status target) (hr : target ≠ .running)
    (hQ : ∀ now, Q (.ok (session.moveTo target now))
      ({ w with store := w.store.saveSession (session.moveTo target now) }, h)) :
    wp (handling sid reason) (liftM (transitionSession sid target) : Prog Handling SessionRecord) Q
      (w, h) := by
  refine wp_quietly (wp_transitionSession (quiet_quietly _) hs ht ?_ fun now => ⟨⟨?_, rfl⟩, hQ now⟩)
  · exact fun _ hrun => absurd hrun hr
  · exact .moves session target now hs ht

end Rules

/-! ## The procedure -/

section Procedure

variable {sid reason : String} {timeoutMs : Nat}

theorem drain_spec {w : World} {h : Handler} (ho : h.OneLoop) :
    wp (handling sid reason) (drain timeoutMs)
      (comesBack fun drained s' => s'.2.loop = none ∧ StatusKept sid w.store s'.1.store ∧
        (drained = true → s'.2.AllFinished)) (w, h) := by
  obtain ⟨loop, registered, finished⟩ := h
  unfold drain
  rw [wp_bind]
  cases loop with
  | none =>
    refine ⟨rfl, .refl _ _, fun _ => ho.allFinished (.refl _) fun e he => ?_⟩
    cases he
  | some event =>
    change wp _ (ite (event ∈ finished) _ _) _ _
    rw [wp_ite]
    refine ⟨fun hfinished => ⟨.nothing, rfl, .refl _ _, fun _ => ?_⟩, fun _ => ⟨trivial, ?_⟩⟩
    · have hall : Handler.AllFinished ⟨some event, registered, finished⟩ :=
        ho.allFinished (.refl _) fun e he => by
          obtain rfl := Option.some.inj he
          exact hfinished
      exact hall
    · intro answer s' hrely
      obtain ⟨hkept, hlater, -⟩ := hrely.2 id
      have hloop : s'.2.loop = some event := hlater.loop
      have hall : decide (event ∈ s'.2.finished) = true → s'.2.AllFinished := fun hd =>
        ho.allFinished hlater fun e he => by
          obtain rfl := Option.some.inj he
          exact of_decide_eq_true hd
      change wp _ (.update _ >>= _) _ _
      simp only [wp_bind, wp_update, after_ok, wp_pure, if_pos hloop]
      exact ⟨.nothing, trivial, hkept, hall⟩

theorem closeRemote_spec {hasTransport : Bool} {conversations : List ConversationRecord}
    {s : World × Handler} :
    wp (handling sid reason) (closeRemote hasTransport conversations)
      (comesBack fun _ s' => Others sid s s') s := by
  refine wp_forM (L := Handling) (I := fun _ s' => Others sid s s') ?_ (Others.refl sid s)
  intro conversation rest s' hothers
  cases hasTransport with
  | false => exact hothers
  | true =>
    cases conversation.remoteConversationId with
    | none => exact hothers
    | some remote => exact ⟨trivial, fun answer s'' hrely => hothers.trans (hrely.2 id)⟩

/-- How an interruption ends. -/
structure Ended (sid : String) (session : SessionRecord) (s s' : World × Handler)
    (report : InterruptionReport) : Prop where
  idle : session.status ∈ idleSessionStates → s' = s ∧ report.nothingToInterrupt = true ∧
    report.sessionStatus = session.status
  ready : session.status ∉ idleSessionStates → report.nothingToInterrupt = false ∧
    report.sessionStatus = .ready ∧ s'.1.token = {} ∧ s'.2.loop = none ∧
    ∃ ready, s'.1.store.getSession sid = some ready ∧ ready.status = .ready ∧
      (report.loopDrained = true → Over s'.1.store ready)

/-- The states of a session whose interruption has been requested. -/
def stoppingSessionStates : List SessionState := [.interrupting, .paused]

theorem canTransition_ready {status : SessionState} (h : status ∈ stoppingSessionStates) :
    canTransition sessionTransitions status .ready := by
  cases status <;> first | rfl | exact absurd h (by decide)

theorem moveTo_key (session : SessionRecord) (target : SessionState) (now : Instant) :
    (session.moveTo target now).sessionId = session.sessionId ∧
      (session.moveTo target now).status = target ∧
      (session.moveTo target now).currentConversationId = session.currentConversationId := by
  cases target <;> exact ⟨rfl, rfl, rfl⟩

theorem getSession_moved {σ : Store} {session : SessionRecord} (target : SessionState)
    (now : Instant) (hs : σ.getSession sid = some session) :
    (σ.saveSession (session.moveTo target now)).getSession sid =
      some (session.moveTo target now) := by
  obtain rfl : session.sessionId = sid := Table.key_of_find hs
  have hself := Table.find_save_self σ.sessions (session.moveTo target now)
  rwa [show Keyed.key (session.moveTo target now) = session.sessionId from
    (moveTo_key session target now).1] at hself

theorem Over.moved {σ : Store} {session : SessionRecord} (ho : Over σ session)
    (target : SessionState) (now : Instant) :
    Over (σ.saveSession (session.moveTo target now)) (session.moveTo target now) := by
  intro c hc
  unfold currentConversation at hc
  rw [(moveTo_key session target now).2.2] at hc
  obtain ⟨hsettled, hnone⟩ := ho c hc
  exact ⟨⟨hsettled.plan, hsettled.cycle, hsettled.conversation⟩, hnone⟩

/-- Once the session is asked to stop it is swept and ready, whatever its loop does meanwhile. -/
theorem stop_spec {w : World} {h : Handler} {session : SessionRecord} {hasTransport : Bool}
    (ho : h.OneLoop) (hs : w.store.getSession sid = some session)
    (hstop : session.status ∈ stoppingSessionStates) :
    wp (handling sid reason) (stop hasTransport timeoutMs sid reason)
      (comesBack fun r s' => s'.1.token = {} ∧ s'.2.loop = none ∧ r.2.2.status = .ready ∧
        s'.1.store.getSession sid = some r.2.2 ∧
        (r.1 = true → Over s'.1.store r.2.2)) (w, h) := by
  unfold stop
  rw [wp_bind, wp_update]
  refine ⟨.nothing, ?_⟩
  rw [after_ok, wp_bind]
  refine wp_mono (drain_spec ho) ?_
  rintro (e | drained) ⟨w₁, h₁⟩ hd
  · exact absurd hd id
  obtain ⟨hloop, hkept, hall⟩ := hd
  obtain ⟨session₁, hs₁, hstatus₁⟩ := hkept session hs
  rw [after_ok, wp_bind]
  have hsweep : wp (quietly (Writes sid reason)) (sweep sid reason)
      (returns fun found w' => w' = { w₁ with store := w'.store } ∧
        SessionSwept reason session₁ w₁.store w'.store found) w₁ :=
    wp_weaker (quietly_weaker fun σ σ' hsw => .sweeps _ _ hsw) (sweep_spec reason hs₁)
  refine wp_quietly (wp_mono hsweep ?_)
  rintro (e | found) w₂ hsw
  · exact absurd hsw id
  obtain ⟨-, hswept⟩ := hsw
  have hover : Over w₂.store session₁ := over_of_swept hswept.swept hswept.settled
  have hs₂ : w₂.store.getSession sid = some session₁ := by
    unfold Store.getSession
    rw [hswept.swept.sessions]
    exact hs₁
  rw [after_ok, wp_bind]
  refine wp_mono closeRemote_spec ?_
  rintro (e | _) ⟨w₃, h₃⟩ hc
  · exact absurd hc id
  obtain ⟨session₃, hs₃, hstatus₃⟩ := hc.kept session₁ hs₂
  have hready : canTransition sessionTransitions session₃.status .ready := by
    refine canTransition_ready ?_
    rw [hstatus₃, hstatus₁]
    exact hstop
  rw [after_ok, wp_bind]
  refine wp_move hs₃ hready (by decide) fun now => ?_
  rw [after_ok, wp_bind, wp_update]
  refine ⟨.nothing, rfl, hc.later.loop.trans hloop, (moveTo_key session₃ .ready now).2.1,
    getSession_moved .ready now hs₃, fun hdrained => ?_⟩
  have hsame := hc.same (hall hdrained)
  obtain rfl : session₃ = session₁ := Option.some.inj (hs₃.symm.trans (hsame.session.trans hs₂))
  exact (hsame.stays_over hs₂ hover).moved .ready now

/-- An exception of the store leaves the session FAILED, and is raised again. -/
theorem onFailure_spec {α : Type} {w : World} {h : Handler} {session : SessionRecord} {e : Exc}
    (he : e.isPersistenceError = true) (hs : w.store.getSession sid = some session)
    (hstop : session.status ∈ stoppingSessionStates) :
    wp (handling sid reason) (onFailure sid e : Prog Handling α)
      (fun r s' => r = .error e ∧ s'.2 = h ∧
        ∃ failed, s'.1.store.getSession sid = some failed ∧ failed.status = .failed) (w, h) := by
  have ht : canTransition sessionTransitions session.status .failed := by
    cases hstatus : session.status <;> rw [hstatus] at hstop <;>
      first | rfl | exact absurd hstop (by decide)
  unfold onFailure failSession
  rw [if_pos he, wp_bind]
  refine wp_quietly ?_
  rw [wp_bind, wp_attempt]
  refine wp_transitionSession (quiet_quietly _) hs ht (fun _ hr => absurd hr (by decide)) ?_
  intro now
  exact ⟨⟨.moves session .failed now hs ht, rfl⟩, rfl, rfl, _,
    getSession_moved .failed now hs, (moveTo_key session .failed now).2.1⟩

theorem requestStop_spec {w : World} {h : Handler} {session : SessionRecord}
    (hs : w.store.getSession sid = some session) (hbusy : session.status ∉ idleSessionStates) :
    wp (handling sid reason) (liftM (requestStop session) : Prog Handling Unit)
      (comesBack fun _ s' => s'.2 = h ∧ ∃ asked, s'.1.store.getSession sid = some asked ∧
        asked.status ∈ stoppingSessionStates) (w, h) := by
  have hid : session.sessionId = sid := Table.key_of_find hs
  refine wp_quietly ?_
  unfold requestStop
  rw [wp_ite]
  refine ⟨fun hrun => ?_, fun hn => ?_⟩
  · rw [hid, wp_bind]
    have ht : canTransition sessionTransitions session.status .interrupting := by
      rw [hrun]
      rfl
    refine wp_transitionSession (quiet_quietly _) hs ht (fun _ hr => absurd hr (by decide)) ?_
    intro now
    refine ⟨⟨.moves session .interrupting now hs ht, rfl⟩, rfl, _,
      getSession_moved .interrupting now hs, ?_⟩
    rw [id, (moveTo_key session .interrupting now).2.1]
    decide
  · refine ⟨rfl, session, hs, ?_⟩
    cases hstatus : session.status <;> rw [hstatus] at hn hbusy <;>
      first | decide | exact absurd rfl hn | exact absurd (by decide) hbusy

theorem interrupt_spec {hasTransport : Bool} {w : World} {h : Handler} {session : SessionRecord}
    (ho : h.OneLoop) (hs : w.store.getSession sid = some session) :
    wp (handling sid reason) (interrupt hasTransport timeoutMs sid reason)
      (comesBack fun report s' => Ended sid session (w, h) s' report) (w, h) := by
  have hid : session.sessionId = sid := Table.key_of_find hs
  unfold interrupt
  rw [wp_bind]
  refine wp_quietly (wp_requireSession hs ?_)
  rw [after_ok, wp_ite]
  refine ⟨fun hidle => ?_, fun hbusy => ?_⟩
  · refine wp_quietly ?_
    unfold idleReport
    rw [wp_bind]
    refine wp_now (quiet_quietly _) fun now => ?_
    exact ⟨fun _ => ⟨rfl, rfl, rfl⟩, fun hn => absurd hidle hn⟩
  · unfold run
    rw [wp_bind]
    refine wp_quietly (wp_now (quiet_quietly _) fun requestedAt => ?_)
    rw [after_ok, wp_bind]
    refine wp_quietly (wp_monotonicMs (quiet_quietly _) fun t₀ => ?_)
    rw [after_ok, hid, wp_bind]
    refine wp_mono (requestStop_spec hs hbusy) ?_
    rintro (e | _) ⟨w₁, h₁⟩ hr
    · exact absurd hr id
    obtain ⟨rfl, asked, hasked, hstop⟩ := hr
    rw [after_ok, wp_bind]
    refine (wp_tryCatch _ _ _).2 (wp_mono (stop_spec ho hasked hstop) ?_)
    rintro (e | ⟨drained, found, ready⟩) ⟨w₂, h₂⟩ hend
    · exact absurd hend id
    obtain ⟨htoken, hloop, hstatus, hready, hover⟩ := hend
    rw [after_ok, after_ok]
    dsimp only
    rw [wp_bind]
    refine wp_quietly (wp_now (quiet_quietly _) fun completedAt => ?_)
    rw [after_ok, wp_bind]
    refine wp_quietly (wp_monotonicMs (quiet_quietly _) fun t₁ => ?_)
    exact ⟨fun hi => absurd hi hbusy,
      fun _ => ⟨rfl, hstatus, htoken, hloop, ready, hready, hstatus, hover⟩⟩

/-- No run of an interruption raises or gets stuck, and all it ever writes is its session, along its
table, and records that it interrupts.  At its end the session is ready again with a fresh token,
and nothing of its scope is under way if its loop came to its end in time. -/
theorem interrupt_ends {hasTransport : Bool} {s s' : World × Handler} {session : SessionRecord}
    {p : Prog Handling InterruptionReport} (ho : s.2.OneLoop)
    (hs : s.1.store.getSession sid = some session)
    (hr : Reaches (handling sid reason).rely
      (interrupt hasTransport timeoutMs sid reason, s) (p, s')) :
    (∀ f k, p = .modify f k → Writes sid reason s'.1.store (f s').1.store) ∧
      ((∃ c, Step (handling sid reason).rely (p, s') c) ∨
        ∃ report, p = .ret (.ok report) ∧ Ended sid session s s' report) := by
  have hspec : wp (handling sid reason) (interrupt hasTransport timeoutMs sid reason)
      (comesBack fun report s' => Ended sid session s s' report) s := interrupt_spec ho hs
  have hw := wp_reaches (C := handling sid reason) hspec hr
  refine ⟨fun f k hp => ?_, ?_⟩
  · subst hp
    exact hw.1
  · rcases wp_progress (C := handling sid reason) (fun op s _ => exists_answer op s) hw
      with hstep | ⟨r, hp, hret⟩ | ⟨-, hstuck⟩
    · exact .inl hstep
    · cases r with
      | error e => exact absurd hret id
      | ok report => exact .inr ⟨report, hp, hret⟩
    · exact absurd hstuck id

/-- Surroundings in which the loop comes to its end as soon as it is waited for. -/
def obedientLoop : Script Handling := fun _ op s =>
  (op.answer s.1.store, (s.1, if op.Reads then s.2 else s.2.loopFinished))

theorem obedientLoop_honest (n : Nat) (op : Op) (s : World × Handler) :
    (handling sid reason).rely op s (obedientLoop n op s).1 (obedientLoop n op s).2 := by
  refine ⟨fun hreads => ⟨?_, op.answers_answer _⟩, fun hreads => ?_⟩
  · simp only [obedientLoop, if_pos hreads]
  · simp only [obedientLoop, if_neg hreads]
    exact ⟨.refl _ _, Handler.later_loopFinished _, fun _ => .refl _ _⟩

/-- A session in the middle of a plan, whose loop is registered. -/
def midPlanLoop : World × Handler := ({ store := midPlan }, ({} : Handler).registerLoop.2)

def interruptedMidPlan : Config Handling InterruptionReport :=
  drive obedientLoop 200 0 (interrupt true 5000 "s" userInterruptReason, midPlanLoop)

theorem reaches_interruptedMidPlan : Reaches (handling "s" userInterruptReason).rely
    (interrupt true 5000 "s" userInterruptReason, midPlanLoop)
    (interruptedMidPlan.1, interruptedMidPlan.2) :=
  drive_reaches obedientLoop_honest 200 0 _

theorem oneLoop_midPlanLoop : midPlanLoop.2.OneLoop :=
  Handler.AllFinished.registerLoop fun e he => absurd he (Nat.not_lt_zero e)

/-- The loop comes to its end in time: the session is ready, and nothing of its conversation is under
way. -/
theorem interrupt_ends_midPlan :
    ∃ report ready, interruptedMidPlan.1 = .ret (.ok report) ∧ report.loopDrained = true ∧
      report.interruptedTaskIds = ["t"] ∧ report.planId = some "p" ∧
      interruptedMidPlan.2.1.store.getSession "s" = some ready ∧ ready.status = .ready ∧
      Over interruptedMidPlan.2.1.store ready := by
  obtain ⟨report, hend⟩ : ∃ report, interruptedMidPlan.1 = .ret (.ok report) := ⟨_, rfl⟩
  rcases (interrupt_ends oneLoop_midPlanLoop rfl reaches_interruptedMidPlan).2 with
    ⟨c, hstep⟩ | ⟨report', hend', hended⟩
  · rw [show interruptedMidPlan = (.ret (.ok report), interruptedMidPlan.2) from
      Prod.ext hend rfl] at hstep
    cases hstep
  · obtain ⟨-, -, -, -, ready, hready, hstatus, hover⟩ := hended.ready (by decide)
    have hdrained : report'.loopDrained = true ∧ report'.interruptedTaskIds = ["t"] ∧
        report'.planId = some "p" := by
      have hreport : interruptedMidPlan.1 = .ret (.ok report') := hend'
      cases hreport
      exact ⟨rfl, rfl, rfl⟩
    exact ⟨report', ready, hend', hdrained.1, hdrained.2.1, hdrained.2.2, hready, hstatus,
      hover hdrained.1⟩

end Procedure

end Interruption

end AgenticLocalApp
