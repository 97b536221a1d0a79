import AgenticLocalApp.Orchestration.ConversationManager
import AgenticLocalApp.Orchestration.CrashRecovery

/-!
# Resuming after a restart

What a session can be resumed with once the recovery has run: a paused session, from its pending
message or from the top, and a running one whose conversation waits for its reply, with the cycle
that the reply will complete.
-/

namespace AgenticLocalApp

open Prog

namespace Recovery

variable {hasPlatform : Bool} {σ σ' : Store}

/-- A resumption of the session in a new process is accepted and launches `launch`. -/
def Resumes (σ : Store) (sid : String) (launch : Launch) : Prop :=
  ∃ record w', Reaches alone (resumeSession false sid, boot σ) (.ret (.ok (record, launch)), w')

theorem resumes_iff {sid : String} {launch : Launch} :
    Resumes σ sid launch ↔
      ∃ session, σ.getSession sid = some session ∧ resumption σ session = some launch := by
  have hspec := resumeSession_spec (quiet_during fun _ _ => True) (fun _ _ => trivial) sid (boot σ)
  constructor
  · rintro ⟨record, w', hr⟩
    exact wp_reaches (C := during _) hspec hr
  · rintro ⟨session, hs, hl⟩
    obtain ⟨r, w', hr, hQ⟩ := exists_end_alone hspec
    rcases r with e | ⟨record, launch'⟩
    · exact absurd (hl.symm.trans (hQ session hs)) (by simp)
    · obtain ⟨session', hs', hl'⟩ := hQ
      obtain rfl : session' = session := Option.some.inj (hs'.symm.trans hs)
      obtain rfl : launch' = launch := Option.some.inj (hl'.symm.trans hl)
      exact ⟨record, w', hr⟩

/-- The message that a resumed session goes on from. -/
def pendingMessage (σ : Store) (sid : String) : Option MessageRecord :=
  (σ.getSession sid).bind fun session =>
    (currentConversation σ session).bind (pendingOutboundOf σ)

/-! ## Sessions and conversations after a recovery -/

theorem getSession_after (h : Recovers hasPlatform σ σ') {s : SessionRecord}
    (hs : s ∈ σ.sessions.rows) : ∃ s', σ'.getSession s.sessionId = some s' ∧
      s'.status = sessionAfter (resumableConversations σ) σ s ∧
      s'.currentConversationId = s.currentConversationId := by
  obtain ⟨s', hs', he⟩ := session_after h.outcome.1 hs
  obtain ⟨hid, hcur, hstatus⟩ := sameSession_of_states he
  exact ⟨s', hid ▸ Table.find_of_mem hs', hstatus, hcur⟩

theorem getConversation_after (h : Recovers hasPlatform σ σ') {c : ConversationRecord}
    (hc : c ∈ σ.conversations.rows) : ∃ c', σ'.getConversation c.conversationId = some c' ∧
      c'.conversationId = c.conversationId ∧
      c'.status = conversationAfter (resumableConversations σ) σ c := by
  obtain ⟨c', hc', he⟩ := conversation_after h.outcome.1 hc
  obtain ⟨hid, _, _, hstatus⟩ := sameConversation_of_states he
  exact ⟨c', hid ▸ Table.find_of_mem hc', hid, hstatus⟩

theorem messages_after (h : Recovers hasPlatform σ σ') : σ'.messages = σ.messages :=
  congrArg EntityStates.messages h.outcome.1

theorem pendingOutboundOf_after (h : Recovers hasPlatform σ σ') {c c' : ConversationRecord}
    (hid : c'.conversationId = c.conversationId) (hstatus : c'.status = c.status) :
    pendingOutboundOf σ' c' = pendingOutboundOf σ c := by
  unfold pendingOutboundOf Store.listMessages
  rw [hid, hstatus, messages_after h]

/-! ## Paused sessions -/

/-- The session is paused and would be resumed as it would have been from `σ`. -/
def PauseKept (σ σ' : Store) (sid : String) (launch : Launch) : Prop :=
  (∃ s', σ'.getSession sid = some s' ∧ s'.status = .paused) ∧ Resumes σ' sid launch ∧
    pendingMessage σ' sid = pendingMessage σ sid

theorem sessionAfter_of_paused {R : List String} {s : SessionRecord} (hp : s.status = .paused) :
    sessionAfter R σ s = .paused := by
  rw [sessionAfter, if_neg (by rw [hp]; decide), hp]

/-- A paused session that was accepted for resumption is in a conversation that either has a pending
message or has sent nothing. -/
theorem conversation_of_resumes {s : SessionRecord} {launch : Launch} (hs : s ∈ σ.sessions.rows)
    (hacc : Resumes σ s.sessionId launch) :
    ∃ c ∈ σ.conversations.rows, s.currentConversationId = some c.conversationId ∧
      resumption σ s = some launch ∧
      (c.status = .waitingModelResponse ∨ c.status ∈ unsentConversationStates) := by
  obtain ⟨session, hget, hres⟩ := resumes_iff.1 hacc
  obtain rfl : session = s := Option.some.inj (hget.symm.trans (Table.find_of_mem hs))
  have hres' := hres
  unfold resumption at hres
  split at hres
  · cases hres
  cases hc : currentConversation σ session with
  | none => simp [hc] at hres
  | some c =>
    obtain ⟨cid, hcur, hgetc⟩ := Option.bind_eq_some_iff.1 hc
    obtain ⟨hmem, rfl⟩ := Table.find_eq_some_iff.1 hgetc
    refine ⟨c, hmem, hcur, hres', ?_⟩
    simp only [hc] at hres
    split at hres
    · rename_i hp
      refine .inl ?_
      by_contra hw
      simp [pendingOutboundOf, hw] at hp
    · split at hres
      · rename_i hu
        exact .inr hu.2
      · cases hres

/-- Where the recovery leaves a conversation in which a session may be paused. -/
theorem conversationAfter_cases {R : List String} {c : ConversationRecord}
    (hst : c.status = .waitingModelResponse ∨ c.status ∈ unsentConversationStates) :
    conversationAfter R σ c = c.status ∧ (c.conversationId ∈ R ∨ c.status = .new) ∨
      conversationAfter R σ c = .interrupted ∧ ¬ (c.conversationId ∈ R ∨ c.status = .new) := by
  unfold conversationAfter
  by_cases hR : c.conversationId ∈ R
  · simp [hR]
  · cases hs : c.status <;> simp_all [unsentConversationStates, activeConversationStates]

theorem resumption_congr {s s' : SessionRecord} {c c' : ConversationRecord}
    (hs : s'.status = s.status) (hc : currentConversation σ s = some c)
    (hc' : currentConversation σ' s' = some c') (hstatus : c'.status = c.status)
    (hp : pendingOutboundOf σ' c' = pendingOutboundOf σ c) :
    resumption σ' s' = resumption σ s := by
  simp only [resumption, hc, hc', hs, hp, hstatus]

theorem resumption_of_interrupted {s : SessionRecord} {c : ConversationRecord}
    (hc : currentConversation σ s = some c) (hi : c.status = .interrupted) :
    resumption σ s = none := by
  have hp : pendingOutboundOf σ c = none := by simp [pendingOutboundOf, hi]
  have hu : c.status ∉ unsentConversationStates := by rw [hi]; decide
  simp [resumption, hc, hp, hu]

/-- One recovery keeps the pause when the conversation has sent nothing and was not opened, or is
resumable by itself. -/
theorem pauseKept_iff (h : Recovers hasPlatform σ σ') {s : SessionRecord} {launch : Launch}
    (hs : s ∈ σ.sessions.rows) (hp : s.status = .paused) {c : ConversationRecord}
    (hc : c ∈ σ.conversations.rows) (hcur : s.currentConversationId = some c.conversationId)
    (hst : c.status = .waitingModelResponse ∨ c.status ∈ unsentConversationStates)
    (hres : resumption σ s = some launch) :
    PauseKept σ σ' s.sessionId launch ↔
      c.conversationId ∈ resumableConversations σ ∨ c.status = .new := by
  obtain ⟨s', hget', hstatus', hcur'⟩ := getSession_after h hs
  obtain ⟨c', hgetc', hid, hcstatus⟩ := getConversation_after h hc
  rw [sessionAfter_of_paused hp] at hstatus'
  have hgets : σ.getSession s.sessionId = some s := Table.find_of_mem hs
  have hgetc : σ.getConversation c.conversationId = some c := Table.find_of_mem hc
  have hcc : currentConversation σ s = some c := by
    rw [currentConversation, hcur, Option.bind_some, hgetc]
  have hcc' : currentConversation σ' s' = some c' := by
    rw [currentConversation, hcur', hcur, Option.bind_some, hgetc']
  rcases conversationAfter_cases (R := resumableConversations σ) (σ := σ) hst with
    ⟨hafter, hyes⟩ | ⟨hafter, hno⟩
  · refine iff_of_true ⟨⟨s', hget', hstatus'⟩, resumes_iff.2 ⟨s', hget', ?_⟩, ?_⟩ hyes
    · rw [resumption_congr (hstatus'.trans hp.symm) hcc hcc' (hcstatus.trans hafter)
        (pendingOutboundOf_after h hid (hcstatus.trans hafter)), hres]
    · simp only [pendingMessage, hget', hgets, Option.bind_some, hcc, hcc',
        pendingOutboundOf_after h hid (hcstatus.trans hafter)]
  · refine iff_of_false (fun hkept => ?_) hno
    obtain ⟨s'', hget'', hl⟩ := resumes_iff.1 hkept.2.1
    obtain rfl : s'' = s' := Option.some.inj (hget''.symm.trans hget')
    rw [resumption_of_interrupted hcc' (hcstatus.trans hafter)] at hl
    cases hl

/-- The conversation of the session was never opened, or waits for its reply on behalf of another
session, which runs. -/
def PauseSafe (σ : Store) (s : SessionRecord) : Prop :=
  ∃ c, currentConversation σ s = some c ∧
    (c.conversationId ∈ resumableConversations σ ∨ c.status = .new)

theorem pauseSafe_of_survives {s : SessionRecord} {launch : Launch} (hs : s ∈ σ.sessions.rows)
    (hp : s.status = .paused) (hacc : Resumes σ s.sessionId launch)
    (h : ∀ σ', Recovers hasPlatform σ σ' → PauseKept σ σ' s.sessionId launch) : PauseSafe σ s := by
  obtain ⟨c, hc, hcur, hres, hst⟩ := conversation_of_resumes hs hacc
  obtain ⟨σ', hrec⟩ := exists_recovers hasPlatform σ
  have hgetc : σ.getConversation c.conversationId = some c := Table.find_of_mem hc
  exact ⟨c, by rw [currentConversation, hcur, Option.bind_some, hgetc],
    (pauseKept_iff hrec hs hp hc hcur hst hres).1 (h σ' hrec)⟩

/-- A restart keeps the pause of a session exactly when its conversation is one that the recovery
does not interrupt. -/
theorem pause_survives_iff {s : SessionRecord} {launch : Launch} (hs : s ∈ σ.sessions.rows)
    (hp : s.status = .paused) (hacc : Resumes σ s.sessionId launch) :
    (∀ σ', Recovers hasPlatform σ σ' → PauseKept σ σ' s.sessionId launch) ↔ PauseSafe σ s := by
  refine ⟨pauseSafe_of_survives hs hp hacc, ?_⟩
  rintro ⟨d, hd, hsafe⟩ σ' hrec
  obtain ⟨c, hc, hcur, hres, hst⟩ := conversation_of_resumes hs hacc
  have hgetc : σ.getConversation c.conversationId = some c := Table.find_of_mem hc
  obtain rfl : d = c := by
    rw [currentConversation, hcur, Option.bind_some, hgetc] at hd
    exact (Option.some.inj hd).symm
  exact (pauseKept_iff hrec hs hp hc hcur hst hres).2 hsafe

def pausedSession : SessionRecord := .sample "s" .paused (some "c")

/-- A session that was paused when the POST of its first request was refused. -/
def pausedOnPost : Store :=
  { crashedWaiting with
    sessions := .ofRows [pausedSession]
    messages := .ofRows [{ MessageRecord.sample "m1" "s" "c" .outbound .userRequest (some "cycle") with
      postConfirmed := false }] }

theorem pausedSession_mem : pausedSession ∈ pausedOnPost.sessions.rows :=
  List.mem_singleton.2 rfl

theorem pausedOnPost_resumes : Resumes pausedOnPost "s" .resumeSession :=
  resumes_iff.2 ⟨pausedSession, rfl, by decide⟩

/-- A session that was paused before its conversation was opened. -/
def pausedUnopened : Store where
  sessions := .ofRows [pausedSession]
  conversations := .ofRows [.sample "c" "s" .new]

theorem pausedUnopened_survives : PauseSafe pausedUnopened pausedSession ∧
    ∀ σ', Recovers true pausedUnopened σ' → PauseKept pausedUnopened σ' "s" (.runSession none) := by
  have hresumes : Resumes pausedUnopened "s" (.runSession none) :=
    resumes_iff.2 ⟨pausedSession, rfl, by decide⟩
  have hsafe : PauseSafe pausedUnopened pausedSession := ⟨_, rfl, .inr rfl⟩
  exact ⟨hsafe, (pause_survives_iff (List.mem_singleton.2 rfl) rfl hresumes).2 hsafe⟩

theorem pausedOnPost_not_kept :
    Resumes pausedOnPost "s" .resumeSession ∧
      ¬ ∀ σ', Recovers true pausedOnPost σ' → PauseKept pausedOnPost σ' "s" .resumeSession := by
  refine ⟨pausedOnPost_resumes, fun h => ?_⟩
  obtain ⟨c, hc, hsafe⟩ := pauseSafe_of_survives pausedSession_mem rfl pausedOnPost_resumes h
  obtain rfl : waitingConversation = c := Option.some.inj hc
  exact absurd hsafe (by decide)

/-! ## The cycle of the pending message -/

/-- The cycle that a resumed conversation goes on with: the one its pending message names. -/
def pendingCycle (σ : Store) (conversation : ConversationRecord) : Option CycleRecord :=
  (pendingOutbound σ conversation).bind fun m => m.cycleId.bind σ.getCycle

theorem cycle_after (h : Recovers hasPlatform σ σ') {k : String} {cycle : CycleRecord}
    (hk : σ.getCycle k = some cycle) : ∃ cycle', σ'.getCycle k = some cycle' ∧
      cycle'.status = cycleAfter (resumableConversations σ) σ cycle := by
  obtain ⟨hc, rfl⟩ := Table.find_eq_some_iff.1 hk
  have hmem := List.mem_map_of_mem
    (f := fun c => cycleIn c (cycleAfter (resumableConversations σ) σ c)) hc
  rw [← cycles_of_outcome h] at hmem
  obtain ⟨cycle', hc', he⟩ := List.mem_map.1 hmem
  simp only [cycleIn, CycleRecord.mk.injEq] at he
  exact ⟨cycle', Table.find_eq_some_iff.2 ⟨hc', he.1⟩, he.2.2.2.2.1⟩

theorem cycle_before (h : Recovers hasPlatform σ σ') {k : String} {cycle' : CycleRecord}
    (hk : σ'.getCycle k = some cycle') : ∃ cycle, σ.getCycle k = some cycle ∧
      cycle'.status = cycleAfter (resumableConversations σ) σ cycle := by
  obtain ⟨hc, rfl⟩ := Table.find_eq_some_iff.1 hk
  have hmem := List.mem_map_of_mem (f := fun c : CycleRecord => cycleIn c c.status) hc
  rw [cycles_of_outcome h] at hmem
  obtain ⟨cycle, hc, he⟩ := List.mem_map.1 hmem
  simp only [cycleIn, CycleRecord.mk.injEq] at he
  exact ⟨cycle, Table.find_eq_some_iff.2 ⟨hc, he.1⟩, he.2.2.2.2.1.symm⟩

/-- Every conversation that waited for its reply still has a running cycle to complete. -/
def PendingCyclesRun (σ σ' : Store) : Prop :=
  ∀ c ∈ σ.conversations.rows, isResumable σ c →
    ∃ cycle, pendingCycle σ' c = some cycle ∧ cycle.status = .running

/-- The cycle of every pending message is running, and it is recorded under a resumable conversation
or under none whose cycles the recovery settles. -/
def PendingCyclesSpared (σ : Store) : Prop :=
  ∀ c ∈ σ.conversations.rows, isResumable σ c →
    ∃ cycle, pendingCycle σ c = some cycle ∧ cycle.status = .running ∧
      (cycle.conversationId ∈ resumableConversations σ ∨
        cycle.conversationId ∉ scannedConversations σ)

theorem pendingCyclesRun_iff (h : Recovers hasPlatform σ σ') :
    PendingCyclesRun σ σ' ↔ PendingCyclesSpared σ := by
  have hpending (c : ConversationRecord) : pendingOutbound σ' c = pendingOutbound σ c :=
    pendingOutbound_congr σ' (messages_after h) c
  refine forall₂_congr fun c _ => imp_congr_right fun _ => ?_
  unfold pendingCycle
  rw [hpending]
  simp only [Option.bind_eq_some_iff]
  constructor
  · rintro ⟨cycle', ⟨m, hm, k, hk, hget'⟩, hrun⟩
    obtain ⟨cycle, hget, hstatus⟩ := cycle_before h hget'
    exact ⟨cycle, ⟨m, hm, k, hk, hget⟩, cycleAfter_eq_running_iff.1 (hstatus.symm.trans hrun)⟩
  · rintro ⟨cycle, ⟨m, hm, k, hk, hget⟩, hspared⟩
    obtain ⟨cycle', hget', hstatus⟩ := cycle_after h hget
    exact ⟨cycle', ⟨m, hm, k, hk, hget'⟩, hstatus.trans (cycleAfter_eq_running_iff.2 hspared)⟩

theorem pendingCyclesSpared_of_run
    (h : ∀ σ', Recovers hasPlatform σ σ' → PendingCyclesRun σ σ') : PendingCyclesSpared σ := by
  obtain ⟨σ', hrec⟩ := exists_recovers hasPlatform σ
  exact (pendingCyclesRun_iff hrec).1 (h σ' hrec)

/-- The recovery leaves the cycles of the pending messages running exactly when each of them is
recorded where it spares running cycles. -/
theorem pending_cycles_run_iff (hasPlatform : Bool) (σ : Store) :
    (∀ σ', Recovers hasPlatform σ σ' → PendingCyclesRun σ σ') ↔ PendingCyclesSpared σ :=
  ⟨pendingCyclesSpared_of_run, fun h _ hrec => (pendingCyclesRun_iff hrec).2 h⟩

/-- A session that crashed on the first reply after a rotation. -/
def crashedAfterRotation : Store :=
  { pausedAfterRotation with sessions := .ofRows [.sample "s" .running (some "child")] }

theorem crashedAfterRotation_not_run :
    ¬ ∀ σ', Recovers true crashedAfterRotation σ' → PendingCyclesRun crashedAfterRotation σ' := by
  intro h
  obtain ⟨cycle, hcycle, _, hspared⟩ := pendingCyclesSpared_of_run h
    { ConversationRecord.sample "child" "s" .waitingModelResponse with
      parentConversationId := some "parent", currentCycleId := some "cycle" }
    (List.mem_cons_of_mem _ List.mem_cons_self) (by decide)
  obtain rfl : CycleRecord.sample "cycle" "s" "parent" .running = cycle := Option.some.inj hcycle
  exact absurd hspared (by decide)

end Recovery

end AgenticLocalApp
