import AgenticLocalApp.Orchestration.RecoverySettling

/-!
# Settling sessions

The last pass.  A session moves by one transition or two, and the conversation it ends with is
finished before it.
-/

namespace AgenticLocalApp

open Prog

namespace Recovery

variable {R : List String} {ordered : Prop} {w : World}

theorem sameSession_moveTo (s : SessionRecord) {target : SessionState} (h : target ≠ .running)
    (now : Instant) : SameSession (s.moveTo target now) s := by
  intro status
  cases target <;> first | rfl | exact absurd rfl h

@[simp] theorem session_moveTo_status (s : SessionRecord) (target : SessionState) (now : Instant) :
    (s.moveTo target now).status = target := by cases target <;> rfl

@[simp] theorem session_moveTo_current (s : SessionRecord) (target : SessionState) (now : Instant) :
    (s.moveTo target now).currentConversationId = s.currentConversationId := by cases target <;> rfl

/-- What holds between any two writes of the last pass. -/
structure Settled (R : List String) (σ σ' : Store) : Prop where
  frame : ∃ conversations sessions,
    σ' = { σ with conversations := conversations, sessions := sessions }
  policy : policy R σ' = policy R σ
  cycles : CyclesSettled R σ'
  active : ∀ c ∈ σ'.conversations.rows, c.status ∈ activeConversationStates → c.conversationId ∈ R
  found : ∀ cid ∈ R, ∃ c ∈ σ'.conversations.rows, c.conversationId = cid

/-- An open session `x` may move to `target`: the policy sends it the same way from there, and no
completed conversation waits for it. -/
structure MayMove (R : List String) (σ : Store) (x : SessionRecord) (target : SessionState) : Prop where
  mem : x ∈ σ.sessions.rows
  opened : x.status ∈ openSessionStates
  stay : ¬ StaysRunning R x
  table : canTransition sessionTransitions x.status target
  other : target ≠ .running
  same : (if target ∈ openSessionStates then
      openSessionAfter R target (x.currentConversationId.bind σ.getConversation) else target) =
    openSessionAfter R x.status (x.currentConversationId.bind σ.getConversation)
  finished : x.status = .running → ∀ c ∈ σ.conversations.rows, c.status = .completed →
    c.conversationId ∉ R → x.currentConversationId ≠ some c.conversationId

theorem wp_moveSession {σ : Store} {x : SessionRecord} {target : SessionState} {Q}
    (hσ : Settled R σ w.store) (h : MayMove R w.store x target)
    (hQ : ∀ now, Settled R σ (w.store.saveSession (x.moveTo target now)) →
      Q (.ok (x.moveTo target now)) { w with store := w.store.saveSession (x.moveTo target now) }) :
    wp (during (Progress R ordered)) (transitionSession x.sessionId target) Q w := by
  refine wp_transitionSession (quiet_during _) (Table.find_of_mem h.mem) h.table
    (fun _ hr => absurd hr h.other) fun now => ?_
  have hsame := sameSession_moveTo x h.other now
  have hpol : policy R (w.store.saveSession (x.moveTo target now)) = policy R w.store := by
    refine policy_saveSession h.mem hsame h.opened hσ.cycles ?_ fun c hc hcomp hn hcur => ?_
    · simp only [sessionAfter, session_moveTo_status, session_moveTo_current, h.opened, if_true]
      exact h.same
    · rw [session_moveTo_status]
      exact ⟨fun e => absurd e h.other, fun e => absurd hcur (h.finished e c hc hcomp hn)⟩
  refine ⟨⟨hpol, fun _ hres => resumableAre_saveSession hres h.mem hsame h.stay (by simp [h.other])⟩,
    hQ now ⟨?_, hpol.trans hσ.policy, ?_, hσ.active, hσ.found⟩⟩
  · obtain ⟨conversations, sessions, hw⟩ := hσ.frame
    exact ⟨conversations, _, by rw [hw]; rfl⟩
  · exact cyclesSettled_mono _ hσ.cycles rfl (scanned_saveSession h.mem hsame h.opened)

/-- Where the loop over the open sessions stands. -/
structure Settling (R : List String) (σ : Store) (rest : List SessionRecord) (σ' : Store) : Prop
    extends Settled R σ σ' where
  todo : σ'.sessions.ToDo rest fun s => s.status ∈ openSessionStates ∧ ¬ StaysRunning R s
  opened : ∀ s ∈ rest, s.status ∈ openSessionStates

/-- A session that has left the open states is done with. -/
theorem Settling.done {σ σ' : Store} {x : SessionRecord} {rest : List SessionRecord}
    {target : SessionState} {now : Instant} (h : Settling R σ (x :: rest) σ')
    (hother : target ≠ .running) (ht : target ∉ openSessionStates)
    (hσ : Settled R σ (σ'.saveSession (x.moveTo target now))) :
    Settling R σ rest (σ'.saveSession (x.moveTo target now)) where
  toSettled := hσ
  todo := h.todo.save (sameSession_moveTo x hother now).key fun hs => ht (by simpa using hs.1)
  opened s hs := h.opened s (List.mem_cons_of_mem _ hs)

theorem openSessionAfter_of_not_running {status : SessionState} (h : status ≠ .running)
    (c : Option ConversationRecord) : openSessionAfter R status c = .ready := by
  cases c <;> simp [openSessionAfter, h]

/-- The last step of the last case: an interrupting session is ready again. -/
theorem wp_readyFromInterrupting {σ : Store} {x : SessionRecord} {rest : List SessionRecord}
    (h : Settling R σ (x :: rest) w.store) (hx : x.status = .interrupting) :
    wp (during (Progress R ordered)) (transitionSession x.sessionId .ready)
      (returns fun _ w' => Settling R σ rest w'.store) w := by
  have hmove : MayMove R w.store x .ready :=
    { mem := h.todo.head
      opened := h.opened x List.mem_cons_self
      stay := fun hs => absurd (hs.1.symm.trans hx) (by decide)
      table := by rw [hx]; rfl
      other := by decide
      same := by simp [openSessionAfter_of_not_running, hx]
      finished := fun hr => absurd (hr.symm.trans hx) (by decide) }
  exact wp_moveSession h.toSettled hmove fun now hσ => h.done (by decide) (by decide) hσ

theorem readySession_spec {σ : Store} {x : SessionRecord} {rest : List SessionRecord}
    (h : Settling R σ (x :: rest) w.store) (hstay : ¬ StaysRunning R x)
    (hready : openSessionAfter R x.status
      (x.currentConversationId.bind w.store.getConversation) = .ready)
    (hfin : x.status = .running → ∀ c ∈ w.store.conversations.rows, c.status = .completed →
      c.conversationId ∉ R → x.currentConversationId ≠ some c.conversationId) :
    wp (during (Progress R ordered)) (readySession x)
      (returns fun _ w' => Settling R σ rest w'.store) w := by
  have hopen := h.opened x List.mem_cons_self
  unfold readySession
  simp only [wp_ite, wp_bind]
  refine ⟨fun hrun => ?_, fun hrun => ?_⟩
  · have hmove : MayMove R w.store x .interrupting :=
      { mem := h.todo.head
        opened := hopen
        stay := hstay
        table := by rw [hrun]; rfl
        other := by decide
        same := by rw [hready, openSessionAfter_of_not_running (by decide)]; rfl
        finished := hfin }
    refine wp_moveSession h.toSettled hmove fun now hσ => ?_
    have h' : Settling R σ (x.moveTo .interrupting now :: rest)
        (w.store.saveSession (x.moveTo .interrupting now)) :=
      { toSettled := hσ
        todo := h.todo.replace (sameSession_moveTo x (by decide) now).key
        opened := by
          rintro s hs
          rcases List.mem_cons.1 hs with rfl | hs
          · simp [openSessionStates]
          · exact h.opened s (List.mem_cons_of_mem _ hs) }
    let w' : World := { w with store := w.store.saveSession (x.moveTo .interrupting now) }
    let x' := x.moveTo .interrupting now
    have hlast : wp (during (Progress R ordered)) (transitionSession x'.sessionId .ready)
        (returns fun _ w'' => Settling R σ rest w''.store) w' :=
      wp_readyFromInterrupting h' (session_moveTo_status x _ now)
    exact wp_mono hlast fun r _ hr => by cases r <;> exact hr
  · have hx : x.status = .interrupting := by
      cases hs : x.status <;> rw [hs] at hopen hrun <;> first | rfl | exact absurd hopen (by decide) | exact absurd rfl hrun
    exact wp_mono (wp_readyFromInterrupting h hx) fun r _ hr => by cases r <;> exact hr

/-- A finished conversation goes where the policy sends it. -/
theorem finishConversation_spec {σ : Store} {x : SessionRecord} {c : ConversationRecord}
    {rest : List SessionRecord} (h : Settling R σ (x :: rest) w.store) (hrun : x.status = .running)
    (hcur : x.currentConversationId = some c.conversationId) (hc : c ∈ w.store.conversations.rows)
    (hn : c.conversationId ∉ R) (hfin : c.status ∈ finishedConversationStates) :
    wp (during (Progress R ordered)) (finishConversation c)
      (returns fun _ w' => Settling R σ (x :: rest) w'.store ∧
        ∃ d ∈ w'.store.conversations.rows, d.conversationId = c.conversationId ∧
          d.status ∈ finishedConversationStates ∧ d.status ≠ .completed) w := by
  unfold finishConversation
  simp only [wp_ite, wp_bind]
  refine ⟨fun hcomp => ⟨h, c, hc, rfl, hfin, hcomp⟩, fun hcomp => ?_⟩
  replace hcomp : c.status = .completed := not_not.1 hcomp
  let target := finishTarget c
  let updates (d : ConversationRecord) : ConversationRecord :=
    if target = .closed then { d with closureReason := some "auto_close" } else d
  have htarget : target = .closed ∨ target = .waitingUser := by
    by_cases ha : c.autoCloseOnFinalAnswer <;> simp [target, finishTarget, ha]
  have hsame (now : Instant) : SameConversation ((updates c).moveTo target now) c := by
    intro status
    rw [sameConversation_moveTo]
    rcases htarget with e | e <;> simp only [updates, e] <;> rfl
  have htable : canTransition conversationTransitions c.status target := by
    rw [hcomp]; rcases htarget with e | e <;> rw [e] <;> rfl
  refine wp_transitionConversation (quiet_during _) (Table.find_of_mem hc) htable fun now => ?_
  let r := (updates c).moveTo target now
  have hr : r.status = target := moveTo_status _ _ _
  have hact : r.status ∉ activeConversationStates := by
    rw [hr]; rcases htarget with e | e <;> rw [e] <;> decide
  have hrfin : r.status ∈ finishedConversationStates := by
    rw [hr]; rcases htarget with e | e <;> rw [e] <;> decide
  have hrcomp : r.status ≠ .completed := by
    rw [hr]; rcases htarget with e | e <;> rw [e] <;> decide
  have hrfail : r.status ≠ .failed := by
    rw [hr]; rcases htarget with e | e <;> rw [e] <;> decide
  have hk : r.conversationId = c.conversationId := (hsame now).key
  have hpol : policy R (w.store.saveConversation r) = policy R w.store := by
    refine policy_saveConversation hc (hsame now) hn h.cycles hact hrcomp ?_ fun status => ?_
    · rw [hr, conversationAfter, if_neg hn, if_neg (by rw [hcomp]; decide),
        if_pos ⟨hcomp, x, h.todo.head, hrun, hcur⟩]
    · have hcfail : c.status ≠ .failed := by rw [hcomp]; decide
      simp only [openSessionAfter, hk, hn, hrfin, hfin, hrfail, hcfail, false_and, and_false, if_false]
  have hmem : r ∈ (w.store.saveConversation r).conversations.rows := Table.mem_save.2 (.inl rfl)
  refine ⟨⟨hpol, fun _ hres => resumableAre_saveConversation hres hc (hsame now) hn hact fun hrot =>
    absurd (hrot.symm.trans hcomp) (by decide)⟩, ⟨⟨?_, hpol.trans h.policy, ?_, ?_, ?_⟩, h.todo, h.opened⟩,
    r, hmem, hk, hrfin, hrcomp⟩
  · obtain ⟨conversations, sessions, hw⟩ := h.frame
    exact ⟨_, sessions, by rw [hw]; rfl⟩
  · exact cyclesSettled_mono _ h.cycles rfl (scanned_saveConversation hc (hsame now) hact)
  · intro d hd hda
    rcases (Table.mem_save_over hc (hsame now).key).1 hd with rfl | ⟨hd, _⟩
    · exact absurd hda hact
    · exact h.active d hd hda
  · intro cid hcid
    obtain ⟨d, hd, rfl⟩ := h.found cid hcid
    by_cases hdc : d = c
    · subst hdc
      exact ⟨r, hmem, hk⟩
    · exact ⟨d, (Table.mem_save_over hc (hsame now).key).2 (.inr ⟨hd, hdc⟩), rfl⟩

/-- The two cases in which the session ends with its conversation. -/
theorem wp_endSession {σ : Store} {x : SessionRecord} {rest : List SessionRecord}
    {c : ConversationRecord} {target : SessionState}
    (h : Settling R σ (x :: rest) w.store) (hrun : x.status = .running)
    (hcur : x.currentConversationId = some c.conversationId) (hc : c ∈ w.store.conversations.rows)
    (hn : c.conversationId ∉ R) (hcomp : c.status ≠ .completed)
    (ht : target = .failed ∧ c.status = .failed ∨
      target = .completed ∧ c.status ∈ finishedConversationStates) :
    wp (during (Progress R ordered)) (do let _ ← transitionSession x.sessionId target)
      (returns fun _ w' => Settling R σ rest w'.store) w := by
  have hstay : ¬ StaysRunning R x := by
    rintro ⟨_, cid, hcid, he⟩
    exact hn (Option.some.inj (hcur.symm.trans he) ▸ hcid)
  have hgo : openSessionAfter R x.status (x.currentConversationId.bind w.store.getConversation) =
      target := by
    have hget : w.store.getConversation c.conversationId = some c := Table.find_of_mem hc
    simp only [hcur, Option.bind_some, hget, openSessionAfter, hn, hrun, false_and, if_false, true_and]
    rcases ht with ⟨rfl, hs⟩ | ⟨rfl, hs⟩
    · rw [if_pos hs]
    · rw [if_neg (fun e => by rw [e] at hs; exact absurd hs (by decide)), if_pos hs]
  have hclosed : target ∉ openSessionStates := by
    rcases ht with ⟨rfl, _⟩ | ⟨rfl, _⟩ <;> decide
  have hother : target ≠ .running := by
    rcases ht with ⟨rfl, _⟩ | ⟨rfl, _⟩ <;> decide
  have hmove : MayMove R w.store x target :=
    { mem := h.todo.head
      opened := h.opened x List.mem_cons_self
      stay := hstay
      table := by rw [hrun]; rcases ht with ⟨rfl, _⟩ | ⟨rfl, _⟩ <;> rfl
      other := hother
      same := by rw [if_neg hclosed, hgo]
      finished := fun _ d hd hdc _ he => by
        rw [Table.key_inj hd hc (Option.some.inj (he.symm.trans hcur))] at hdc
        exact hcomp hdc }
  rw [wp_bind]
  exact wp_moveSession h.toSettled hmove fun now hσ => h.done hother hclosed hσ

theorem settleSession_step {σ : Store} {x : SessionRecord} {rest : List SessionRecord}
    (h : Settling R σ (x :: rest) w.store) :
    wp (during (Progress R ordered)) (settleSession R x)
      (returns fun _ w' => Settling R σ rest w'.store) w := by
  unfold settleSession
  simp only [wp_bind, wp_readStore, after_ok]
  cases hget : x.currentConversationId.bind w.store.getConversation with
  | none =>
    -- no conversation: the session cannot be kept running by one of `R`, nor finish one
    have hno : ∀ c ∈ w.store.conversations.rows, x.currentConversationId ≠ some c.conversationId := by
      rintro c hc he
      rw [he, Option.bind_some, Store.getConversation, Table.find_eq_none_iff] at hget
      exact hget c hc rfl
    have hstay : ¬ StaysRunning R x := by
      rintro ⟨_, cid, hcid, he⟩
      obtain ⟨c, hc, rfl⟩ := h.found cid hcid
      exact hno c hc he
    exact readySession_spec h hstay (by rw [hget]; rfl) fun _ c hc _ _ => hno c hc
  | some c =>
    obtain ⟨cid, hcur, hgetc⟩ := Option.bind_eq_some_iff.1 hget
    obtain ⟨hc, rfl⟩ := Table.find_eq_some_iff.1 hgetc
    have hstay : StaysRunning R x ↔ c.conversationId ∈ R ∧ x.status = .running := by
      unfold StaysRunning
      simp only [hcur, key_conversation, Option.some.injEq, exists_eq_right']
      tauto
    simp only [wp_ite]
    refine ⟨fun hres => ?_, fun hres => ?_⟩
    · exact { h with
        todo := h.todo.skip fun hp => hp.2 (hstay.2 hres)
        opened := fun s hs => h.opened s (List.mem_cons_of_mem _ hs) }
    refine ⟨fun hbroken => ?_, fun hfail => ⟨fun hended => ?_, fun hfin => ?_⟩⟩
    · obtain ⟨hrun, hfail⟩ := hbroken
      have hn : c.conversationId ∉ R := fun hR => hres ⟨hR, hrun⟩
      exact wp_endSession h hrun hcur hc hn (by rw [hfail]; decide) (.inl ⟨rfl, hfail⟩)
    · obtain ⟨hrun, hfin⟩ := hended
      have hn : c.conversationId ∉ R := fun hR => hres ⟨hR, hrun⟩
      rw [wp_bind]
      refine wp_mono (finishConversation_spec h hrun hcur hc hn hfin) ?_
      rintro (e | _) w' h'
      · exact h'
      · obtain ⟨h', d, hd, hk, hdfin, hdcomp⟩ := h'
        exact wp_endSession h' hrun (hk ▸ hcur) hd (hk ▸ hn) hdcomp (.inr ⟨rfl, hdfin⟩)
    · refine readySession_spec h (fun hs => hres (hstay.1 hs)) ?_ fun hrun d hd hcomp _ he => ?_
      · simp only [hget, openSessionAfter, hres, hfail, hfin, if_false]
      · have hdc : d = c := Table.key_inj hd hc (Option.some.inj (he.symm.trans hcur))
        exact hfin ⟨hrun, by rw [← hdc, hcomp]; decide⟩

/-- Every open session is one that keeps running for its reply. -/
theorem settleSessions_spec {σ : Store} (h : Settled R σ w.store) :
    wp (during (Progress R ordered)) (settleSessions R)
      (returns fun _ w' => Settling R σ [] w'.store) w := by
  unfold settleSessions
  simp only [wp_bind, wp_readStore, after_ok]
  let I (rest : List SessionRecord) (w' : World) : Prop := Settling R σ rest w'.store
  have init : I (w.store.listSessions openSessionStates) w :=
    { toSettled := h
      todo := .of_perm_filter (List.perm_insertionSort _ _) fun s _ hs => by simpa using hs.1
      opened := fun s hs => (Store.mem_listSessions.1 hs).2 }
  have step : ∀ x rest w', I (x :: rest) w' →
      wp (during (Progress R ordered)) (settleSession R x) (returns fun _ => I rest) w' :=
    fun _ _ _ h => settleSession_step h
  exact wp_mono (wp_forM step init) fun _ _ h => h

end Recovery

end AgenticLocalApp
