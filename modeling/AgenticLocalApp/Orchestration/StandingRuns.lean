import AgenticLocalApp.Orchestration.Obligations

/-!
# Runs whose records are in order

What every step of the loop but a decision to rotate leaves as it was: the session runs in the same
conversation, its records are in order, and nothing is owed that was not.
-/

namespace AgenticLocalApp

open Prog

/-- A reply that has an encoding. -/
def GetResult.Readable (reply : GetResult) : Prop := (RawJson.encodeItems reply.messages).isSome

/-- The contract of a run that began at `before`: nobody else runs, no remote call reports an
interruption, and what is read has an encoding.  A run goes on for ever only when nothing is
owed. -/
def heeding (before : Store) (sid : String) : Contract App where
  rely op w a w' := alone op w a w' ∧ op.Unused before a ∧
    (∀ e, op.Fails a e → e.errorType ≠ .interrupted) ∧ op.ReadsAmong GetResult.Readable a
  guar _ _ := True
  wait _ _ := True
  stuck w := TurnedAll before sid w.store

theorem heeding_guar {before : Store} {sid : String} (w w' : World) :
    (heeding before sid).guar w w' := trivial

variable {α β : Type} {before : Store} {sid cid : String} {but : String → Prop} {I : Store → Prop}

/-! ## Records -/

section App

/-- The record of the current conversation, and what may be written over it. -/
theorem Standing.write {σ : Store} (h : Standing before sid cid but σ) : ∃ c,
    σ.getConversation cid = some c ∧ c.conversationId = cid ∧ c.status ≠ .closed ∧
      ∀ c', c'.conversationId = c.conversationId → c'.sessionId = c.sessionId →
        c'.parentConversationId = c.parentConversationId → c'.status ≠ .closed →
        Standing before sid cid but (σ.saveConversation c') := by
  obtain ⟨c, hc, -, hopen⟩ := h.current
  have hkey : c.conversationId = cid := Table.key_of_find hc
  exact ⟨c, hc, hkey, hopen, fun c' hid howner hlink hopen' =>
    h.saveConversation hc (hid.trans hkey) howner hlink hopen'⟩

theorem Standing.owing {σ : Store} (h : Standing before sid cid (fun _ => False) σ) :
    Standing before sid cid (fun x => x = cid) σ :=
  { h with turned := h.turned.mono rfl (fun _ hover => hover) fun _ => False.elim }

end App

/-! ## The memory of the run -/

namespace SessionRun

/-- The run remembers its conversation, where it is `ready` what it has to send, and where it is
`full` what it sent last and in which cycle. -/
structure Memory (sid cid : String) (ready full : Prop) (run : SessionRun) : Prop where
  sid : run.sid = sid
  conv : ∃ c, run.conv = some c ∧ c.conversationId = cid
  pending : ready → ∃ p, run.pending = some p ∧ p.Complete
  sent : full → run.cycle.isSome ∧ ∃ m, run.lastOutbound = some m ∧ m.conversationId = cid

/-- What holds of the memory, and what of the records. -/
structure Together (J : SessionRun → Prop) (I : Store → Prop) (s : World × SessionRun) : Prop where
  memory : J s.2
  records : I s.1.store

/-- The run and its records are in order. -/
abbrev Ordered (before : Store) (sid cid : String) (ready full : Prop) (but : String → Prop) :
    World × SessionRun → Prop :=
  Together (Memory sid cid ready full) (Standing before sid cid but)

variable {ready full : Prop} {J : SessionRun → Prop} {o : ProtocolOrchestrator}
  {s : World × SessionRun}

abbrev heedingLoop (before : Store) (sid : String) : Contract Loop :=
  (heeding before sid).withLocal SessionRun

/-- The program keeps what holds of the memory and of the records, also where it raises. -/
abbrev KeepsBoth (before : Store) (sid : String) (J : SessionRun → Prop) (I : Store → Prop)
    (p : Prog Loop α) : Prop :=
  Keeps (heedingLoop before sid) (Together J I) (fun _ => Together J I) p

/-- The program leaves the run in order, also where it raises. -/
abbrev StaysIn (before : Store) (sid cid : String) (ready full : Prop) (but : String → Prop)
    (p : Prog Loop α) : Prop :=
  KeepsBoth before sid (Memory sid cid ready full) (Standing before sid cid but) p

theorem Memory.conversationId {run : SessionRun} (h : Memory sid cid ready full run) :
    run.conversationId = some cid := by
  obtain ⟨c, hc, hid⟩ := h.conv
  rw [SessionRun.conversationId, hc, Option.map_some, hid]

/-- The same for a program whose result is a record of the current conversation. -/
abbrev StaysAt (before : Store) (sid cid : String) (ready full : Prop) (but : String → Prop)
    (p : Prog Loop ConversationRecord) : Prop :=
  ∀ s, Ordered before sid cid ready full but s → wp (heedingLoop before sid) p
    (after (fun c s' => c.conversationId = cid ∧ Ordered before sid cid ready full but s')
      fun _ s' => Ordered before sid cid ready full but s') s

theorem StaysAt.wp_bind {p : Prog Loop ConversationRecord}
    (hp : StaysAt before sid cid ready full but p) {f : ConversationRecord → Prog Loop α}
    (h : Ordered before sid cid ready full but s) {Q}
    (herr : ∀ e s', Ordered before sid cid ready full but s' → Q (.error e) s')
    (hok : ∀ c s', c.conversationId = cid → Ordered before sid cid ready full but s' →
      wp (heedingLoop before sid) (f c) Q s') : wp (heedingLoop before sid) (p >>= f) Q s := by
  rw [Prog.wp_bind]
  refine wp_mono (hp s h) fun r s' hr => ?_
  cases r with
  | ok c => exact hok c s' hr.1 hr.2
  | error e => exact herr e s' hr

theorem StaysAt.bind {p : Prog Loop ConversationRecord}
    (hp : StaysAt before sid cid ready full but p) {f : ConversationRecord → Prog Loop α}
    (hf : ∀ c, c.conversationId = cid → StaysIn before sid cid ready full but (f c)) :
    StaysIn before sid cid ready full but (p >>= f) := fun _ h =>
  hp.wp_bind h (fun _ _ h' => h') fun c s' hc h' => hf c hc s' h'

end SessionRun

end AgenticLocalApp
