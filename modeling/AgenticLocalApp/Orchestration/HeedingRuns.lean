import AgenticLocalApp.Orchestration.RotatesOrFails

/-!
# The turns of a run

A run that begins in order goes on in order, from its entry through every turn, until it answers,
fails, or is asked for a rotation by a first call or a post.
-/

namespace AgenticLocalApp

open Prog

variable {before : Store} {sid cid : String} {but : String → Prop}

/-! ## Writes of the session and its conversation -/

/-- What may be written over the records of the session and its current conversation. -/
structure Writable (before : Store) (sid cid : String) (but : String → Prop)
    (session : SessionRecord) (conv : ConversationRecord) (σ : Store) : Prop where
  own : session.sessionId = sid
  running : session.status = .running
  here : conv.conversationId = cid
  write : ∀ σ' session' conv', Apart σ σ' → session'.sessionId = session.sessionId →
    session'.status = session.status → conv'.conversationId = conv.conversationId →
    conv'.sessionId = conv.sessionId → conv'.parentConversationId = conv.parentConversationId →
    conv'.status = conv.status →
    Standing before sid cid but ((σ'.saveSession session').saveConversation conv')

theorem Standing.writable {σ : Store} (h : Standing before sid cid but σ) : ∃ session conv,
    σ.getSession sid = some session ∧ σ.getConversation cid = some conv ∧
      Writable before sid cid but session conv σ := by
  obtain ⟨session, hs, hrunning⟩ := h.session
  obtain ⟨conv, hc, hkey, hopen, -⟩ := h.write
  refine ⟨session, conv, hs, hc, Table.key_of_find hs, hrunning, hkey, ?_⟩
  intro σ' session' conv' hapart hid hstatus hid' howner hlink hstatus'
  have hsaved := (h.apart hapart).saveSession (hid.trans (Table.key_of_find hs))
    (hstatus.trans hrunning)
  refine hsaved.saveConversation (c := conv) ?_ (hid'.trans hkey) howner hlink
    fun he => hopen (hstatus'.symm.trans he)
  exact (congrArg (fun t => Table.find t cid) hapart.conversations).trans hc

/-- A message of the conversation may be written with them. -/
theorem Writable.opens {σ : Store} {session session' : SessionRecord}
    {conv conv' : ConversationRecord} (h : Writable before sid cid but session conv σ)
    {cycle : CycleRecord} {record : MessageRecord}
    (hrecord : record.conversationId = cid) (hid : session'.sessionId = session.sessionId)
    (hstatus : session'.status = session.status) (hid' : conv'.conversationId = conv.conversationId)
    (howner : conv'.sessionId = conv.sessionId)
    (hlink : conv'.parentConversationId = conv.parentConversationId)
    (hstatus' : conv'.status = conv.status) :
    Standing before sid cid but
      ((((σ.saveSession session').saveCycle cycle).saveMessage record).saveConversation conv') :=
  (h.write (σ.saveCycle cycle) session' conv' ⟨rfl, rfl, rfl, rfl⟩ hid hstatus hid' howner hlink
    hstatus').saveMessage hrecord

namespace SessionRun

variable {α : Type} {ready full : Prop} {o : ProtocolOrchestrator} {s : World × SessionRun}

/-- A run is about to begin in the conversation `cid`. -/
structure Beginning (before : Store) (sid cid : String) (s : World × SessionRun) : Prop where
  memory : s.2 = { sid := sid }
  current : ∃ session, s.1.store.getSession sid = some session ∧
    session.currentConversationId = some cid
  standing : Standing before sid cid noOne s.1.store

/-- The conversation is read for the first time. -/
theorem wp_conversation_first (h : Beginning before sid cid s) {Q}
    (hok : ∀ c s', s'.1 = s.1 → c.conversationId = cid → s.1.store.getConversation cid = some c →
      Ordered before sid cid False False noOne s' → Q (.ok c) s') :
    wp (heedingLoop before sid) conversation Q s := by
  obtain ⟨w, run⟩ := s
  obtain rfl : run = { sid := sid } := h.memory
  obtain ⟨session, hs, hcurrent⟩ := h.current
  obtain ⟨c, hc, hkey, -⟩ := h.standing.write
  unfold conversation
  rw [wp_bind]
  refine wp_run_get ?_
  rw [after_ok, wp_bind]
  refine wp_lift_app ?_
  rw [wp_readStore, after_ok]
  dsimp only [Option.bind_none]
  rw [wp_bind]
  refine wp_session hs ?_
  rw [after_ok, hcurrent]
  refine wp_freshConversation (fun w => heeding_guar w w) hc ?_
  exact hok c _ rfl hkey hc ⟨⟨rfl, ⟨c, rfl, hkey⟩, False.elim, False.elim⟩, h.standing⟩

theorem Beginning.bind (h : Beginning before sid cid s) {f : ConversationRecord → Prog Loop α}
    (hf : ∀ c, c.conversationId = cid → GoesOn before sid cid False False (f c)) :
    wp (heedingLoop before sid) (conversation >>= f)
      (after (fun _ => Underway before sid) (Ends before sid)) s := by
  rw [wp_bind]
  exact wp_conversation_first h fun c s' _ hc _ h' => hf c hc s' h'

/-- What is owed is owed for `but`. -/
abbrev Settled (before : Store) (sid : String) (but : String → Prop) : World × SessionRun → Prop :=
  Together (fun run => run.sid = sid) (Turned before sid but)

theorem Underway.settled (h : Underway before sid s) : Settled before sid noOne s := by
  obtain ⟨cid, h⟩ := h
  exact ⟨h.memory.sid, h.records.turned⟩

end SessionRun

end AgenticLocalApp
