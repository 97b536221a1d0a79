import AgenticLocalApp.Orchestration.SessionIsolation

/-!
# The stages of a rotation

A rotation writes the records of two conversations, of the session, of its resume cycle and of two
messages, one group after the other.  A stage is what all of them say between two writes, and each
write leads from a stage to the next.
-/

namespace AgenticLocalApp

open Prog

/-- The records of a rotation under way. -/
structure Stage where
  session : SessionRecord
  parent : ConversationRecord
  child : Option ConversationRecord := none
  cycle : Option CycleRecord := none
  request : Option MessageRecord := none
  /-- The pending message as it is sent again. -/
  copy : Option MessageRecord := none

/-- Every message belongs to a conversation that is there. -/
def Store.MessagesHaveConversations (σ : Store) : Prop :=
  ∀ m ∈ σ.messages.rows, m.conversationId ∈ σ.ids .conversation

theorem Store.MessagesHaveConversations.saveConversation {σ : Store}
    (h : σ.MessagesHaveConversations) (c : ConversationRecord) :
    (σ.saveConversation c).MessagesHaveConversations := by
  intro m hm
  obtain ⟨d, hd, he⟩ := List.mem_map.1 (h m hm)
  rw [← he]
  by_cases hsame : d.conversationId = c.conversationId
  · rw [hsame]
    exact List.mem_map_of_mem (Table.mem_save.2 (.inl rfl))
  · exact List.mem_map_of_mem (Table.mem_save.2 (.inr ⟨hd, hsame⟩))

theorem Store.MessagesHaveConversations.saveMessage {σ : Store} (h : σ.MessagesHaveConversations)
    {r : MessageRecord} (hr : r.conversationId ∈ σ.ids .conversation) :
    (σ.saveMessage r).MessagesHaveConversations := by
  intro m hm
  rcases Table.mem_save.1 hm with rfl | ⟨hm, -⟩
  · exact hr
  · exact h m hm

/-- The store `σ` shows the stage, in a rotation that started from `σ₀`. -/
structure Stage.In (st : Stage) (σ₀ σ : Store) : Prop where
  session : σ.getSession st.session.sessionId = some st.session
  parent : σ.getConversation st.parent.conversationId = some st.parent
  child : ∀ c, st.child = some c → σ.getConversation c.conversationId = some c ∧
    c.conversationId ≠ st.parent.conversationId ∧ c.sessionId = st.session.sessionId
  fresh : ∀ c, st.child = some c → c.conversationId ∉ σ₀.ids .conversation
  /-- The other conversations are as they were. -/
  others : ∀ cid, cid ≠ st.parent.conversationId →
    (∀ c, st.child = some c → cid ≠ c.conversationId) → σ.getConversation cid = σ₀.getConversation cid
  /-- Before there is a child, nothing but the session and the parent has changed. -/
  childless : st.child = none → σ.ids .conversation = σ₀.ids .conversation ∧
    σ.cycles = σ₀.cycles ∧ σ.messages = σ₀.messages ∧ σ.summaries = σ₀.summaries
  cycle : ∀ c, st.cycle = some c → σ.getCycle c.cycleId = some c
  /-- Before there is a resume cycle, no cycle has changed. -/
  cycleless : st.cycle = none → σ.cycles = σ₀.cycles
  request : ∀ m, st.request = some m → σ.getMessage m.messageId = some m ∧
    m.retransmissionOf = none ∧ ∀ c, st.child = some c → m.conversationId = c.conversationId
  /-- Before there is a request, no message has changed. -/
  requestless : st.request = none → σ.messages = σ₀.messages
  copy : ∀ m, st.copy = some m → σ.getMessage m.messageId = some m ∧
    ∀ r, st.request = some r → m.messageId ≠ r.messageId
  /-- Only the copy is a retransmission. -/
  marked : ∀ c, st.child = some c → ∀ m ∈ σ.messages.rows, m.conversationId = c.conversationId →
    m.retransmissionOf ≠ none → st.copy.map MessageRecord.messageId = some m.messageId
  owned : σ.MessagesHaveConversations
  decisions : σ.retryDecisions = σ₀.retryDecisions

namespace Stage

variable {st : Stage} {σ₀ σ : Store}

theorem In.saveSession (h : st.In σ₀ σ) {s : SessionRecord}
    (hid : s.sessionId = st.session.sessionId) :
    ({ st with session := s } : Stage).In σ₀ (σ.saveSession s) where
  session := Table.find_save_self _ _
  parent := h.parent
  child c hc := by
    obtain ⟨hfind, hne, hsid⟩ := h.child c hc
    exact ⟨hfind, hne, hsid.trans hid.symm⟩
  fresh := h.fresh
  others := h.others
  childless := h.childless
  cycle := h.cycle
  cycleless := h.cycleless
  request := h.request
  requestless := h.requestless
  copy := h.copy
  marked := h.marked
  owned := h.owned
  decisions := h.decisions

/-- The cycle is written for the first time, or again. -/
theorem In.saveCycle (h : st.In σ₀ σ) {child : ConversationRecord} (hchild : st.child = some child)
    {c : CycleRecord} : ({ st with cycle := some c } : Stage).In σ₀ (σ.saveCycle c) where
  session := h.session
  parent := h.parent
  child := h.child
  fresh := h.fresh
  others := h.others
  childless hn := by rw [hchild] at hn; cases hn
  cycle d hd := by
    obtain rfl := Option.some.inj hd
    exact Table.find_save_self _ _
  cycleless hn := by cases hn
  request := h.request
  requestless := h.requestless
  copy := h.copy
  marked := h.marked
  owned := h.owned
  decisions := h.decisions

end Stage

end AgenticLocalApp
