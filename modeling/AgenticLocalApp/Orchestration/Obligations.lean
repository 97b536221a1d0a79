import AgenticLocalApp.Orchestration.RotateRequests
import AgenticLocalApp.Orchestration.UnusableReplies

/-!
# What a decision to rotate obliges to

A decision to rotate is recorded before anything comes of it.  It is kept when a rotation has closed
the conversation that the call was made in, and another conversation has taken over.  Until then the
records of the session have to be such that a rotation can go on, or the session can fail.
-/

namespace AgenticLocalApp

open Prog

/-- A rotation has closed the conversation, and another one has taken over. -/
structure TurnedOver (σ : Store) (cid : String) : Prop where
  closed : ∃ p, σ.getConversation cid = some p ∧ p.status = .closed
  child : ∃ d, σ.getConversation d.conversationId = some d ∧ d.parentConversationId = some cid

/-- Since `before`, every decision to rotate on a call of the session has been followed by a
rotation of the conversation of the call, unless this is one of `but`. -/
def Turned (before : Store) (sid : String) (but : String → Prop) (σ : Store) : Prop :=
  ∀ d ∈ σ.decisionsOf sid, d.decisionId ∉ before.ids .decision →
    d.decision = StrEnum.value DecisionKind.rotate →
    ∃ cid, d.conversationId = some cid ∧ (but cid ∨ TurnedOver σ cid ∧ ¬TurnedOver before cid)

/-- No conversation is left out. -/
abbrev TurnedAll (before : Store) (sid : String) (σ : Store) : Prop :=
  Turned before sid (fun _ => False) σ

section Turned

variable {before σ σ' : Store} {sid cid : String} {but but' : String → Prop}

theorem TurnedOver.saveConversation (h : TurnedOver σ cid) {c c' : ConversationRecord}
    (hc : σ.getConversation c'.conversationId = some c) (hopen : c.status ≠ .closed)
    (hlink : c'.parentConversationId = c.parentConversationId) :
    TurnedOver (σ.saveConversation c') cid := by
  obtain ⟨p, hp, hclosed⟩ := h.closed
  obtain ⟨d, hd, hparent⟩ := h.child
  refine ⟨⟨p, (Table.find_save_of_ne fun he => hopen ?_).trans hp, hclosed⟩, ?_⟩
  · obtain rfl := Option.some.inj (hc.symm.trans ((congrArg σ.getConversation he).trans hp))
    exact hclosed
  · by_cases he : c'.conversationId = d.conversationId
    · obtain rfl := Option.some.inj (hc.symm.trans ((congrArg σ.getConversation he).trans hd))
      exact ⟨c', Table.find_save_self _ _, hlink.trans hparent⟩
    · exact ⟨d, (Table.find_save_of_ne he).trans hd, hparent⟩

theorem TurnedOver.congr (h : TurnedOver σ cid) (hsame : σ'.conversations = σ.conversations) :
    TurnedOver σ' cid where
  closed := by
    obtain ⟨p, hp, hclosed⟩ := h.closed
    exact ⟨p, (congrArg (fun t => Table.find t cid) hsame).trans hp, hclosed⟩
  child := by
    obtain ⟨d, hd, hparent⟩ := h.child
    exact ⟨d, (congrArg (fun t => Table.find t d.conversationId) hsame).trans hd, hparent⟩

theorem Turned.mono (h : Turned before sid but σ) (hsame : σ'.retryDecisions = σ.retryDecisions)
    (hover : ∀ cid, TurnedOver σ cid → TurnedOver σ' cid)
    (hbut : ∀ cid, but cid → but' cid ∨ TurnedOver σ' cid ∧ ¬TurnedOver before cid) :
    Turned before sid but' σ' := by
  intro d hd hnew hrotate
  rw [Store.decisionsOf, hsame] at hd
  obtain ⟨cid, hcid, hdone⟩ := h d hd hnew hrotate
  exact ⟨cid, hcid, hdone.elim (hbut cid) fun hdone => .inr ⟨hover cid hdone.1, hdone.2⟩⟩

/-- A write that is not one of conversations or decisions. -/
theorem Turned.congr (h : Turned before sid but σ)
    (hdecisions : σ'.retryDecisions = σ.retryDecisions)
    (hconversations : σ'.conversations = σ.conversations) : Turned before sid but σ' :=
  h.mono hdecisions (fun _ hover => hover.congr hconversations) fun _ => .inl

theorem Turned.saveConversation (h : Turned before sid but σ) {c c' : ConversationRecord}
    (hc : σ.getConversation c'.conversationId = some c) (hopen : c.status ≠ .closed)
    (hlink : c'.parentConversationId = c.parentConversationId) :
    Turned before sid but (σ.saveConversation c') :=
  h.mono rfl (fun _ hover => hover.saveConversation hc hopen hlink) fun _ => .inl

/-- A decision is recorded: to rotate, it obliges for its conversation. -/
theorem Turned.saveRetryDecision (h : Turned before sid but σ) {d : RetryDecisionRecord}
    (hd : d.decision = StrEnum.value DecisionKind.rotate →
      ∃ cid, d.conversationId = some cid ∧ but cid) :
    Turned before sid but (σ.saveRetryDecision d) := by
  intro d' hd' hnew hrotate
  obtain ⟨hd', hsid⟩ := List.mem_filter.1 hd'
  rcases Table.mem_save.1 hd' with rfl | ⟨hd', -⟩
  · obtain ⟨cid, hcid, hbut⟩ := hd hrotate
    exact ⟨cid, hcid, .inl hbut⟩
  · obtain ⟨cid, hcid, hdone⟩ := h d' (List.mem_filter.2 ⟨hd', hsid⟩) hnew hrotate
    exact ⟨cid, hcid, hdone.imp_right fun hover => ⟨hover.1.congr rfl, hover.2⟩⟩

end Turned

/-! ## The records of a session that runs -/

/-- The session runs in the conversation `cid`, and its records are in order. -/
structure Standing (before : Store) (sid cid : String) (but : String → Prop) (σ : Store) :
    Prop where
  session : ∃ s, σ.getSession sid = some s ∧ s.status = .running
  current : ∃ c, σ.getConversation cid = some c ∧ c.sessionId = sid ∧ c.status ≠ .closed
  /-- No conversation took over from itself. -/
  parents : ∀ c, σ.getConversation c.conversationId = some c →
    c.parentConversationId ≠ some c.conversationId
  messages : σ.MessagesHaveConversations
  /-- The current conversation had not been rotated before the run, and none is forgotten in it. -/
  unturned : ¬TurnedOver before cid
  grown : ∀ x ∈ before.ids .conversation, x ∈ σ.ids .conversation
  turned : Turned before sid but σ

namespace Standing

variable {before σ σ' : Store} {sid cid : String} {but but' : String → Prop}

theorem ids_saveConversation {c : ConversationRecord} {x : String} (hx : x ∈ σ.ids .conversation) :
    x ∈ (σ.saveConversation c).ids .conversation := by
  obtain ⟨d, hd, rfl⟩ := List.mem_map.1 hx
  by_cases he : c.conversationId = d.conversationId
  · exact List.mem_map.2 ⟨c, Table.mem_save.2 (.inl rfl), he⟩
  · exact List.mem_map_of_mem (Table.mem_of_find ((Table.find_save_of_ne he).trans
      (Table.find_of_mem hd)))

/-- A write of a record that the run does not lean on. -/
theorem apart (h : Standing before sid cid but σ) (hapart : Apart σ σ') :
    Standing before sid cid but σ' where
  session := by
    obtain ⟨s, hs, hrunning⟩ := h.session
    exact ⟨s, (congrArg (fun t => Table.find t sid) hapart.sessions).trans hs, hrunning⟩
  current := by
    obtain ⟨c, hc, howner, hopen⟩ := h.current
    exact ⟨c, (congrArg (fun t => Table.find t cid) hapart.conversations).trans hc, howner, hopen⟩
  parents c hc := by
    refine h.parents c ?_
    rwa [Store.getConversation, hapart.conversations] at hc
  messages m hm := by
    rw [hapart.messages] at hm
    have hknown := h.messages m hm
    rwa [show σ'.ids .conversation = σ.ids .conversation from
      congrArg (fun t => t.rows.map ConversationRecord.conversationId) hapart.conversations]
  unturned := h.unturned
  grown x hx := by
    rw [show σ'.ids .conversation = σ.ids .conversation from
      congrArg (fun t => t.rows.map ConversationRecord.conversationId) hapart.conversations]
    exact h.grown x hx
  turned := h.turned.congr hapart.retryDecisions hapart.conversations

theorem saveSession (h : Standing before sid cid but σ) {s : SessionRecord}
    (hid : s.sessionId = sid) (hrunning : s.status = .running) :
    Standing before sid cid but (σ.saveSession s) where
  session := ⟨s, hid ▸ Table.find_save_self _ _, hrunning⟩
  current := h.current
  parents := h.parents
  messages := h.messages
  unturned := h.unturned
  grown := h.grown
  turned := h.turned.congr rfl rfl

/-- A record of the current conversation, which does not close it. -/
theorem saveConversation (h : Standing before sid cid but σ) {c c' : ConversationRecord}
    (hc : σ.getConversation cid = some c) (hid : c'.conversationId = cid)
    (howner : c'.sessionId = c.sessionId) (hlink : c'.parentConversationId = c.parentConversationId)
    (hopen : c'.status ≠ .closed) : Standing before sid cid but (σ.saveConversation c') := by
  obtain ⟨c₀, hc₀, howner₀, hopen₀⟩ := h.current
  obtain rfl := Option.some.inj (hc₀.symm.trans hc)
  have hkey : c₀.conversationId = cid := Table.key_of_find hc
  exact
    { session := h.session
      current := ⟨c', hid ▸ Table.find_save_self _ _, howner.trans howner₀, hopen⟩
      parents := fun d hd => by
        rcases Table.mem_save.1 (Table.mem_of_find hd) with rfl | ⟨hd, -⟩
        · rw [hlink, hid, ← hkey]
          exact h.parents c₀ (hkey ▸ hc)
        · exact h.parents d (Table.find_of_mem hd)
      messages := h.messages.saveConversation c'
      unturned := h.unturned
      grown := fun x hx => ids_saveConversation (h.grown x hx)
      turned := h.turned.saveConversation (hid ▸ hc) hopen₀ hlink }

theorem saveMessage (h : Standing before sid cid but σ) {m : MessageRecord}
    (hm : m.conversationId = cid) : Standing before sid cid but (σ.saveMessage m) := by
  obtain ⟨c, hc, -⟩ := h.current
  have hkey : c.conversationId = cid := Table.key_of_find hc
  exact
    { session := h.session
      current := h.current
      parents := h.parents
      messages := h.messages.saveMessage (hm ▸ hkey ▸ List.mem_map_of_mem (Table.mem_of_find hc))
      unturned := h.unturned
      grown := h.grown
      turned := h.turned.congr rfl rfl }

theorem saveRetryDecision (h : Standing before sid cid but σ) {d : RetryDecisionRecord}
    (hd : d.decision = StrEnum.value DecisionKind.rotate →
      ∃ cid, d.conversationId = some cid ∧ but cid) :
    Standing before sid cid but (σ.saveRetryDecision d) where
  session := h.session
  current := h.current
  parents := h.parents
  messages := h.messages
  unturned := h.unturned
  grown := h.grown
  turned := h.turned.saveRetryDecision hd

end Standing

/-! ## Rotations -/

section Rotations

variable {before σ₀ σ : Store} {sid cid : String} {but : String → Prop} {st : Stage}
  {s : SessionRecord} {c : ConversationRecord} {pending : RotationRequest} {row : TableRow}

namespace Stage.At

/-- A conversation that was there, and is not the one that rotates, is there as it was. -/
theorem other (h : st.At σ₀ s c pending row σ) {d : ConversationRecord}
    (hd : σ₀.getConversation d.conversationId = some d)
    (hne : d.conversationId ≠ c.conversationId) :
    σ.getConversation d.conversationId = some d := by
  refine (h.shown.others _ (h.said.source ▸ hne) fun child hchild he => ?_).trans hd
  exact h.shown.fresh child hchild (he ▸ List.mem_map_of_mem (Table.mem_of_find hd))

/-- No conversation is forgotten. -/
theorem known (h : st.At σ₀ s c pending row σ) {x : String} (hx : x ∈ σ₀.ids .conversation) :
    x ∈ σ.ids .conversation := by
  obtain ⟨d, hd, rfl⟩ := List.mem_map.1 hx
  by_cases he : d.conversationId = c.conversationId
  · rw [he, ← h.said.source]
    exact List.mem_map_of_mem (Table.mem_of_find h.shown.parent)
  · exact List.mem_map_of_mem (Table.mem_of_find (h.other (Table.find_of_mem hd) he))

/-- What has been turned over stays so. -/
theorem turnedOver (h : st.At σ₀ s c pending row σ)
    (hc : σ₀.getConversation c.conversationId = some c) (hopen : c.status ≠ .closed) {x : String}
    (hx : TurnedOver σ₀ x) : TurnedOver σ x := by
  obtain ⟨p, hp, hclosed⟩ := hx.closed
  obtain ⟨d, hd, hparent⟩ := hx.child
  have hkey : p.conversationId = x := Table.key_of_find hp
  refine ⟨⟨p, hkey ▸ h.other (hkey ▸ hp) fun he => hopen ?_, hclosed⟩, ?_⟩
  · obtain rfl := Option.some.inj (hc.symm.trans (he ▸ hkey ▸ hp))
    exact hclosed
  · by_cases he : d.conversationId = c.conversationId
    · obtain rfl := Option.some.inj (hc.symm.trans (he ▸ hd))
      exact ⟨st.parent, h.shown.parent, h.said.link.trans hparent⟩
    · exact ⟨d, h.other hd he, hparent⟩

theorem turned (h : st.At σ₀ s c pending row σ) (hc : σ₀.getConversation c.conversationId = some c)
    (hopen : c.status ≠ .closed) (ht : Turned before sid but σ₀) : Turned before sid but σ :=
  ht.mono h.shown.decisions (fun _ hx => h.turnedOver hc hopen hx) fun _ => .inl

/-- No conversation takes over from itself. -/
theorem parents (h : st.At σ₀ s c pending row σ) (hc : σ₀.getConversation c.conversationId = some c)
    (hσ₀ : ∀ d, σ₀.getConversation d.conversationId = some d →
      d.parentConversationId ≠ some d.conversationId) :
    ∀ d, σ.getConversation d.conversationId = some d →
      d.parentConversationId ≠ some d.conversationId := by
  intro d hd
  by_cases hparent : d.conversationId = st.parent.conversationId
  · obtain rfl := Option.some.inj (hd.symm.trans (hparent ▸ h.shown.parent))
    rw [h.said.link, h.said.source]
    exact hσ₀ c hc
  by_cases hchild : ∃ child, st.child = some child ∧ d.conversationId = child.conversationId
  · obtain ⟨child, hst, he⟩ := hchild
    obtain ⟨hfind, hne, -⟩ := h.shown.child child hst
    obtain rfl := Option.some.inj (hd.symm.trans (he ▸ hfind))
    rw [(h.said.read d hst).2.2.1, ← h.said.source]
    exact fun hsame => hne (Option.some.inj hsame).symm
  · refine hσ₀ d ((h.shown.others _ hparent fun child hst he => ?_).symm.trans hd)
    exact hchild ⟨child, hst, he⟩

/-- At its end a rotation has kept what the decision obliges to. -/
theorem standing (h : st.At σ₀ s c pending row σ) (hst : Standing before sid cid but σ₀)
    (hs : σ₀.getSession sid = some s) (hc : σ₀.getConversation cid = some c)
    (hbut : ∀ x, but x → x = cid) (hclosed : row.parent = .closed) {child : ConversationRecord}
    (hchild : st.child = some child) (hopen : child.status ≠ .closed) :
    Standing before sid child.conversationId (fun _ => False) σ := by
  obtain ⟨s₀, hs₀, hrunning⟩ := hst.session
  obtain rfl := Option.some.inj (hs.symm.trans hs₀)
  obtain ⟨c₀, hc₀, -, hopen₀⟩ := hst.current
  obtain rfl := Option.some.inj (hc.symm.trans hc₀)
  have hkey : c.conversationId = cid := Table.key_of_find hc
  have hsid : s.sessionId = sid := Table.key_of_find hs
  obtain ⟨hfind, -, howner⟩ := h.shown.child child hchild
  have hover : TurnedOver σ cid :=
    ⟨⟨st.parent, hkey ▸ h.said.source ▸ h.shown.parent, h.said.parent.trans hclosed⟩,
      ⟨child, hfind, hkey ▸ (h.said.read child hchild).2.2.1⟩⟩
  have hnew : ¬TurnedOver before child.conversationId := by
    rintro ⟨⟨p, hp, -⟩, -⟩
    have hkey' : p.conversationId = child.conversationId := Table.key_of_find hp
    exact h.shown.fresh child hchild
      (hst.grown _ (hkey' ▸ List.mem_map_of_mem (Table.mem_of_find hp)))
  exact
    { session := ⟨st.session, hsid ▸ h.said.session ▸ h.shown.session, h.said.state.trans hrunning⟩
      current := ⟨child, hfind, howner.trans (h.said.session.trans hsid), hopen⟩
      parents := h.parents (hkey ▸ hc) hst.parents
      messages := h.shown.owned
      unturned := hnew
      grown := fun x hx => h.known (hst.grown x hx)
      turned := hst.turned.mono h.shown.decisions
        (fun _ hx => h.turnedOver (hkey ▸ hc) hopen₀ hx) fun x hx =>
          .inr (hbut x hx ▸ ⟨hover, hst.unturned⟩) }

end Stage.At

end Rotations

end AgenticLocalApp
