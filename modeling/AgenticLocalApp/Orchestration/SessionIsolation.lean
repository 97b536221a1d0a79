import AgenticLocalApp.Orchestration.LoopRules

/-!
# What one session writes and another reads

A message of the model is stored under the identifier that the model gave it.  The adapter checks
it against the messages of the session; the store keeps the messages of all sessions under their
identifiers alone.  The records of another session stay as they are exactly when it has no message
of that identifier.
-/

namespace AgenticLocalApp

open Prog

/-- The messages of a session: those of its conversations. -/
def Store.messagesOf (σ : Store) (sid : String) : List MessageRecord :=
  (σ.listConversations sid).flatMap fun c => σ.listMessages c.conversationId

def Store.cyclesOf (σ : Store) (sid : String) : List CycleRecord :=
  σ.cycles.rows.filter fun c => c.sessionId = sid

def Store.tasksOf (σ : Store) (sid : String) : List TaskRecord :=
  σ.tasks.rows.filter fun t => t.sessionId = sid

/-- The records of a session read the same, its messages apart. -/
structure SameRecords (σ σ' : Store) (sid : String) : Prop where
  session : σ'.getSession sid = σ.getSession sid
  conversations : σ'.listConversations sid = σ.listConversations sid
  cycles : σ'.cyclesOf sid = σ.cyclesOf sid
  plans : σ'.listPlans sid = σ.listPlans sid
  tasks : σ'.tasksOf sid = σ.tasksOf sid

/-- What the session `sid` wrote beside messages: records of its own, in conversations it had. -/
structure OwnWrites (sid : String) (σ σ' : Store) : Prop where
  others : ∀ s, s ≠ sid → SameRecords σ σ' s
  own : ∀ cid, (∃ c ∈ σ.listConversations sid, c.conversationId = cid) →
    ∃ c ∈ σ'.listConversations sid, c.conversationId = cid

theorem OwnWrites.refl (sid : String) (σ : Store) : OwnWrites sid σ σ :=
  ⟨fun _ _ => ⟨rfl, rfl, rfl, rfl, rfl⟩, fun _ h => h⟩

theorem OwnWrites.trans {sid : String} {σ σ' σ'' : Store} (h : OwnWrites sid σ σ')
    (h' : OwnWrites sid σ' σ'') : OwnWrites sid σ σ'' :=
  ⟨fun s hs =>
    ⟨(h'.others s hs).session.trans (h.others s hs).session,
      (h'.others s hs).conversations.trans (h.others s hs).conversations,
      (h'.others s hs).cycles.trans (h.others s hs).cycles,
      (h'.others s hs).plans.trans (h.others s hs).plans,
      (h'.others s hs).tasks.trans (h.others s hs).tasks⟩,
    fun cid hc => h'.own cid (h.own cid hc)⟩

section Writes

variable {sid : String} {σ : Store}

theorem ownWrites_saveMessage (r : MessageRecord) : OwnWrites sid σ (σ.saveMessage r) :=
  ⟨fun _ _ => ⟨rfl, rfl, rfl, rfl, rfl⟩, fun _ h => h⟩

theorem ownWrites_saveSession {r : SessionRecord} (hr : r.sessionId = sid) :
    OwnWrites sid σ (σ.saveSession r) :=
  ⟨fun _ hs => ⟨Table.find_save_of_ne (fun e => hs (e.symm.trans hr)), rfl, rfl, rfl, rfl⟩,
    fun _ h => h⟩

theorem ownWrites_saveConversation {c r : ConversationRecord}
    (hc : σ.getConversation r.conversationId = some c) (hcs : c.sessionId = sid)
    (hr : r.sessionId = sid) : OwnWrites sid σ (σ.saveConversation r) where
  others s hs := by
    refine ⟨rfl, ?_, rfl, rfl, rfl⟩
    refine Table.filter_save_congr (x := c) hc ?_ ?_
    · exact decide_eq_false fun e => hs (e.symm.trans hcs)
    · exact decide_eq_false fun e => hs (e.symm.trans hr)
  own cid := by
    rintro ⟨d, hd, rfl⟩
    obtain ⟨hd, hds⟩ := Store.mem_listConversations.1 hd
    by_cases he : d.conversationId = r.conversationId
    · exact ⟨r, Store.mem_listConversations.2 ⟨Table.mem_save.2 (.inl rfl), hr⟩, he.symm⟩
    · exact ⟨d, Store.mem_listConversations.2 ⟨Table.mem_save.2 (.inr ⟨hd, he⟩), hds⟩, rfl⟩

theorem ownWrites_saveCycle {r : CycleRecord} (hr : r.sessionId = sid)
    (hc : ∀ c ∈ σ.cycles.rows, c.cycleId = r.cycleId → c.sessionId = sid) :
    OwnWrites sid σ (σ.saveCycle r) :=
  ⟨fun _ hs => ⟨rfl, rfl, Table.filter_save_of_not (decide_eq_false fun e => hs (e.symm.trans hr))
      fun x hx hk => decide_eq_false fun e => hs (e.symm.trans (hc x hx hk)), rfl, rfl⟩,
    fun _ h => h⟩

theorem ownWrites_savePlan {r : PlanRecord} (hr : r.sessionId = sid) :
    OwnWrites sid σ (σ.savePlan r) :=
  ⟨fun _ hs => ⟨rfl, rfl, rfl, Table.filter_save_of_not (decide_eq_false fun e => hs (e.symm.trans hr))
      fun _ _ hk => decide_eq_false fun e => hs (e.symm.trans ((Prod.mk.inj hk).1.trans hr)), rfl⟩,
    fun _ h => h⟩

theorem ownWrites_saveTasks {rs : List TaskRecord} (hr : ∀ r ∈ rs, r.sessionId = sid) :
    OwnWrites sid σ (σ.saveTasks rs) :=
  ⟨fun _ hs => ⟨rfl, rfl, rfl, rfl, Table.filter_saveAll_of_not
      (fun r hmem => decide_eq_false fun e => hs (e.symm.trans (hr r hmem)))
      fun r hmem _ hk =>
        decide_eq_false fun e => hs (e.symm.trans ((Prod.mk.inj hk).1.trans (hr r hmem)))⟩,
    fun _ h => h⟩

end Writes

/-! ## What the adapter accepts -/

theorem parseEnvelope_ok {adapter : ProtocolAdapter} {raw : Json} {expected : List MessageType}
    {conversation : ConversationRecord} {known : KnownIds} {envelope : Envelope}
    (h : adapter.parseEnvelope raw expected conversation known = .ok envelope) :
    envelope.messageId ∉ known.messageIds := by
  unfold ProtocolAdapter.parseEnvelope at h
  split at h
  · cases h
  · rename_i read _
    split at h
    · cases h
    split at h
    · cases h
    rename_i hfresh
    split at h
    · cases h
    split at h
    · cases h
    cases h
    exact hfresh

theorem parseContent_messageId {adapter : ProtocolAdapter} {raw : Json} {envelope : Envelope}
    {known : KnownIds} {original : Option String} {inbound : InboundMessage}
    (h : adapter.parseContent raw envelope known original = .ok inbound) :
    inbound.messageId = envelope.messageId := by
  unfold ProtocolAdapter.parseContent at h
  split at h
  · obtain ⟨plan, _, h⟩ := bind_eq_ok.1 h
    obtain ⟨warnings, _, h⟩ := bind_eq_ok.1 h
    cases h
    rfl
  · split at h
    · obtain ⟨_, _, h⟩ := bind_eq_ok.1 h
      cases h
      rfl
    · obtain ⟨_, _, h⟩ := bind_eq_ok.1 h
      obtain ⟨_, _, h⟩ := bind_eq_ok.1 h
      cases h
      rfl
    · obtain ⟨_, _, h⟩ := bind_eq_ok.1 h
      obtain ⟨_, _, h⟩ := bind_eq_ok.1 h
      cases h
      rfl

/-- What is accepted is new to its session. -/
theorem parseInbound_fresh {adapter : ProtocolAdapter} {messages : List Json}
    {expected : List MessageType} {conversation : ConversationRecord} {known : KnownIds}
    {original : Option String} {inbound : InboundMessage}
    (h : adapter.parseInbound messages expected conversation known original = .ok inbound) :
    inbound.messageId ∉ known.messageIds := by
  unfold ProtocolAdapter.parseInbound at h
  split at h
  · cases h
  · obtain ⟨envelope, he, h⟩ := bind_eq_ok.1 h
    rw [parseContent_messageId h]
    exact parseEnvelope_ok he
  · cases h

/-! ## The writes of a reply -/

/-- What was written of the message `messageId`: its record in the conversation `cid`, and records
of its session. -/
structure Persisted (sid cid messageId : String) (σ σ' : Store) : Prop where
  own : OwnWrites sid σ σ'
  message : ∃ r : MessageRecord, r.messageId = messageId ∧ r.conversationId = cid ∧
    σ'.messages = σ.messages.save r

theorem Persisted.trans {sid cid messageId : String} {σ σ' σ'' : Store}
    (h : Persisted sid cid messageId σ σ') (h' : OwnWrites sid σ' σ'')
    (hm : σ''.messages = σ'.messages) : Persisted sid cid messageId σ σ'' where
  own := h.own.trans h'
  message := by
    obtain ⟨r, hid, hcid, hr⟩ := h.message
    exact ⟨r, hid, hcid, hm.trans hr⟩

/-- The records of every other session read as they did, and the session lists the messages it had
and the one that it persisted. -/
structure KeepsApart (sid messageId : String) (σ σ' : Store) : Prop where
  others : ∀ s, s ≠ sid → SameRecords σ σ' s ∧ σ'.messagesOf s = σ.messagesOf s
  listed : ∀ m ∈ σ.messagesOf sid, m ∈ σ'.messagesOf sid
  message : ∃ m ∈ σ'.messagesOf sid, m.messageId = messageId

theorem Store.mem_messagesOf {σ : Store} {sid : String} {m : MessageRecord} :
    m ∈ σ.messagesOf sid ↔
      m ∈ σ.messages.rows ∧ ∃ c ∈ σ.listConversations sid, c.conversationId = m.conversationId := by
  simp only [Store.messagesOf, List.mem_flatMap, Store.mem_listMessages]
  constructor
  · rintro ⟨c, hc, hm, he⟩
    exact ⟨hm, c, hc, he.symm⟩
  · rintro ⟨hm, c, hc, he⟩
    exact ⟨c, hc, hm, he.symm⟩

theorem Store.mem_knownIds {σ : Store} {sid id : String} :
    id ∈ (σ.knownIds sid).messageIds ↔ ∃ m ∈ σ.messagesOf sid, m.messageId = id := by
  simp only [Store.knownIds, Store.messagesOf, List.mem_flatMap, List.mem_map]
  constructor
  · rintro ⟨c, hc, m, hm, he⟩
    exact ⟨m, ⟨c, hc, hm⟩, he⟩
  · rintro ⟨m, ⟨c, hc, hm⟩, he⟩
    exact ⟨c, hc, m, hm, he⟩

/-- A message that is new to its session leaves the others alone when it is new to them too. -/
theorem Persisted.keepsApart_iff {sid cid messageId : String} {σ σ' : Store}
    (h : Persisted sid cid messageId σ σ')
    (hcid : ∃ c ∈ σ.listConversations sid, c.conversationId = cid)
    (hnew : messageId ∉ (σ.knownIds sid).messageIds) :
    KeepsApart sid messageId σ σ' ↔ ∀ s, s ≠ sid → messageId ∉ (σ.knownIds s).messageIds := by
  obtain ⟨r, rfl, rfl, hr⟩ := h.message
  obtain ⟨c, hc, hcr⟩ := hcid
  obtain ⟨hcm, hcs⟩ := Store.mem_listConversations.1 hc
  have hapart : ∀ s, s ≠ sid → ∀ d ∈ σ.listConversations s, d.conversationId ≠ r.conversationId := by
    intro s hs d hd he
    obtain ⟨hdm, hds⟩ := Store.mem_listConversations.1 hd
    obtain rfl := Table.key_inj hdm hcm (he.trans hcr.symm)
    exact hs (hds.symm.trans hcs)
  constructor
  · intro hk s hs hknown
    obtain ⟨m, hm, hid⟩ := Store.mem_knownIds.1 hknown
    rw [← (hk.others s hs).2] at hm
    obtain ⟨hm, d, hd, hdm⟩ := Store.mem_messagesOf.1 hm
    rw [(h.own.others s hs).conversations] at hd
    rw [hr] at hm
    rcases Table.mem_save.1 hm with rfl | ⟨_, hne⟩
    · exact hapart s hs d hd hdm
    · exact hne hid
  · intro hother
    refine ⟨fun s hs => ⟨h.own.others s hs, ?_⟩, fun m hm => ?_, r, ?_, rfl⟩
    · rw [Store.messagesOf, (h.own.others s hs).conversations, Store.messagesOf]
      refine List.flatMap_congr fun d hd => ?_
      rw [Store.listMessages, hr]
      refine Table.filter_save_of_not (decide_eq_false fun e => hapart s hs d hd e.symm) ?_
      intro m hm hid
      refine decide_eq_false fun e => hother s hs (Store.mem_knownIds.2 ⟨m, ?_, hid⟩)
      exact Store.mem_messagesOf.2 ⟨hm, d, hd, e.symm⟩
    · have hne : m.messageId ≠ r.messageId := fun e => hnew (Store.mem_knownIds.2 ⟨m, hm, e⟩)
      obtain ⟨hmr, d, hd, he⟩ := Store.mem_messagesOf.1 hm
      refine Store.mem_messagesOf.2 ⟨?_, h.own.own _ ⟨d, hd, he⟩⟩
      rw [hr]
      exact Table.mem_save.2 (.inr ⟨hmr, hne⟩)
    · refine Store.mem_messagesOf.2 ⟨?_, h.own.own _ ⟨c, hc, hcr⟩⟩
      rw [hr]
      exact Table.mem_save.2 (.inl rfl)

namespace SessionRun

/-- What is written of a reply before its plan runs, or before the turn is concluded. -/
def persistReply (o : ProtocolOrchestrator) (reply : GetResult) : Prog Loop Unit := do
  match ← judge o reply with
  | .inl inbound =>
    if inbound.plan.isSome then
      let _ ← receivePlan o inbound
  | .inr _ => return

/-- The run is in the conversation `conv` of its session, and the cycle that it works in is its
own. -/
structure InConversation (σ : Store) (run : SessionRun) (conv : ConversationRecord) : Prop where
  memory : ∃ c₀, run.conv = some c₀ ∧ σ.getConversation c₀.conversationId = some conv
  own : conv.sessionId = run.sid
  session : ∃ s, σ.getSession run.sid = some s
  cycle : ∀ cycle, run.cycle = some cycle → cycle.sessionId = run.sid ∧
    ∀ c ∈ σ.cycles.rows, c.cycleId = cycle.cycleId → c.sessionId = run.sid

/-- The adapter accepts the reply in the session of the run, as `inbound`. -/
def Accepts (o : ProtocolOrchestrator) (σ : Store) (run : SessionRun) (conv : ConversationRecord)
    (reply : GetResult) (inbound : InboundMessage) : Prop :=
  ∃ outbound expected messages, run.lastOutbound = some outbound ∧
    o.adapter.expectedInbound (some outbound) conv = .ok expected ∧
    RawJson.measured reply.messages = .ok messages ∧
    o.adapter.parseInbound messages expected conv (σ.knownIds run.sid) = .ok inbound

variable {o : ProtocolOrchestrator} {run : SessionRun} {w : World} {conv : ConversationRecord}
  {reply : GetResult} {inbound : InboundMessage}

theorem judge_accepts (hin : InConversation w.store run conv)
    (h : Accepts o w.store run conv reply inbound) :
    wp (unwatched.withLocal SessionRun) (judge o reply) (after (fun r s => r = .inl inbound ∧
      Persisted run.sid conv.conversationId inbound.messageId w.store s.1.store ∧
      s.2.sid = run.sid ∧ ∃ c, InConversation s.1.store s.2 c) fun _ _ => False) (w, run) := by
  obtain ⟨outbound, expected, messages, hout, hexp, hmeas, hparse⟩ := h
  obtain ⟨c₀, hrun, hc⟩ := hin.memory
  have hc' : w.store.getConversation conv.conversationId = some conv :=
    Table.find_of_mem (Table.mem_of_find hc)
  have hwritten : ∀ receivedAt received, received.conversationId = conv.conversationId →
      received.sessionId = conv.sessionId → Persisted run.sid conv.conversationId inbound.messageId
        w.store ((w.store.saveMessage (acceptedRecord inbound run.sid conv.conversationId
          run.cycleId receivedAt)).saveConversation received) := fun receivedAt received hid hsid =>
    ⟨(ownWrites_saveMessage _).trans
      (ownWrites_saveConversation (hid ▸ hc') hin.own (hsid.trans hin.own)), _, rfl, rfl, rfl⟩
  refine wp_judge_accepts hrun hc hout hexp hmeas hparse ?_ ?_
  · intro receivedAt received hid hsid
    exact ⟨rfl, hwritten receivedAt received hid hsid, rfl, received,
      ⟨received, rfl, Table.find_save_self _ _⟩, hsid.trans hin.own, hin.session, hin.cycle⟩
  · intro receivedAt received moved hid hsid hid' hsid'
    let record := acceptedRecord inbound run.sid conv.conversationId run.cycleId receivedAt
    let σ₁ := (w.store.saveMessage record).saveConversation received
    have hfind : σ₁.getConversation moved.conversationId = some received :=
      hid'.trans hid.symm ▸ Table.find_save_self (w.store.saveMessage record).conversations received
    have hmoved := ownWrites_saveConversation hfind (hsid.trans hin.own) (hsid'.trans hin.own)
    exact ⟨rfl, (hwritten receivedAt received hid hsid).trans hmoved rfl, rfl, moved,
      ⟨moved, rfl, Table.find_save_self _ _⟩, hsid'.trans hin.own, hin.session, hin.cycle⟩

theorem receivePlan_own (hin : InConversation w.store run conv) :
    wp (unwatched.withLocal SessionRun) (receivePlan o inbound) (fun _ s =>
      OwnWrites run.sid w.store s.1.store ∧ s.1.store.messages = w.store.messages) (w, run) := by
  obtain ⟨session, hs⟩ := hin.session
  obtain ⟨c₀, hrun, hc⟩ := hin.memory
  have hsid : session.sessionId = run.sid := (Table.find_eq_some_iff.1 hs).2
  have hid : conv.conversationId = c₀.conversationId := (Table.find_eq_some_iff.1 hc).2
  rw [← hid] at hc
  have hQ : Quiet unwatched := quiet_during _
  unfold receivePlan
  rw [wp_bind]
  refine wp_session hs ?_
  rw [after_ok, wp_bind]
  refine wp_conversation unwatched_refl hrun (hid ▸ hc) ?_
  rw [after_ok, wp_bind]
  obtain hcycle | ⟨cycle, hcycle⟩ := run.cycle.eq_none_or_eq_some
  · unfold requireCycle
    rw [wp_bind]
    refine wp_run_get ?_
    rw [after_ok]
    simp only [hcycle]
    exact ⟨.refl _ _, rfl⟩
  · refine wp_requireCycle hcycle ?_
    rw [after_ok, wp_bind]
    unfold planRecords
    cases inbound.plan with
    | none => exact ⟨.refl _ _, rfl⟩
    | some plan =>
      refine wp_lift_app ?_
      rw [wp_bind]
      refine wp_now hQ fun createdAt => ?_
      rw [after_ok, wp_pure, after_ok, wp_bind]
      refine wp_run_get ?_
      rw [after_ok, wp_bind]
      refine wp_lift_app (wp_requireSession hs ?_)
      rw [after_ok, wp_bind]
      refine wp_lift_app (wp_requireConversation hc ?_)
      rw [after_ok, wp_bind]
      refine wp_lift_app (wp_now hQ fun updatedAt => ?_)
      rw [after_ok, wp_bind]
      refine wp_lift_app ?_
      rw [wp_writeStore]
      refine ⟨trivial, ?_⟩
      rw [after_ok, wp_bind]
      refine wp_run_modify unwatched_refl ?_
      have hown := hin.cycle cycle hcycle
      refine ⟨?_, rfl⟩
      refine (ownWrites_savePlan (σ := w.store) ?_).trans <| (ownWrites_saveTasks ?_).trans <|
        (ownWrites_saveSession ?_).trans <| (ownWrites_saveCycle ?_ ?_).trans
          (ownWrites_saveConversation (c := conv) hc hin.own hin.own)
      · exact hsid
      · intro r hr
        obtain ⟨t, _, rfl⟩ := List.mem_map.1 hr
        exact hsid
      · exact hsid
      · exact hown.1
      · exact hown.2

theorem persistReply_persisted (hin : InConversation w.store run conv)
    (h : Accepts o w.store run conv reply inbound) :
    wp unwatched ((persistReply o reply).hide run) (fun _ w' =>
      Persisted run.sid conv.conversationId inbound.messageId w.store w'.store) w := by
  refine wp_hide (unwatched.withLocal_covers SessionRun) ?_
  unfold persistReply
  rw [wp_bind]
  refine wp_mono (judge_accepts hin h) ?_
  rintro (e | r) ⟨w₁, run₁⟩ hr
  · exact hr.elim
  obtain ⟨rfl, hwritten, hsid, c, hin₁⟩ := hr
  rw [after_ok]
  dsimp only
  rw [wp_ite]
  refine ⟨fun _ => ?_, fun _ => hwritten⟩
  rw [wp_bind]
  refine wp_mono (receivePlan_own hin₁) ?_
  rintro (e | _) s ⟨hown, hm⟩ <;> exact hwritten.trans (hsid ▸ hown) hm

theorem accepted_keepsApart_iff {σ : Store} (hin : InConversation w.store run conv)
    (h : Accepts o w.store run conv reply inbound)
    (hwritten : Persisted run.sid conv.conversationId inbound.messageId w.store σ) :
    KeepsApart run.sid inbound.messageId w.store σ ↔
      ∀ sid, sid ≠ run.sid → inbound.messageId ∉ (w.store.knownIds sid).messageIds := by
  obtain ⟨c₀, _, hc⟩ := hin.memory
  obtain ⟨_, _, _, _, _, _, hparse⟩ := h
  exact hwritten.keepsApart_iff
    ⟨conv, Store.mem_listConversations.2 ⟨Table.mem_of_find hc, hin.own⟩, rfl⟩
    (parseInbound_fresh hparse)

theorem persistReply_ends (hin : InConversation w.store run conv)
    (h : Accepts o w.store run conv reply inbound) :
    ∃ r w', Reaches alone ((persistReply o reply).hide run, w) (.ret r, w') ∧
      Persisted run.sid conv.conversationId inbound.messageId w.store w'.store :=
  exists_end (C := unwatched) (fun op w _ => ⟨op.answer w.store, w, rfl, op.answers_answer w.store⟩)
    (fun _ => id) (persistReply_persisted hin h)

/-- Persisting a reply that the adapter accepts leaves the records of other sessions alone exactly
when none of them has a message of its identifier. -/
theorem reply_keepsApart_iff (hin : InConversation w.store run conv)
    (h : Accepts o w.store run conv reply inbound) :
    (∀ r w', Reaches alone ((persistReply o reply).hide run, w) (.ret r, w') →
      KeepsApart run.sid inbound.messageId w.store w'.store) ↔
    ∀ sid, sid ≠ run.sid → inbound.messageId ∉ (w.store.knownIds sid).messageIds := by
  constructor
  · intro hkeeps
    obtain ⟨r, w', hend, hwritten⟩ := persistReply_ends hin h
    exact (accepted_keepsApart_iff hin h hwritten).1 (hkeeps r w' hend)
  · intro hother r w' hend
    have hwritten := wp_reaches (C := unwatched) (c := (_, w)) (persistReply_persisted hin h) hend
    exact (accepted_keepsApart_iff hin h hwritten).2 hother

/-! ### Two sessions whose models number their messages alike -/

/-- A conversation that waits for the reply to the message `mid`. -/
def talk (cid sid mid : String) : ConversationRecord :=
  { ConversationRecord.sample cid sid .waitingModelResponse with
    remoteConversationId := some cid, lastOutboundMessageId := some mid }

/-- Session `s` waits in `c`, and session `t` has the message `m` in `d`. -/
def twoSessions : World where
  store :=
    { sessions := .ofRows [.sample "s" .running (some "c"), .sample "t" .running (some "d")]
      conversations := .ofRows [talk "c" "s" "a", talk "d" "t" "b"]
      messages := .ofRows [.sample "a" "s" "c" .outbound .executionResult none,
        .sample "m" "t" "d" .inbound .userResponse none] }

def waitingRun : SessionRun where
  sid := "s"
  conv := some (talk "c" "s" "a")
  lastOutbound := some (.sample "a" "s" "c" .outbound .executionResult none)

/-- A direct answer in the conversation `c`. -/
def answerTo (messageId : String) : GetResult where
  messages := [.obj [(.ofString "type", .str (.ofString "user_response")),
    (.ofString "conversation_id", .str (.ofString "c")),
    (.ofString "message_id", .str (.ofString messageId)),
    (.ofString "content", .obj [(.ofString "body", .str (.ofString "done"))])]]
  cursor := some "1"

theorem twoSessions_waiting : InConversation twoSessions.store waitingRun (talk "c" "s" "a") where
  memory := ⟨_, rfl, rfl⟩
  own := rfl
  session := ⟨_, rfl⟩
  cycle _ h := by cases h

/-- The message of the reply. -/
def answerJson (messageId : String) : Json :=
  .obj [("type", .str "user_response"), ("conversation_id", .str "c"),
    ("message_id", .str messageId), ("content", .obj [("body", .str "done")])]

theorem answerTo_measured (messageId : String) :
    RawJson.measured (answerTo messageId).messages = .ok [answerJson messageId] := by
  simp [RawJson.measured, answerTo, answerJson, RawJson.encodeItems, RawJson.encodeFields,
    RawJson.encode]

theorem twoSessions_knownIds : (twoSessions.store.knownIds "s").messageIds = ["a"] := by decide

theorem answerTo_accepted (messageId : String) (h : messageId ≠ "a") :
    ∃ inbound, inbound.messageId = messageId ∧ Accepts .sample twoSessions.store waitingRun
      (talk "c" "s" "a") (answerTo messageId) inbound := by
  let envelope : Envelope := ⟨.userResponse, "c", messageId, .obj [("body", .str "done")]⟩
  have hread : ProtocolAdapter.sample.schemas.envelope (answerJson messageId) = .ok envelope := rfl
  have hnew : messageId ∉ (twoSessions.store.knownIds "s").messageIds := by
    simp [twoSessions_knownIds, h]
  let expected := expectedInboundFor .executionResult true
  have henv : ProtocolAdapter.sample.parseEnvelope (answerJson messageId) expected
      (talk "c" "s" "a") (twoSessions.store.knownIds "s") = .ok envelope := by
    unfold ProtocolAdapter.parseEnvelope
    rw [hread]
    simp only [envelope]
    rw [if_neg (by decide), if_neg hnew, if_neg (by decide), if_neg (by decide)]
  obtain ⟨inbound, hcontent⟩ : ∃ inbound, ProtocolAdapter.sample.parseContent (answerJson messageId)
      envelope (twoSessions.store.knownIds "s") none = .ok inbound := ⟨_, rfl⟩
  refine ⟨inbound, parseContent_messageId hcontent, _, expected, _, rfl, rfl,
    answerTo_measured messageId, ?_⟩
  exact bind_eq_ok.2 ⟨envelope, henv, hcontent⟩

theorem twoSessions_messageIds {sid messageId : String}
    (h : messageId ∈ (twoSessions.store.knownIds sid).messageIds) :
    messageId = "a" ∨ messageId = "m" := by
  obtain ⟨m, hm, rfl⟩ := Store.mem_knownIds.1 h
  have hrows : m ∈ twoSessions.store.messages.rows := (Store.mem_messagesOf.1 hm).1
  rcases List.mem_cons.1 hrows with rfl | hrows
  · exact .inl rfl
  · exact .inr (congrArg MessageRecord.messageId (List.mem_singleton.1 hrows))

theorem answer_n_keepsApart : ∃ inbound : InboundMessage, inbound.messageId = "n" ∧
    ∀ r w', Reaches alone ((persistReply .sample (answerTo "n")).hide waitingRun, twoSessions)
        (.ret r, w') → KeepsApart "s" inbound.messageId twoSessions.store w'.store := by
  obtain ⟨inbound, hid, h⟩ := answerTo_accepted "n" (by decide)
  refine ⟨inbound, hid, (reply_keepsApart_iff twoSessions_waiting h).2 fun sid _ hmem => ?_⟩
  have := twoSessions_messageIds hmem
  rw [hid] at this
  exact absurd this (by decide)

/-- The answer `m` of session `s` takes the record `m` from session `t`. -/
theorem answer_m_takes : ∃ inbound,
    Accepts .sample twoSessions.store waitingRun (talk "c" "s" "a") (answerTo "m") inbound ∧
    ∃ r w', Reaches alone ((persistReply .sample (answerTo "m")).hide waitingRun, twoSessions)
        (.ret r, w') ∧ ¬ KeepsApart "s" inbound.messageId twoSessions.store w'.store := by
  obtain ⟨inbound, hid, h⟩ := answerTo_accepted "m" (by decide)
  obtain ⟨r, w', hend, hwritten⟩ := persistReply_ends twoSessions_waiting h
  refine ⟨inbound, h, r, w', hend, fun hkeeps => ?_⟩
  refine (accepted_keepsApart_iff twoSessions_waiting h hwritten).1 hkeeps "t" (by decide) ?_
  rw [hid]
  decide

end SessionRun

end AgenticLocalApp
