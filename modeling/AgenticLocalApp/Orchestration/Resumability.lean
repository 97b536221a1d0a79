import AgenticLocalApp.Orchestration.RecoveryWrites

/-!
# Resumability across writes

Which conversations wait for their reply, and which writes of the recovery leave that alone.  The
one write that does not is the interruption of a rotating conversation: its child is then no longer
held back by the rotation.
-/

namespace AgenticLocalApp

namespace Recovery

variable {R : List String} {σ : Store}

/-- The conversation would be resumable if no rotation were in flight. -/
def resumableButForRotation (σ : Store) (conversation : ConversationRecord) : Bool :=
  isResumable σ { conversation with parentConversationId := none }

/-- Its session is running and in it. -/
def SessionIn (σ : Store) (conversation : ConversationRecord) : Prop :=
  ∃ session, σ.getSession conversation.sessionId = some session ∧ session.status = .running ∧
    session.currentConversationId = some conversation.conversationId

theorem resumableButForRotation_iff {c : ConversationRecord} :
    resumableButForRotation σ c ↔
      c.status = .waitingModelResponse ∧ SessionIn σ c ∧ (pendingOutbound σ c).isSome := by
  unfold resumableButForRotation isResumable SessionIn
  cases hs : σ.getSession c.sessionId with
  | none => simp
  | some session =>
    have hp : pendingOutbound σ { c with parentConversationId := none } = pendingOutbound σ c := rfl
    simp only [hp, rotationInFlight, Option.bind_none]
    grind

theorem isResumable_iff {c : ConversationRecord} :
    isResumable σ c ↔ resumableButForRotation σ c ∧ rotationInFlight σ c = false := by
  rw [resumableButForRotation_iff]
  unfold isResumable SessionIn
  cases hs : σ.getSession c.sessionId with
  | none => simp
  | some session => grind

theorem mem_resumableConversations {cid : String} :
    cid ∈ resumableConversations σ ↔
      ∃ c ∈ σ.conversations.rows, c.conversationId = cid ∧ isResumable σ c := by
  unfold resumableConversations
  simp only [List.mem_map, List.mem_filter, Store.mem_findConversationsInStates]
  constructor
  · rintro ⟨c, ⟨⟨hc, _⟩, hr⟩, rfl⟩
    exact ⟨c, hc, rfl, hr⟩
  · rintro ⟨c, hc, rfl, hr⟩
    have hw := (resumableButForRotation_iff.1 (isResumable_iff.1 hr).1).1
    exact ⟨c, ⟨⟨hc, by rw [hw]; decide⟩, hr⟩, rfl⟩

theorem mem_resumable_iff {c : ConversationRecord} (hc : c ∈ σ.conversations.rows) :
    c.conversationId ∈ resumableConversations σ ↔ isResumable σ c := by
  rw [mem_resumableConversations]
  refine ⟨?_, fun h => ⟨c, hc, rfl, h⟩⟩
  rintro ⟨d, hd, he, hr⟩
  rwa [← Table.key_inj hd hc he]

theorem rotationInFlight_iff {c : ConversationRecord} :
    rotationInFlight σ c ↔ ∃ p ∈ σ.conversations.rows,
      c.parentConversationId = some p.conversationId ∧ p.status = .rotating := by
  unfold rotationInFlight
  cases hp : c.parentConversationId with
  | none => simp
  | some pid =>
    cases hg : σ.getConversation pid with
    | none =>
      have := Table.find_eq_none_iff.1 hg
      simp only [Option.bind_some, hg, Bool.false_eq_true, Option.some.injEq, false_iff, not_exists]
      rintro p ⟨hm, rfl, _⟩
      exact this p hm rfl
    | some p =>
      obtain ⟨hm, hk⟩ := Table.find_eq_some_iff.1 hg
      simp only [Option.bind_some, hg, decide_eq_true_eq, Option.some.injEq]
      constructor
      · exact fun h => ⟨p, hm, hk.symm, h⟩
      · rintro ⟨q, hq, rfl, hr⟩
        rwa [Table.key_inj hm hq hk]

/-- The conversations that wait for their reply are those of `R`. -/
def ResumableAre (R : List String) (σ : Store) : Prop :=
  ∀ cid, cid ∈ resumableConversations σ ↔ cid ∈ R

theorem ResumableAre.iff (h : ResumableAre R σ) {c : ConversationRecord}
    (hc : c ∈ σ.conversations.rows) : c.conversationId ∈ R ↔ isResumable σ c :=
  (h _).symm.trans (mem_resumable_iff hc)

theorem ResumableAre.found (h : ResumableAre R σ) :
    ∀ cid ∈ R, ∃ c ∈ σ.conversations.rows, c.conversationId = cid := by
  intro cid hcid
  obtain ⟨c, hc, he, _⟩ := mem_resumableConversations.1 ((h cid).2 hcid)
  exact ⟨c, hc, he⟩

/-- A write to a table other than conversations keeps who is resumable when it keeps it of each
conversation. -/
theorem ResumableAre.of_isResumable {σ' : Store} (h : ResumableAre R σ)
    (hc : σ'.conversations = σ.conversations)
    (hr : ∀ c ∈ σ.conversations.rows, isResumable σ' c ↔ isResumable σ c) : ResumableAre R σ' := by
  intro cid
  rw [← h cid, mem_resumableConversations, mem_resumableConversations, hc]
  exact exists_congr fun c => and_congr_right fun hm => and_congr_right fun _ => hr c hm

/-- No rotating conversation stands before a child that it alone keeps from being resumable. -/
def RotationsOrdered (σ : Store) : Prop :=
  σ.conversations.rows.Pairwise fun p c =>
    ¬ (p.status = .rotating ∧ c.parentConversationId = some p.conversationId ∧
      resumableButForRotation σ c)

instance (σ : Store) : Decidable (RotationsOrdered σ) := by unfold RotationsOrdered; infer_instance

theorem pendingOutbound_congr (σ' : Store) (hm : σ'.messages = σ.messages) (c : ConversationRecord) :
    pendingOutbound σ' c = pendingOutbound σ c := by
  unfold pendingOutbound Store.listMessages
  rw [hm]

theorem resumableButForRotation_congr (σ' : Store) (hs : σ'.sessions = σ.sessions)
    (hm : σ'.messages = σ.messages) (c : ConversationRecord) :
    resumableButForRotation σ' c = resumableButForRotation σ c := by
  rw [Bool.eq_iff_iff, resumableButForRotation_iff, resumableButForRotation_iff,
    pendingOutbound_congr σ' hm]
  unfold SessionIn Store.getSession
  rw [hs]

/-- A write that leaves conversations, sessions and messages alone changes nobody's resumability. -/
theorem isResumable_congr {σ' : Store} (hc : σ'.conversations = σ.conversations)
    (hs : σ'.sessions = σ.sessions) (hm : σ'.messages = σ.messages) (c : ConversationRecord) :
    isResumable σ' c = isResumable σ c := by
  rw [Bool.eq_iff_iff, isResumable_iff, isResumable_iff, resumableButForRotation_congr σ' hs hm,
    ← Bool.not_eq_true, ← Bool.not_eq_true, rotationInFlight_iff, rotationInFlight_iff, hc]

theorem resumableConversations_congr {σ' : Store} (hc : σ'.conversations = σ.conversations)
    (hs : σ'.sessions = σ.sessions) (hm : σ'.messages = σ.messages) :
    resumableConversations σ' = resumableConversations σ := by
  have h : isResumable σ' = isResumable σ := funext (isResumable_congr hc hs hm)
  simp only [resumableConversations, Store.findConversationsInStates, h, hc]

theorem ResumableAre.congr {σ' : Store} (h : ResumableAre R σ)
    (hc : σ'.conversations = σ.conversations) (hs : σ'.sessions = σ.sessions)
    (hm : σ'.messages = σ.messages) : ResumableAre R σ' := by
  unfold ResumableAre
  rwa [resumableConversations_congr hc hs hm]

/-- A conversation that is not resumable may leave the active states, unless it is rotating into one
that is then resumable. -/
theorem resumableAre_saveConversation {r x : ConversationRecord} (h : ResumableAre R σ)
    (hx : x ∈ σ.conversations.rows) (hs : SameConversation r x) (hn : x.conversationId ∉ R)
    (ha : r.status ∉ activeConversationStates)
    (hchild : x.status = .rotating → ∀ c ∈ σ.conversations.rows, c ≠ x →
      c.parentConversationId = some x.conversationId → ¬ resumableButForRotation σ c) :
    ResumableAre R (σ.saveConversation r) := by
  have hk : r.conversationId = x.conversationId := hs.key
  have hnr : ¬ isResumable (σ.saveConversation r) r := fun hr => by
    have := (resumableButForRotation_iff.1 (isResumable_iff.1 hr).1).1
    exact ha (by rw [this]; decide)
  have hsame : ∀ c ∈ σ.conversations.rows, c ≠ x →
      (isResumable (σ.saveConversation r) c ↔ isResumable σ c) := by
    intro c hc hcx
    rw [isResumable_iff, isResumable_iff,
      resumableButForRotation_congr (σ.saveConversation r) rfl rfl]
    refine and_congr_right fun hbut => not_iff_not.1 ?_
    simp only [Bool.not_eq_false, rotationInFlight_iff]
    constructor
    · rintro ⟨p, hp, hpar, hrot⟩
      rcases (Table.mem_save_over hx hs.key).1 hp with rfl | ⟨hp, _⟩
      · exact absurd (by rw [hrot]; decide) ha
      · exact ⟨p, hp, hpar, hrot⟩
    · rintro ⟨p, hp, hpar, hrot⟩
      by_cases hpx : p = x
      · subst hpx
        exact absurd hbut (hchild hrot c hc hcx hpar)
      · exact ⟨p, (Table.mem_save_over hx hs.key).2 (.inr ⟨hp, hpx⟩), hpar, hrot⟩
  intro cid
  rw [← h cid, mem_resumableConversations, mem_resumableConversations]
  constructor
  · rintro ⟨c, hc, rfl, hr⟩
    rcases (Table.mem_save_over hx hs.key).1 hc with rfl | ⟨hc, hcx⟩
    · exact absurd hr hnr
    · exact ⟨c, hc, rfl, (hsame c hc hcx).1 hr⟩
  · rintro ⟨c, hc, rfl, hr⟩
    have hcx : c ≠ x := by
      rintro rfl
      exact hn ((h.iff hc).2 hr)
    exact ⟨c, (Table.mem_save_over hx hs.key).2 (.inr ⟨hc, hcx⟩), rfl, (hsame c hc hcx).2 hr⟩

/-- The session keeps running for the reply to one of `R`. -/
def StaysRunning (R : List String) (session : SessionRecord) : Prop :=
  session.status = .running ∧ ∃ cid ∈ R, session.currentConversationId = some cid

instance (session : SessionRecord) : Decidable (StaysRunning R session) := by
  unfold StaysRunning; infer_instance

/-- A session with no resumable conversation may stop running. -/
theorem resumableAre_saveSession {r x : SessionRecord} (h : ResumableAre R σ)
    (hx : x ∈ σ.sessions.rows) (hs : SameSession r x) (hstay : ¬ StaysRunning R x)
    (hr : r.status ≠ .running) : ResumableAre R (σ.saveSession r) := by
  have hk : r.sessionId = x.sessionId := hs.key
  refine h.of_isResumable rfl fun c hc => ?_
  have hbut : resumableButForRotation (σ.saveSession r) c ↔
      c.sessionId ≠ x.sessionId ∧ resumableButForRotation σ c := by
    rw [resumableButForRotation_iff, resumableButForRotation_iff,
      pendingOutbound_congr (σ.saveSession r) rfl]
    have : SessionIn (σ.saveSession r) c ↔ c.sessionId ≠ x.sessionId ∧ SessionIn σ c := by
      unfold SessionIn Store.getSession Store.saveSession
      rw [Table.find_save, key_session, hk]
      split
      · rename_i he
        simp only [Option.some.injEq, exists_eq_left', hr, false_and, he, ne_eq, not_true_eq_false]
      · rename_i he
        simp [Ne.symm he]
    rw [this]
    tauto
  rw [isResumable_iff, isResumable_iff, hbut, and_assoc]
  refine ⟨And.right, fun hres => ⟨fun he => hstay ?_, hres⟩⟩
  obtain ⟨session, hget, hrun, hcur⟩ := (resumableButForRotation_iff.1 hres.1).2.1
  obtain rfl : session = x := by
    have : σ.getSession c.sessionId = some x := he ▸ Table.find_of_mem hx
    exact Option.some.inj (hget.symm.trans this)
  exact ⟨hrun, c.conversationId, (h.iff hc).2 (isResumable_iff.2 hres), hcur⟩

end Recovery

end AgenticLocalApp
