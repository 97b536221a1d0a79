import AgenticLocalApp.Orchestration.Resumability

/-!
# The pending message of a conversation

The message that a conversation waits to have answered, as the loop looks for it: back through the
trail, past the correction exchanges at its end.  The recovery looks at the last record only; the
two agree unless the trail ends in such an exchange.
-/

namespace AgenticLocalApp

/-- The validation status of an inbound record that was refused. -/
def invalidStatus : String := "invalid"

/-- The loop of `pending_outbound_of`, over the trail read backwards. -/
def pendingOf : List MessageRecord → Option MessageRecord
  | [] => none
  | record :: rest =>
    if record.direction = .inbound then
      if record.validationStatus ≠ some invalidStatus then none else pendingOf rest
    else if record.messageType = .protocolCorrectionRequest then pendingOf rest
    else if record.messageType ∈ resumableMessageTypes then some record
    else none

/-- `pending_outbound_of`. -/
def pendingOutboundOf (σ : Store) (conversation : ConversationRecord) : Option MessageRecord :=
  if conversation.status ≠ .waitingModelResponse then none
  else pendingOf (σ.listMessages conversation.conversationId).reverse

/-- The loop of `consecutive_unusable_replies`, over the trail read backwards. -/
def unusableReplies : List MessageRecord → Nat
  | [] => 0
  | record :: rest =>
    if record.direction = .inbound then
      if record.validationStatus ≠ some invalidStatus then 0 else unusableReplies rest + 1
    else if record.messageType ≠ .protocolCorrectionRequest then 0
    else unusableReplies rest

/-- `consecutive_unusable_replies`. -/
def consecutiveUnusableReplies (σ : Store) (conversation : ConversationRecord) : Nat :=
  unusableReplies (σ.listMessages conversation.conversationId).reverse

/-! ## Correction exchanges -/

/-- A record of a correction exchange: a refused reply, or the request to correct one. -/
def OfCorrection (record : MessageRecord) : Prop :=
  record.direction = .inbound ∧ record.validationStatus = some invalidStatus ∨
    record.direction = .outbound ∧ record.messageType = .protocolCorrectionRequest

instance (record : MessageRecord) : Decidable (OfCorrection record) := by
  unfold OfCorrection; infer_instance

/-- A message of the loop that asks for a reply. -/
def AsksForReply (record : MessageRecord) : Prop :=
  record.direction = .outbound ∧ record.messageType ∈ resumableMessageTypes

instance (record : MessageRecord) : Decidable (AsksForReply record) := by
  unfold AsksForReply; infer_instance

theorem direction_eq_outbound {d : MessageDirection} (h : d ≠ .inbound) : d = .outbound := by
  cases d with
  | inbound => exact absurd rfl h
  | outbound => rfl

theorem AsksForReply.not_ofCorrection {r : MessageRecord} (h : AsksForReply r) :
    ¬ OfCorrection r := by
  rintro (⟨hd, _⟩ | ⟨_, ht⟩)
  · exact absurd (h.1.symm.trans hd) (by decide)
  · have := h.2
    rw [ht] at this
    exact absurd this (by decide)

theorem pendingOf_cons_of_correction {r : MessageRecord} {rest : List MessageRecord}
    (h : OfCorrection r) : pendingOf (r :: rest) = pendingOf rest := by
  rcases h with ⟨hd, hv⟩ | ⟨hd, ht⟩
  · simp [pendingOf, hd, hv]
  · simp [pendingOf, hd, ht]

theorem pendingOf_cons_of_not_correction {r : MessageRecord} {rest : List MessageRecord}
    (h : ¬ OfCorrection r) :
    pendingOf (r :: rest) = if AsksForReply r then some r else none := by
  unfold OfCorrection at h
  unfold pendingOf AsksForReply
  by_cases hd : r.direction = .inbound
  · have hv : r.validationStatus ≠ some invalidStatus := fun hv => h (.inl ⟨hd, hv⟩)
    simp [hd, hv]
  · have ht : r.messageType ≠ .protocolCorrectionRequest :=
      fun ht => h (.inr ⟨direction_eq_outbound hd, ht⟩)
    simp [direction_eq_outbound hd, ht]

/-- What is pending stands right below the corrections at the end of the trail. -/
theorem pendingOf_eq_some_iff {trail : List MessageRecord} {m : MessageRecord} :
    pendingOf trail = some m ↔ ∃ tail rest, trail = tail ++ m :: rest ∧
      (∀ r ∈ tail, OfCorrection r) ∧ AsksForReply m := by
  induction trail with
  | nil => simp [pendingOf]
  | cons r rest ih =>
    by_cases hr : OfCorrection r
    · rw [pendingOf_cons_of_correction hr, ih]
      constructor
      · rintro ⟨tail, below, rfl, htail, hm⟩
        exact ⟨r :: tail, below, rfl, List.forall_mem_cons.2 ⟨hr, htail⟩, hm⟩
      · rintro ⟨tail, below, he, htail, hm⟩
        cases tail with
        | nil =>
          obtain ⟨rfl, rfl⟩ := List.cons.inj he
          exact absurd hr hm.not_ofCorrection
        | cons r' tail =>
          obtain ⟨rfl, rfl⟩ := List.cons.inj he
          exact ⟨tail, below, rfl, (List.forall_mem_cons.1 htail).2, hm⟩
    · rw [pendingOf_cons_of_not_correction hr, Option.ite_none_right_eq_some, Option.some.injEq]
      constructor
      · rintro ⟨hm, rfl⟩
        exact ⟨[], rest, rfl, by simp, hm⟩
      · rintro ⟨tail, below, he, htail, hm⟩
        cases tail with
        | nil =>
          obtain ⟨rfl, rfl⟩ := List.cons.inj he
          exact ⟨hm, rfl⟩
        | cons r' tail =>
          obtain ⟨rfl, rfl⟩ := List.cons.inj he
          exact absurd (htail r List.mem_cons_self) hr

/-- The trail ends in a correction exchange about a message that asks for a reply. -/
def EndsInCorrection (trail : List MessageRecord) : Prop :=
  ∃ before m exchange, trail = before ++ m :: exchange ∧ AsksForReply m ∧ exchange ≠ [] ∧
    ∀ r ∈ exchange, OfCorrection r

namespace Recovery

variable {σ : Store} {c : ConversationRecord}

/-- The recovery looks at the last record only. -/
theorem pendingOutbound_eq_some_iff {m : MessageRecord} :
    pendingOutbound σ c = some m ↔
      ∃ before, σ.listMessages c.conversationId = before ++ [m] ∧ AsksForReply m := by
  unfold pendingOutbound AsksForReply
  cases hl : (σ.listMessages c.conversationId).getLast? with
  | none =>
    rw [List.getLast?_eq_none_iff] at hl
    simp [hl]
  | some last =>
    obtain ⟨before, hb⟩ := List.getLast?_eq_some_iff.1 hl
    simp only [hb]
    constructor
    · intro h
      split at h
      · cases h
      · split at h
        · cases h
        · rename_i hd ht
          obtain rfl := Option.some.inj h
          exact ⟨before, rfl, not_not.1 hd, not_not.1 ht⟩
    · rintro ⟨before', he, hd, ht⟩
      obtain ⟨_, he⟩ := List.append_inj' he rfl
      obtain rfl := List.singleton_inj.1 he
      simp [hd, ht]

theorem pendingOutboundOf_eq_some_iff {m : MessageRecord} (hw : c.status = .waitingModelResponse) :
    pendingOutboundOf σ c = some m ↔ ∃ before exchange,
      σ.listMessages c.conversationId = before ++ m :: exchange ∧ AsksForReply m ∧
        ∀ r ∈ exchange, OfCorrection r := by
  unfold pendingOutboundOf
  rw [if_neg (not_not.2 hw), pendingOf_eq_some_iff]
  constructor
  · rintro ⟨tail, rest, he, htail, hm⟩
    refine ⟨rest.reverse, tail.reverse, ?_, hm, fun r hr => htail r (List.mem_reverse.1 hr)⟩
    rw [← List.reverse_reverse (σ.listMessages c.conversationId), he]
    simp
  · rintro ⟨before, exchange, he, hm, hex⟩
    exact ⟨exchange.reverse, before.reverse, by simp [he], fun r hr => hex r (List.mem_reverse.1 hr), hm⟩

/-- What the recovery finds pending, the loop finds pending. -/
theorem pendingOutboundOf_of_pendingOutbound {m : MessageRecord}
    (hw : c.status = .waitingModelResponse) (h : pendingOutbound σ c = some m) :
    pendingOutboundOf σ c = some m := by
  obtain ⟨before, he, hm⟩ := pendingOutbound_eq_some_iff.1 h
  exact (pendingOutboundOf_eq_some_iff hw).2 ⟨before, [], he, hm, by simp⟩

/-- The two searches agree exactly on the trails that do not end in a correction exchange. -/
theorem pending_agree_iff (hw : c.status = .waitingModelResponse) :
    pendingOutbound σ c = pendingOutboundOf σ c ↔
      ¬ EndsInCorrection (σ.listMessages c.conversationId) := by
  constructor
  · rintro h ⟨before, m, exchange, he, hm, hne, hex⟩
    have hloop : pendingOutboundOf σ c = some m :=
      (pendingOutboundOf_eq_some_iff hw).2 ⟨before, exchange, he, hm, hex⟩
    obtain ⟨before', he', hm'⟩ := pendingOutbound_eq_some_iff.1 (h.trans hloop)
    -- the last record would both ask for a reply and belong to the exchange
    have hlast : exchange.getLast hne = m := by
      have := congrArg List.getLast? (he.symm.trans he')
      rw [List.getLast?_append, List.getLast?_cons, List.getLast?_eq_some_getLast hne] at this
      simpa using this
    exact hm.not_ofCorrection (hex m (hlast ▸ List.getLast_mem hne))
  · intro h
    refine Option.ext fun m => ⟨pendingOutboundOf_of_pendingOutbound hw, fun hloop => ?_⟩
    obtain ⟨before, exchange, he, hm, hex⟩ := (pendingOutboundOf_eq_some_iff hw).1 hloop
    obtain rfl : exchange = [] := by
      by_contra hne
      exact h ⟨before, m, exchange, he, hm, hne, hex⟩
    exact pendingOutbound_eq_some_iff.2 ⟨before, he, hm⟩

/-- A running session is in the conversation, which waits for a reply with no rotation in flight. -/
structure Waiting (σ : Store) (c : ConversationRecord) : Prop where
  status : c.status = .waitingModelResponse
  session : SessionIn σ c
  rotation : rotationInFlight σ c = false

theorem Waiting.isResumable_iff (h : Waiting σ c) :
    isResumable σ c ↔ (pendingOutbound σ c).isSome := by
  rw [Recovery.isResumable_iff, resumableButForRotation_iff]
  exact ⟨fun hr => hr.1.2.2, fun hp => ⟨⟨h.status, h.session, hp⟩, h.rotation⟩⟩

theorem agree_of_pending_eq (h : Waiting σ c) (he : pendingOutbound σ c = pendingOutboundOf σ c) :
    isResumable σ c ↔ (pendingOutboundOf σ c).isSome := by
  rw [← he]
  exact h.isResumable_iff

/-- The recovery resumes what the loop would resume, and for the same message, exactly when the
trail does not end in a correction exchange. -/
theorem isResumable_agrees_iff (h : Waiting σ c) :
    (isResumable σ c ↔ (pendingOutboundOf σ c).isSome) ∧
        pendingOutbound σ c = pendingOutboundOf σ c ↔
      ¬ EndsInCorrection (σ.listMessages c.conversationId) := by
  rw [← pending_agree_iff h.status]
  exact ⟨And.right, fun he => ⟨agree_of_pending_eq h he, he⟩⟩

def waitingConversation : ConversationRecord := .sample "c" "s" .waitingModelResponse

/-- A session whose conversation waits for the reply to a first request. -/
def crashedWaiting : Store where
  sessions := .ofRows [.sample "s" .running (some "c")]
  conversations := .ofRows [waitingConversation]
  cycles := .ofRows [.sample "cycle" "s" "c" .running]
  messages := .ofRows [.sample "m1" "s" "c" .outbound .userRequest (some "cycle")]

/-- The same session once the reply was refused and a correction was asked for. -/
def crashedInCorrection : Store :=
  { crashedWaiting with
    messages := .ofRows [.sample "m1" "s" "c" .outbound .userRequest (some "cycle"),
      { MessageRecord.sample "m2" "s" "c" .inbound .executionPlan (some "cycle") with
        validationStatus := some invalidStatus },
      .sample "m3" "s" "c" .outbound .protocolCorrectionRequest (some "cycle")] }

theorem waiting_crashed {σ : Store} (hs : σ.sessions = crashedWaiting.sessions) :
    Waiting σ waitingConversation where
  status := rfl
  session := by
    refine ⟨.sample "s" .running (some "c"), ?_, rfl, rfl⟩
    unfold Store.getSession
    rw [hs]
    rfl
  rotation := by
    unfold rotationInFlight
    rfl

theorem isResumable_agrees_crashedWaiting :
    (isResumable crashedWaiting waitingConversation ↔
        (pendingOutboundOf crashedWaiting waitingConversation).isSome) ∧
      pendingOutbound crashedWaiting waitingConversation =
        pendingOutboundOf crashedWaiting waitingConversation ↔
    ¬ EndsInCorrection (crashedWaiting.listMessages "c") :=
  isResumable_agrees_iff (waiting_crashed rfl)

theorem isResumable_disagrees_crashedInCorrection :
    Waiting crashedInCorrection waitingConversation ∧
      ¬ ((isResumable crashedInCorrection waitingConversation ↔
          (pendingOutboundOf crashedInCorrection waitingConversation).isSome) ∧
        pendingOutbound crashedInCorrection waitingConversation =
          pendingOutboundOf crashedInCorrection waitingConversation) :=
  ⟨waiting_crashed rfl, fun h => absurd (h.1.2 (by decide)) (by decide)⟩

end Recovery

end AgenticLocalApp
