import AgenticLocalApp.Interfaces.SseBroker
import AgenticLocalApp.Library.Ascending

/-!
# What a client of the event stream receives

The audited events that a subscription is for, each once and in the order of its session.  What
carries this is that the events received and the events in the queue are together all there are,
and that, while the store is replayed, the events received are those up to the position.
-/

namespace AgenticLocalApp

open Ascending

/-! ## What is promised -/

namespace SseBroker

variable (u : UnicodeDigits) (sub : Subscription) (b : SseBroker)

/-- The sequence that the subscription starts after, if it names one. -/
def startOf : Option Nat :=
  match parseEventId u sub.lastEventId with
  | .ok position => position.map Prod.fst
  | .error _ => none

/-- The audited events that the subscription is for: those after its position, or, without one,
those that are published once the client is registered. -/
def expected : List LoggedEvent :=
  match startOf u sub with
  | some start => b.log.filter fun e => sub.accepts e.event && start < e.sequence
  | none => (b.log.drop (b.since.getD b.log.length)).filter fun e => sub.accepts e.event

/-- The audited events among some frames. -/
def loggedOf (fs : List SseFrame) : List LoggedEvent := fs.filterMap SseFrame.logged?

/-- The audited events that the client has received. -/
def received : List LoggedEvent := loggedOf b.client.delivered

/-- The broker still serves the client. -/
def serving : Bool := b.client.active && !b.closed

/-- Nothing is on its way to a client that reads live frames. -/
def Idle : Prop :=
  b.client.phase = .live ∧ b.serving = true ∧ b.client.queue = [] ∧ b.client.scheduled = []

end SseBroker

/-- The events of a session. -/
def ofSession (sid : String) (es : List LoggedEvent) : List LoggedEvent :=
  es.filter fun e => e.event.sessionId = sid

/-- The client receives what it is promised: of each session the audited events in order, each
once, none left out before a later one, and in the end all of them; what is left out as delivered
is up to its position in its session, and if it is audited it was delivered or comes before what
the client asked for. -/
structure SseBroker.Delivers (u : UnicodeDigits) (sub : Subscription) (b : SseBroker) : Prop where
  inOrder : ∀ sid, ofSession sid b.received <+: ofSession sid (b.expected u sub)
  complete : b.Idle → ∀ sid, ofSession sid b.received = ofSession sid (b.expected u sub)
  skipped : ∀ f ∈ b.client.skipped, sub.sessionId = some f.event.sessionId ∧
    (∃ p ∈ b.client.position, keyLe f.key p = true) ∧
    ∀ e, f = .logged e → f ∈ b.client.delivered ∨ ∃ start ∈ startOf u sub, e.sequence ≤ start
  ends : b.client.phase ≠ .ended .raised

/-! ## When -/

/-- The position can be read, only a client of one session names one, and the store takes it. -/
def Subscription.Positioned (kind : StoreKind) (u : UnicodeDigits) (sub : Subscription) : Prop :=
  ∃ position, parseEventId u sub.lastEventId = .ok position ∧
    (position.isSome → sub.sessionId.isSome) ∧ ∀ p ∈ position, kind.Binds p.1

/-- No event of the loop overtakes an event of its session that the loop has still to enqueue. -/
def SseBroker.Overtakes (sub : Subscription) (b : SseBroker) : SseStep → Prop
  | .publish e .loop => e.audited = true ∧ sub.accepts e = true ∧ b.client.active = true ∧
      ofSession e.sessionId (SseBroker.loggedOf b.client.scheduled) ≠ []
  | _ => False

def SseBroker.Orderly (kind : StoreKind) (queueSize : Nat) (u : UnicodeDigits) (sub : Subscription)
    (b : SseBroker) : List SseStep → Prop
  | [] => True
  | st :: steps => ¬ b.Overtakes sub st ∧
      SseBroker.Orderly kind queueSize u sub (b.step kind queueSize u sub st) steps

namespace SseBroker

variable {kind : StoreKind} {queueSize : Nat} {u : UnicodeDigits} {sub : Subscription} {b : SseBroker}

/-! ## The frames on their way -/

/-- The frames of a queue. -/
def framesOf (items : List QueueItem) : List SseFrame :=
  items.filterMap fun
    | .frame f => some f
    | .dropped | .closed => none

/-- The frames that the client will still find in its queue. -/
def pending (c : SseClient) : List SseFrame :=
  framesOf c.queue ++ if c.active then c.scheduled else []

theorem loggedOf_append (fs gs : List SseFrame) :
    loggedOf (fs ++ gs) = loggedOf fs ++ loggedOf gs := List.filterMap_append

theorem ofSession_append (sid : String) (es fs : List LoggedEvent) :
    ofSession sid (es ++ fs) = ofSession sid es ++ ofSession sid fs := List.filter_append es fs

theorem framesOf_append (xs ys : List QueueItem) : framesOf (xs ++ ys) = framesOf xs ++ framesOf ys :=
  List.filterMap_append

theorem mem_loggedOf {fs : List SseFrame} {e : LoggedEvent} : e ∈ loggedOf fs ↔ .logged e ∈ fs := by
  unfold loggedOf
  rw [List.mem_filterMap]
  constructor
  · rintro ⟨f, hf, he⟩
    cases f with
    | logged x =>
      obtain rfl := Option.some.inj he
      exact hf
    | live _ _ _ => cases he
  · exact fun h => ⟨_, h, rfl⟩

/-- The list is what it should be, or the start of it once nothing is added any more. -/
def Flows (serving : Bool) (es fs : List LoggedEvent) : Prop :=
  es <+: fs ∧ (serving = true → es = fs)

theorem Flows.of_eq {es fs : List LoggedEvent} (serving : Bool) (h : es = fs) : Flows serving es fs :=
  ⟨h ▸ List.prefix_refl _, fun _ => h⟩

theorem Flows.stopped {serving serving' : Bool} {es fs gs : List LoggedEvent}
    (h : Flows serving es fs) (hgs : gs <+: es) (hs : serving' = false) : Flows serving' gs fs :=
  ⟨hgs.trans h.1, fun ha => by rw [hs] at ha; cases ha⟩

theorem Flows.more {serving : Bool} {es fs : List LoggedEvent} (h : Flows serving es fs)
    (hs : serving = false) (x : List LoggedEvent) : Flows serving es (fs ++ x) :=
  ⟨h.1.trans (List.prefix_append _ _), fun ha => by rw [hs] at ha; cases ha⟩

/-- What the frame and the publisher of an event do to a client: the frame is the last one on its
way, or the client is not active any more and what was scheduled is lost. -/
theorem enqueue_spec {c : SseClient} (f : SseFrame) (ha : c.active = true)
    (hroom : c.queue.length ≤ queueSize) :
    (c.enqueue queueSize f).phase = c.phase ∧ (c.enqueue queueSize f).position = c.position ∧
      (c.enqueue queueSize f).delivered = c.delivered ∧ (c.enqueue queueSize f).skipped = c.skipped ∧
      (c.enqueue queueSize f).scheduled = c.scheduled ∧
      (((c.enqueue queueSize f).active = true ∧
          (c.enqueue queueSize f).queue.length ≤ queueSize ∧
          framesOf (c.enqueue queueSize f).queue = framesOf c.queue ++ [f]) ∨
        (c.enqueue queueSize f).active = false ∧
          framesOf (c.enqueue queueSize f).queue = framesOf c.queue) := by
  by_cases hfull : queueSize ≤ c.queue.length
  · have hsignal : ¬ queueSize < c.queue.length := by omega
    have he : c.enqueue queueSize f =
        { c with active := false, queue := c.queue ++ [.dropped] } := by
      simp [SseClient.enqueue, SseClient.signal, ha, hfull, hsignal]
    rw [he]
    refine ⟨rfl, rfl, rfl, rfl, rfl, .inr ⟨rfl, ?_⟩⟩
    exact (framesOf_append _ _).trans (List.append_nil _)
  · have he : c.enqueue queueSize f = { c with queue := c.queue ++ [.frame f] } := by
      simp [SseClient.enqueue, ha, hfull]
    rw [he]
    refine ⟨rfl, rfl, rfl, rfl, rfl, .inl ⟨ha, ?_, framesOf_append _ _⟩⟩
    simp only [List.length_append, List.length_singleton]
    omega

/-- The frames on their way after an offer. -/
theorem offer_spec (f : SseFrame) (publisher : Publisher) (ha : b.client.active = true)
    (hroom : b.client.queue.length ≤ queueSize) :
    let c := (b.offer queueSize f publisher).client
    c.phase = b.client.phase ∧ c.position = b.client.position ∧ c.delivered = b.client.delivered ∧
      c.skipped = b.client.skipped ∧
      ((c.active = true ∧ c.queue.length ≤ queueSize ∧
          (framesOf c.queue = framesOf b.client.queue ++ [f] ∧ c.scheduled = b.client.scheduled ∧
              publisher = .loop ∨
            framesOf c.queue = framesOf b.client.queue ∧
              c.scheduled = b.client.scheduled ++ [f])) ∨
        c.active = false ∧ framesOf c.queue = framesOf b.client.queue ∧
          c.scheduled = b.client.scheduled) := by
  cases publisher with
  | loop =>
    obtain ⟨hphase, hposition, hdelivered, hskipped, hscheduled, hqueue⟩ :=
      enqueue_spec f ha hroom
    refine ⟨hphase, hposition, hdelivered, hskipped, ?_⟩
    rcases hqueue with ⟨hact, hlen, hframes⟩ | ⟨hact, hframes⟩
    · exact .inl ⟨hact, hlen, .inl ⟨hframes, hscheduled, rfl⟩⟩
    · exact .inr ⟨hact, hframes, hscheduled⟩
  | thread => exact ⟨rfl, rfl, rfl, rfl, .inl ⟨ha, hroom, .inr ⟨rfl, rfl⟩⟩⟩
  | afterLoop => exact ⟨rfl, rfl, rfl, rfl, .inr ⟨rfl, rfl, rfl⟩⟩

/-! ## The log -/

/-- What the publication of an event appends to the log. -/
def appended (b : SseBroker) (e : BusEvent) : List LoggedEvent := ((b.advance e).1.logged?).toList

theorem advance_event (b : SseBroker) (e : BusEvent) : (b.advance e).1.event = e := by
  unfold advance
  split <;> rfl

variable (queueSize sub) in
/-- A publication adds its event to the log, and offers its frame to the client if it is for it. -/
theorem publish_spec (b : SseBroker) (e : BusEvent) (publisher : Publisher) :
    let b' := b.publish queueSize sub e publisher
    b'.log = b.log ++ b.appended e ∧ b'.since = b.since ∧ b'.closed = b.closed ∧
      (¬ (b.serving = true ∧ b.since ≠ none ∧ sub.accepts e = true) ∧ b'.client = b.client ∨
        (b.serving = true ∧ b.since ≠ none ∧ sub.accepts e = true) ∧
          b'.client = (b.offer queueSize (b.advance e).1 publisher).client) := by
  have hadvance : (b.advance e).2.log = b.log ++ b.appended e ∧ (b.advance e).2.since = b.since ∧
      (b.advance e).2.closed = b.closed ∧ (b.advance e).2.client = b.client := by
    unfold appended advance
    split
    · exact ⟨rfl, rfl, rfl, rfl⟩
    · exact ⟨(List.append_nil _).symm, rfl, rfl, rfl⟩
  obtain ⟨hlog, hsince, hclosed, hclient⟩ := hadvance
  have hoffer : ∀ b' : SseBroker, b'.client = b.client →
      (b'.offer queueSize (b.advance e).1 publisher).client =
        (b.offer queueSize (b.advance e).1 publisher).client ∧
      (b'.offer queueSize (b.advance e).1 publisher).log = b'.log ∧
      (b'.offer queueSize (b.advance e).1 publisher).since = b'.since ∧
      (b'.offer queueSize (b.advance e).1 publisher).closed = b'.closed := by
    intro b' hb'
    unfold offer
    cases publisher <;> simp [hb']
  intro b'
  by_cases htarget : b.serving = true ∧ b.since ≠ none ∧ sub.accepts e = true
  · obtain ⟨hserving, hreg, hacc⟩ := htarget
    have hpair : b.client.active = true ∧ b.closed = false := by
      simpa [serving] using hserving
    have hb' : b' = (b.advance e).2.offer queueSize (b.advance e).1 publisher := by
      show b.publish queueSize sub e publisher = _
      unfold publish
      simp only [hpair, hreg, hacc]
      simp
    obtain ⟨ho1, ho2, ho3, ho4⟩ := hoffer _ hclient
    rw [hb']
    exact ⟨ho2.trans hlog, ho3.trans hsince, ho4.trans hclosed, .inr ⟨⟨hserving, hreg, hacc⟩, ho1⟩⟩
  · have hcond : b.closed = true ∨ b.since = none ∨ ¬ b.client.active = true ∨
        ¬ sub.accepts e = true := by
      by_contra hno
      simp only [not_or, not_not] at hno
      exact htarget ⟨by simp [serving, hno.1, hno.2.2.1], hno.2.1, hno.2.2.2⟩
    have hb' : b' = if b.closed then { (b.advance e).2 with tail := b.tail } else (b.advance e).2 := by
      show b.publish queueSize sub e publisher = _
      exact if_pos hcond
    rw [hb']
    split
    · exact ⟨hlog, hsince, hclosed, .inl ⟨htarget, hclient⟩⟩
    · exact ⟨hlog, hsince, hclosed, .inl ⟨htarget, hclient⟩⟩

/-- What holds of the log and of the frames, wherever the client stands. -/
structure Grounded (queueSize : Nat) (sub : Subscription) (b : SseBroker) : Prop where
  numbered : ∀ sid, Numbered LoggedEvent.sequence (b.chain sid)
  accepted : ∀ f ∈ b.client.delivered ++ framesOf b.client.queue ++ b.client.scheduled,
    sub.accepts f.event = true
  stored : ∀ e ∈ loggedOf (framesOf b.client.queue ++ b.client.scheduled), e ∈ b.log
  room : b.client.active = true → b.client.queue.length ≤ queueSize
  unread : b.client.phase = .unread → b.since = none ∧ b.client = {}
  registered : b.client.phase ≠ .unread → ∃ n, b.since = some n ∧ n ≤ b.log.length

/-- The sequence of a new event is beyond those of its session. -/
theorem appended_fresh (h : Grounded queueSize sub b) (e : BusEvent) :
    ∀ x ∈ b.appended e, x.event = e ∧ e.audited = true ∧
      ∀ y ∈ b.chain e.sessionId, y.sequence < x.sequence := by
  intro x hx
  unfold appended advance at hx
  split at hx
  · rename_i haudited
    obtain rfl := Option.mem_toList.1 hx |> Option.some.inj
    refine ⟨rfl, haudited, fun y hy => ?_⟩
    show y.sequence < b.currentSequence e.sessionId + 1
    obtain ⟨last, hlast⟩ : ∃ last, (b.chain e.sessionId).getLast? = some last := by
      rw [← Option.isSome_iff_exists, List.getLast?_isSome]
      exact List.ne_nil_of_mem hy
    have hle := (h.numbered e.sessionId).le_last hlast y hy
    unfold currentSequence
    rw [hlast]
    exact Nat.lt_succ_of_le hle
  · cases hx

theorem offer_frames (f : SseFrame) (publisher : Publisher) (ha : b.client.active = true)
    (hroom : b.client.queue.length ≤ queueSize) :
    ∀ g ∈ framesOf (b.offer queueSize f publisher).client.queue ++
        (b.offer queueSize f publisher).client.scheduled,
      g ∈ framesOf b.client.queue ++ b.client.scheduled ∨ g = f := by
  obtain ⟨-, -, -, -, hframes⟩ := offer_spec f publisher ha hroom
  intro g hg
  rcases hframes with ⟨-, -, ⟨hq, hs, -⟩ | ⟨hq, hs⟩⟩ | ⟨-, hq, hs⟩ <;> rw [hq, hs] at hg <;>
    simp only [List.mem_append, List.mem_singleton] at hg ⊢ <;> tauto

/-- What the loop does when it runs a callback. -/
theorem callback_spec (h : Grounded queueSize sub b) :
    let c := (b.callback queueSize).client
    c.phase = b.client.phase ∧ c.position = b.client.position ∧ c.delivered = b.client.delivered ∧
      c.skipped = b.client.skipped ∧
      (c = b.client ∨ ∃ f rest, b.client.scheduled = f :: rest ∧ c.scheduled = rest ∧
        ((b.client.active = true ∧ c.active = true ∧ c.queue.length ≤ queueSize ∧
            framesOf c.queue = framesOf b.client.queue ++ [f]) ∨
          c.active = false ∧ framesOf c.queue = framesOf b.client.queue)) := by
  intro c
  have hc : c = (b.callback queueSize).client := rfl
  unfold callback at hc
  cases hscheduled : b.client.scheduled with
  | nil =>
    rw [hscheduled] at hc
    rw [hc]
    exact ⟨rfl, rfl, rfl, rfl, .inl rfl⟩
  | cons f rest =>
    rw [hscheduled] at hc
    dsimp only at hc
    cases ha : b.client.active with
    | false =>
      have he : SseClient.enqueue queueSize { b.client with scheduled := rest } f =
          { b.client with scheduled := rest } := by
        simp [SseClient.enqueue, ha]
      rw [hc, he]
      exact ⟨rfl, rfl, rfl, rfl, .inr ⟨f, rest, rfl, rfl, .inr ⟨ha, rfl⟩⟩⟩
    | true =>
      obtain ⟨hphase, hposition, hdelivered, hskipped, hrest, hqueue⟩ :=
        enqueue_spec (c := { b.client with scheduled := rest }) f ha
          (h.room ha)
      rw [hc]
      refine ⟨hphase, hposition, hdelivered, hskipped, .inr ⟨f, rest, rfl, hrest, ?_⟩⟩
      rcases hqueue with ⟨hact, hlen, hframes⟩ | ⟨hact, hframes⟩
      · exact .inl ⟨rfl, hact, hlen, hframes⟩
      · exact .inr ⟨hact, hframes⟩

theorem close_spec (h : Grounded queueSize sub b) :
    let c := (b.close queueSize).client
    (b.close queueSize).serving = false ∧ c.phase = b.client.phase ∧
      c.position = b.client.position ∧ c.delivered = b.client.delivered ∧
      c.skipped = b.client.skipped ∧ c.scheduled = b.client.scheduled ∧
      framesOf c.queue = framesOf b.client.queue ∧ (b.since = none → c = b.client) ∧
      (c.active = true → c = b.client) := by
  intro c
  by_cases hcond : b.since.isSome = true ∧ b.client.active = true
  · have hsignal : ¬ queueSize < b.client.queue.length := Nat.not_lt.2 (h.room hcond.2)
    have hb : b.close queueSize = { b with
        closed := true
        client := { b.client with active := false, queue := b.client.queue ++ [.closed] } } := by
      unfold close
      rw [if_pos hcond]
      simp [SseClient.signal, hsignal]
    have hc : c = (b.close queueSize).client := rfl
    rw [hc, hb]
    refine ⟨rfl, rfl, rfl, rfl, rfl, rfl, ?_, fun hnone => ?_, fun ha => by cases ha⟩
    · exact (framesOf_append _ _).trans (List.append_nil _)
    · rw [hnone] at hcond
      cases hcond.1
  · have hb : b.close queueSize = { b with closed := true } := if_neg hcond
    have hc : c = (b.close queueSize).client := rfl
    rw [hc, hb]
    exact ⟨by simp [serving], rfl, rfl, rfl, rfl, rfl, rfl, fun _ => rfl, fun _ => rfl⟩

theorem Grounded.publish (h : Grounded queueSize sub b) (e : BusEvent) (publisher : Publisher) :
    Grounded queueSize sub (b.publish queueSize sub e publisher) := by
  obtain ⟨hlog, hsince, -, hclient⟩ := publish_spec queueSize sub b e publisher
  have hchain : ∀ sid, (b.publish queueSize sub e publisher).chain sid =
      b.chain sid ++ ofSession sid (b.appended e) := by
    intro sid
    unfold chain
    rw [hlog]
    exact List.filter_append _ _
  have hnumbered : ∀ sid, Numbered LoggedEvent.sequence
      ((b.publish queueSize sub e publisher).chain sid) := by
    intro sid
    rw [hchain]
    refine List.pairwise_append.2 ⟨h.numbered sid, ?_, fun y hy x hx => ?_⟩
    · have hone : (b.appended e).Pairwise fun a b => a.sequence < b.sequence := by
        unfold appended
        cases (b.advance e).1.logged? with
        | none => exact List.Pairwise.nil
        | some x => exact List.pairwise_singleton _ x
      exact hone.filter _
    · obtain ⟨hx, hsid⟩ := List.mem_filter.1 hx
      obtain ⟨he, -, hfresh⟩ := appended_fresh h e x hx
      have hsame : e.sessionId = sid := by simpa [he] using hsid
      exact hfresh y (hsame ▸ hy)
  have hregistered : ∀ n, b.since = some n → n ≤ b.log.length →
      ∃ n, (b.publish queueSize sub e publisher).since = some n ∧
        n ≤ (b.publish queueSize sub e publisher).log.length := by
    intro n hn hle
    refine ⟨n, hsince.trans hn, ?_⟩
    rw [hlog, List.length_append]
    omega
  rcases hclient with ⟨-, hclient⟩ | ⟨⟨hserving, hreg, hacc⟩, hclient⟩
  · refine ⟨hnumbered, ?_, ?_, ?_, ?_, ?_⟩
    · rw [hclient]
      exact h.accepted
    · rw [hclient, hlog]
      exact fun x hx => List.mem_append_left _ (h.stored x hx)
    · rw [hclient]
      exact h.room
    · rw [hclient, hsince]
      exact h.unread
    · rw [hclient]
      intro hphase
      obtain ⟨n, hn, hle⟩ := h.registered hphase
      exact hregistered n hn hle
  · have hactive : b.client.active = true := by
      simp only [serving, Bool.and_eq_true] at hserving
      exact hserving.1
    have hframes := offer_frames (b.advance e).1 publisher hactive
      (h.room hactive)
    obtain ⟨hphase, -, hdelivered, -, hqueue⟩ :=
      offer_spec (b.advance e).1 publisher hactive (h.room hactive)
    rw [← hclient] at hframes hphase hdelivered hqueue
    refine ⟨hnumbered, fun f hf => ?_, fun x hx => ?_, fun ha => ?_, fun hunread => ?_,
      fun hread => ?_⟩
    · rw [List.append_assoc, List.mem_append, hdelivered] at hf
      rcases hf with hf | hf
      · exact h.accepted f (by simp [hf])
      · rcases hframes f hf with hf | rfl
        · refine h.accepted f ?_
          rw [List.append_assoc, List.mem_append]
          exact .inr hf
        · rw [advance_event]
          exact hacc
    · rw [mem_loggedOf] at hx
      rw [hlog]
      rcases hframes _ hx with hx | hx
      · exact List.mem_append_left _ (h.stored x (mem_loggedOf.2 hx))
      · refine List.mem_append_right _ ?_
        unfold appended
        rw [← hx]
        exact List.mem_singleton_self x
    · rcases hqueue with ⟨-, hlen, -⟩ | ⟨hno, -⟩
      · exact hlen
      · rw [hno] at ha
        cases ha
    · rw [hphase] at hunread
      exact absurd (h.unread hunread).1 hreg
    · rw [hphase] at hread
      obtain ⟨n, hn, hle⟩ := h.registered hread
      exact hregistered n hn hle

/-- The frames that a client has received or will, or had. -/
theorem Grounded.move (h : Grounded queueSize sub b) {b' : SseBroker} (hlog : b'.log = b.log)
    (hsince : b'.since = b.since) (hread : b.client.phase ≠ .unread)
    (hread' : b'.client.phase ≠ .unread)
    (hdelivered : ∀ f ∈ b'.client.delivered, f ∈ b.client.delivered ∨
      f ∈ framesOf b.client.queue ∨ sub.accepts f.event = true)
    (hframes : ∀ f ∈ framesOf b'.client.queue ++ b'.client.scheduled,
      f ∈ framesOf b.client.queue ++ b.client.scheduled)
    (hroom : b'.client.active = true → b'.client.queue.length ≤ queueSize) :
    Grounded queueSize sub b' := by
  refine ⟨fun sid => ?_, fun f hf => ?_, fun x hx => ?_, hroom, fun hunread => ?_, fun _ => ?_⟩
  · unfold chain
    rw [hlog]
    exact h.numbered sid
  · rw [List.append_assoc, List.mem_append] at hf
    rcases hf with hf | hf
    · rcases hdelivered f hf with hf | hf | hf
      · exact h.accepted f (by simp [hf])
      · exact h.accepted f (by simp [hf])
      · exact hf
    · refine h.accepted f ?_
      rw [List.append_assoc, List.mem_append]
      exact .inr (hframes f hf)
  · rw [hlog]
    exact h.stored x (mem_loggedOf.2 (hframes _ (mem_loggedOf.1 hx)))
  · exact absurd hunread hread'
  · rw [hsince, hlog]
    exact h.registered hread

theorem Grounded.callback (h : Grounded queueSize sub b) :
    Grounded queueSize sub (b.callback queueSize) := by
  have hlog : (b.callback queueSize).log = b.log := by
    unfold SseBroker.callback
    split <;> rfl
  have hsince : (b.callback queueSize).since = b.since := by
    unfold SseBroker.callback
    split <;> rfl
  obtain ⟨hphase, -, hdelivered, -, hclient⟩ := callback_spec h
  by_cases hunread : b.client.phase = .unread
  · have hfresh := (h.unread hunread).2
    have hb : b.callback queueSize = b := by
      unfold SseBroker.callback
      rw [hfresh]
    rw [hb]
    exact h
  · refine h.move hlog hsince hunread (hphase ▸ hunread) ?_ ?_ ?_
    · rw [hdelivered]
      exact fun f hf => .inl hf
    · rcases hclient with hc | ⟨f, rest, hscheduled, hrest, hqueue⟩
      · rw [hc]
        exact fun f hf => hf
      · rw [hrest, hscheduled]
        rcases hqueue with ⟨-, -, -, hq⟩ | ⟨-, hq⟩ <;> rw [hq] <;> intro g hg <;>
          simp only [List.mem_append, List.mem_cons, List.not_mem_nil, or_false] at hg ⊢ <;> tauto
    · rcases hclient with hc | ⟨f, rest, -, -, ⟨-, -, hlen, -⟩ | ⟨hno, -⟩⟩
      · rw [hc]
        exact h.room
      · exact fun _ => hlen
      · rw [hno]
        exact fun ha => by cases ha

theorem Grounded.close (h : Grounded queueSize sub b) :
    Grounded queueSize sub (b.close queueSize) := by
  have hlog : (b.close queueSize).log = b.log := by
    unfold SseBroker.close
    split <;> rfl
  have hsince : (b.close queueSize).since = b.since := by
    unfold SseBroker.close
    split <;> rfl
  obtain ⟨-, hphase, -, hdelivered, -, hscheduled, hqueue, hunregistered, hactive⟩ := close_spec h
  by_cases hunread : b.client.phase = .unread
  · obtain ⟨hnone, hfresh⟩ := h.unread hunread
    have hb : b.close queueSize = { b with closed := true } := by
      unfold SseBroker.close
      rw [hnone]
      rfl
    rw [hb]
    exact ⟨h.numbered, h.accepted, h.stored, h.room, h.unread, h.registered⟩
  · refine h.move hlog hsince hunread (hphase ▸ hunread) ?_ ?_ fun ha => ?_
    · rw [hdelivered]
      exact fun f hf => .inl hf
    · rw [hqueue, hscheduled]
      exact fun f hf => hf
    · have hc := hactive ha
      rw [hc] at ha ⊢
      exact h.room ha

theorem Grounded.stop (h : Grounded queueSize sub b) : Grounded queueSize sub b.stop := by
  cases hphase : b.client.phase with
  | unread | ended why =>
    have hb : b.stop = b := by
      unfold SseBroker.stop
      rw [hphase]
    rw [hb]
    exact h
  | reading cursor | replaying rest last cursor | live =>
    have hb : b.stop =
        { b with client := { b.client with phase := .ended .stopped, active := false } } := by
      unfold SseBroker.stop
      rw [hphase]
    rw [hb]
    exact h.move rfl rfl (by rw [hphase]; simp) (by simp) (fun f hf => .inl hf) (fun f hf => hf)
      (fun ha => by cases ha)

theorem Grounded.subscribe (h : Grounded queueSize sub b) (hunread : b.client.phase = .unread) :
    Grounded queueSize sub (b.subscribe u sub) := by
  have hfresh := (h.unread hunread).2
  have hshape : ∃ phase active position, phase ≠ StreamPhase.unread ∧
      b.subscribe u sub = { b with
        since := some b.log.length
        client := { phase := phase, active := active, position := position } } := by
    unfold SseBroker.subscribe
    rw [hfresh]
    split
    · exact ⟨_, false, none, by simp, rfl⟩
    · split
      · exact ⟨_, true, _, by simp, rfl⟩
      · exact ⟨.live, true, _, by simp, rfl⟩
  obtain ⟨phase, active, position, hne, hb⟩ := hshape
  rw [hb]
  refine ⟨h.numbered, ?_, ?_, fun _ => Nat.zero_le _, fun hp => absurd hp hne,
    fun _ => ⟨_, rfl, Nat.le_refl _⟩⟩
  · intro f hf
    cases hf
  · intro x hx
    cases hx

/-- A page is of the session of the subscription. -/
def PagesAccepted (sub : Subscription) (b : SseBroker) : Prop :=
  ∀ rest last cursor, b.client.phase = .replaying rest last cursor →
    ∀ e ∈ rest, sub.acceptsAudit e.event = true → sub.accepts e.event = true

variable (kind) in
theorem Grounded.readPage (h : Grounded queueSize sub b) {cursor : Nat}
    (hphase : b.client.phase = .reading cursor) :
    Grounded queueSize sub (b.readPage kind sub cursor) := by
  unfold SseBroker.readPage
  split
  · exact h.move rfl rfl (by rw [hphase]; simp) (by simp) (fun f hf => .inl hf) (fun f hf => hf)
      (fun ha => by cases ha)
  · exact h.move rfl rfl (by rw [hphase]; simp) (by simp) (fun f hf => .inl hf) (fun f hf => hf)
      h.room

variable (kind) in
theorem Grounded.read (h : Grounded queueSize sub b) (hpages : PagesAccepted sub b) :
    Grounded queueSize sub (b.read kind u sub) := by
  unfold SseBroker.read
  cases hphase : b.client.phase with
  | unread => exact h.subscribe hphase
  | ended why => exact h
  | reading cursor => exact h.readPage kind hphase
  | replaying rest last cursor =>
    dsimp only
    cases rest with
    | nil =>
      refine h.move rfl rfl (by rw [hphase]; simp) ?_ (fun f hf => .inl hf) (fun f hf => hf) h.room
      cases last <;> simp [replayNext]
    | cons e rest =>
      unfold replayNext
      dsimp only
      split
      · rename_i haccepts
        refine h.move rfl rfl (by rw [hphase]; simp) (by simp) (fun f hf => ?_) (fun f hf => hf)
          h.room
        rcases List.mem_append.1 hf with hf | hf
        · exact .inl hf
        · rw [List.mem_singleton.1 hf]
          exact .inr (.inr (hpages _ _ _ hphase e List.mem_cons_self haccepts))
      · exact h.move rfl rfl (by rw [hphase]; simp) (by simp) (fun f hf => .inl hf)
          (fun f hf => hf) h.room
  | live =>
    dsimp only
    unfold SseBroker.next
    have hread : b.client.phase ≠ .unread := by
      rw [hphase]
      simp
    cases hqueue : b.client.queue with
    | nil => exact h
    | cons item queue =>
      have hroom : b.client.active = true → queue.length ≤ queueSize := by
        intro ha
        have := h.room ha
        rw [hqueue, List.length_cons] at this
        omega
      cases item with
      | dropped | closed =>
        refine h.move rfl rfl hread (by simp) (fun f hf => .inl hf) (fun f hf => ?_)
          (fun ha => by cases ha)
        rw [hqueue]
        exact hf
      | frame f =>
        have hmem : ∀ g ∈ framesOf queue ++ b.client.scheduled,
            g ∈ framesOf b.client.queue ++ b.client.scheduled := by
          intro g hg
          rw [hqueue]
          exact List.mem_cons_of_mem f hg
        dsimp only
        split
        · exact h.move rfl rfl hread (by simp [hphase]) (fun g hg => .inl hg) hmem hroom
        · refine h.move rfl rfl hread (by simp [hphase]) (fun g hg => ?_) hmem hroom
          rcases List.mem_append.1 hg with hg | hg
          · exact .inl hg
          · rw [List.mem_singleton.1 hg, hqueue]
            exact .inr (.inl List.mem_cons_self)

/-! ## What every step does to the events on their way -/

/-- What is on its way is what was, or the start of it to a client that is not served any more. -/
def Shrinks (b b' : SseBroker) : Prop :=
  (b'.serving = true → b.serving = true) ∧
    (pending b'.client = pending b.client ∨
      b'.serving = false ∧ pending b'.client <+: pending b.client)

theorem pending_of_inactive {c : SseClient} (h : c.active = false) : pending c = framesOf c.queue := by
  simp [pending, h]

theorem pending_of_active {c : SseClient} (h : c.active = true) :
    pending c = framesOf c.queue ++ c.scheduled := by
  simp [pending, h]

theorem frames_prefix_pending (c : SseClient) : framesOf c.queue <+: pending c :=
  List.prefix_append _ _

theorem callback_shrinks (h : Grounded queueSize sub b) : Shrinks b (b.callback queueSize) := by
  have hclosed : (b.callback queueSize).closed = b.closed := by
    unfold SseBroker.callback
    split <;> rfl
  obtain ⟨-, -, -, -, hclient⟩ := callback_spec h
  unfold Shrinks serving
  rw [hclosed]
  rcases hclient with hc | ⟨f, rest, hscheduled, hrest, ⟨ha, hact, -, hq⟩ | ⟨hact, hq⟩⟩
  · rw [hc]
    exact ⟨id, .inl rfl⟩
  · refine ⟨fun hs => ?_, .inl ?_⟩
    · rw [ha]
      rwa [hact] at hs
    · rw [pending_of_active ha, pending_of_active hact, hq, hrest, hscheduled, List.append_assoc]
      rfl
  · refine ⟨fun hs => ?_, .inr ⟨by rw [hact]; rfl, ?_⟩⟩
    · rw [hact] at hs
      cases hs
    · rw [pending_of_inactive hact, hq]
      exact frames_prefix_pending _

theorem close_shrinks (h : Grounded queueSize sub b) : Shrinks b (b.close queueSize) := by
  obtain ⟨hserving, -, -, -, -, -, hq, -, hactive⟩ := close_spec h
  refine ⟨fun hs => ?_, ?_⟩
  · rw [hserving] at hs
    cases hs
  · cases hact : (b.close queueSize).client.active with
    | true => exact .inl (by rw [hactive hact])
    | false =>
      refine .inr ⟨hserving, ?_⟩
      rw [pending_of_inactive hact, hq]
      exact frames_prefix_pending _

theorem Flows.shrink {b' : SseBroker} {es fs : List LoggedEvent} (hs : Shrinks b b')
    (f : List SseFrame → List LoggedEvent) (hf : ∀ xs ys, f (xs ++ ys) = f xs ++ f ys)
    (h : Flows b.serving (es ++ f (pending b.client)) fs) :
    Flows b'.serving (es ++ f (pending b'.client)) fs := by
  obtain ⟨hserving, hsame | ⟨hno, rest, hrest⟩⟩ := hs
  · rw [hsame]
    exact ⟨h.1, fun hs => h.2 (hserving hs)⟩
  · refine h.stopped ?_ hno
    rw [← hrest, hf, ← List.append_assoc]
    exact List.prefix_append _ _

/-- The events of a session on their way once an event is published that overtakes none. -/
theorem pending_publish (h : Grounded queueSize sub b) {e : BusEvent} {publisher : Publisher}
    (hno : ¬ b.Overtakes sub (.publish e publisher)) (hserving : b.serving = true)
    (hreg : b.since ≠ none) (hacc : sub.accepts e = true) (sid : String) :
    let b' := b.publish queueSize sub e publisher
    (b'.serving = true ∧ ofSession sid (loggedOf (pending b'.client)) =
        ofSession sid (loggedOf (pending b.client)) ++ ofSession sid (b.appended e)) ∨
      b'.serving = false ∧ pending b'.client <+: pending b.client := by
  intro b'
  obtain ⟨-, -, hclosed, ⟨hno', -⟩ | ⟨-, hclient⟩⟩ :=
    publish_spec queueSize sub b e publisher
  · exact absurd ⟨hserving, hreg, hacc⟩ hno'
  · have hpair : b.client.active = true ∧ b.closed = false := by simpa [serving] using hserving
    have hframe : loggedOf [(b.advance e).1] = b.appended e := by
      unfold loggedOf appended
      cases h : (b.advance e).1.logged? <;> simp [h]
    obtain ⟨-, -, -, -, hqueue⟩ :=
      offer_spec (b.advance e).1 publisher hpair.1 (h.room hpair.1)
    rw [← hclient] at hqueue
    have hserving' : b'.serving = b'.client.active := by
      show (b'.client.active && !b'.closed) = b'.client.active
      rw [show b'.closed = b.closed from hclosed, hpair.2]
      simp
    rw [hserving']
    rcases hqueue with ⟨hact, -, ⟨hq, hs, hloop⟩ | ⟨hq, hs⟩⟩ | ⟨hact, hq, -⟩
    · refine .inl ⟨hact, ?_⟩
      rw [pending_of_active hact, pending_of_active hpair.1, hq, hs]
      simp only [loggedOf_append, ofSession_append, hframe]
      rw [List.append_assoc, List.append_assoc]
      congr 1
      -- of the session of the event nothing is scheduled
      by_cases hempty : ofSession sid (b.appended e) = []
      · rw [hempty, List.nil_append, List.append_nil]
      · obtain ⟨x, hx⟩ := List.exists_mem_of_ne_nil _ hempty
        obtain ⟨hx, hsid⟩ := List.mem_filter.1 hx
        obtain ⟨hevent, haudited, -⟩ := appended_fresh h e x hx
        have hsame : e.sessionId = sid := by simpa [hevent] using hsid
        have hnone : ofSession sid (loggedOf b.client.scheduled) = [] := by
          by_contra hne
          subst hloop
          exact hno ⟨haudited, hacc, hpair.1, by rw [hsame]; exact hne⟩
        rw [hnone, List.nil_append, List.append_nil]
    · refine .inl ⟨hact, ?_⟩
      rw [pending_of_active hact, pending_of_active hpair.1, hq, hs]
      simp only [loggedOf_append, ofSession_append, hframe, List.append_assoc]
    · refine .inr ⟨hact, ?_⟩
      rw [pending_of_inactive hact, hq]
      exact frames_prefix_pending _

variable (queueSize sub) in
/-- An event that is published to a client that is not served, or is not for it. -/
theorem client_publish (publisher : Publisher) {e : BusEvent}
    (hno : ¬ (b.serving = true ∧ b.since ≠ none ∧ sub.accepts e = true)) :
    (b.publish queueSize sub e publisher).client = b.client ∧
      (b.publish queueSize sub e publisher).serving = b.serving := by
  obtain ⟨-, -, hclosed, ⟨-, hclient⟩ | ⟨htarget, -⟩⟩ :=
    publish_spec queueSize sub b e publisher
  · refine ⟨hclient, ?_⟩
    unfold serving
    rw [hclosed, hclient]
  · exact absurd htarget hno

theorem frame_publish (h : Grounded queueSize sub b) (e : BusEvent) (publisher : Publisher) :
    let c := (b.publish queueSize sub e publisher).client
    c.phase = b.client.phase ∧ c.position = b.client.position ∧ c.delivered = b.client.delivered ∧
      c.skipped = b.client.skipped := by
  obtain ⟨-, -, -, ⟨-, hclient⟩ | ⟨⟨hserving, -, -⟩, hclient⟩⟩ :=
    publish_spec queueSize sub b e publisher
  · rw [hclient]
    exact ⟨rfl, rfl, rfl, rfl⟩
  · have hactive : b.client.active = true := by
      simp only [serving, Bool.and_eq_true] at hserving
      exact hserving.1
    obtain ⟨hphase, hposition, hdelivered, hskipped, -⟩ :=
      offer_spec (b.advance e).1 publisher hactive (h.room hactive)
    rw [hclient]
    exact ⟨hphase, hposition, hdelivered, hskipped⟩

/-- The events that are published once the client is registered and that are for it. -/
def published (sub : Subscription) (b : SseBroker) : List LoggedEvent :=
  (b.log.drop (b.since.getD b.log.length)).filter fun e => sub.accepts e.event

theorem published_publish (h : Grounded queueSize sub b) (hread : b.client.phase ≠ .unread)
    (e : BusEvent) (publisher : Publisher) :
    (b.publish queueSize sub e publisher).published sub =
      b.published sub ++ if sub.accepts e then b.appended e else [] := by
  obtain ⟨hlog, hsince, -, -⟩ := publish_spec queueSize sub b e publisher
  obtain ⟨n, hn, hle⟩ := h.registered hread
  unfold published
  rw [hlog, hsince, hn, Option.getD_some, Option.getD_some, List.drop_append_of_le_length hle,
    List.filter_append]
  congr 1
  split
  · rename_i hacc
    exact List.filter_eq_self.2 fun x hx => by rw [(appended_fresh h e x hx).1, hacc]
  · rename_i hacc
    exact List.filter_eq_nil_iff.2 fun x hx => by rw [(appended_fresh h e x hx).1]; exact hacc

/-- Of each session, what was published is on its way or more, after an event that overtakes none. -/
theorem Flows.publish (es : List LoggedEvent) (h : Grounded queueSize sub b) (hread : b.client.phase ≠ .unread)
    {e : BusEvent} {publisher : Publisher} (hno : ¬ b.Overtakes sub (.publish e publisher))
    {sid : String}
    (hflows : Flows b.serving (es ++ ofSession sid (loggedOf (pending b.client)))
      (ofSession sid (b.published sub))) :
    let b' := b.publish queueSize sub e publisher
    Flows b'.serving (es ++ ofSession sid (loggedOf (pending b'.client)))
      (ofSession sid (b'.published sub)) := by
  intro b'
  have hpub : b'.published sub = b.published sub ++ if sub.accepts e then b.appended e else [] :=
    published_publish h hread e publisher
  obtain ⟨n, hn, -⟩ := h.registered hread
  have hreg : b.since ≠ none := by simp [hn]
  rw [hpub, ofSession_append]
  by_cases hserving : b.serving = true
  · by_cases hacc : sub.accepts e = true
    · rw [if_pos hacc]
      rcases pending_publish h hno hserving hreg hacc sid with ⟨-, hsame⟩ | ⟨hs, rest, hrest⟩
      · rw [hsame, ← List.append_assoc]
        exact .of_eq _ (by rw [hflows.2 hserving])
      · refine (hflows.stopped ?_ hs).more hs _
        rw [← hrest, loggedOf_append, ofSession_append, ← List.append_assoc]
        exact List.prefix_append _ _
    · obtain ⟨hclient, hs⟩ := client_publish queueSize sub publisher (b := b) (e := e) fun ht => hacc ht.2.2
      rw [if_neg hacc, hclient, hs]
      simpa [ofSession] using hflows
  · obtain ⟨hclient, hs⟩ := client_publish queueSize sub publisher (b := b) (e := e) fun ht => hserving ht.1
    have hno' : b.serving = false := by simpa using hserving
    rw [hclient, hs]
    exact hflows.more hno' _

/-! ## A client without a position -/

/-- Where a client stands that named no position. -/
def PlainAt (sub : Subscription) (b : SseBroker) : Prop :=
  b.client.skipped = [] ∧
    match b.client.phase with
    | .unread => True
    | .live => b.client.position = none ∧ ∀ sid,
        Flows b.serving (ofSession sid b.received ++ ofSession sid (loggedOf (pending b.client)))
          (ofSession sid (b.published sub))
    | .ended why => why ≠ .raised ∧
        ∀ sid, ofSession sid b.received <+: ofSession sid (b.published sub)
    | .reading _ | .replaying _ _ _ => False

theorem PlainAt.publish (hb : PlainAt sub b) (h : Grounded queueSize sub b) {e : BusEvent}
    {publisher : Publisher} (hno : ¬ b.Overtakes sub (.publish e publisher)) :
    PlainAt sub (b.publish queueSize sub e publisher) := by
  obtain ⟨hphase, hposition, hdelivered, hskipped⟩ :=
    frame_publish h e publisher
  have hreceived : (b.publish queueSize sub e publisher).received = b.received := by
    unfold received
    rw [hdelivered]
  obtain ⟨hskip, hb⟩ := hb
  refine ⟨hskipped.trans hskip, ?_⟩
  rw [hphase, hposition, hreceived]
  cases hp : b.client.phase with
  | unread => trivial
  | reading c | replaying rest last c =>
    rw [hp] at hb
    exact hb
  | live =>
    rw [hp] at hb
    have hread : b.client.phase ≠ .unread := by
      rw [hp]
      simp
    exact ⟨hb.1, fun sid => (hb.2 sid).publish _ h hread hno⟩
  | ended why =>
    rw [hp] at hb
    have hread : b.client.phase ≠ .unread := by
      rw [hp]
      simp
    refine ⟨hb.1, fun sid => ?_⟩
    rw [published_publish h hread, ofSession_append]
    exact (hb.2 sid).trans (List.prefix_append _ _)

/-- A step that changes neither the log nor what the client has received. -/
theorem PlainAt.shrink (hb : PlainAt sub b) {b' : SseBroker} (hs : Shrinks b b')
    (hphase : b'.client.phase = b.client.phase) (hposition : b'.client.position = b.client.position)
    (hdelivered : b'.client.delivered = b.client.delivered)
    (hskipped : b'.client.skipped = b.client.skipped) (hlog : b'.log = b.log)
    (hsince : b'.since = b.since) : PlainAt sub b' := by
  have hreceived : b'.received = b.received := by
    unfold received
    rw [hdelivered]
  have hpublished : b'.published sub = b.published sub := by
    unfold published
    rw [hlog, hsince]
  obtain ⟨hskip, hb⟩ := hb
  refine ⟨hskipped.trans hskip, ?_⟩
  rw [hphase, hposition, hreceived, hpublished]
  cases hp : b.client.phase with
  | unread => trivial
  | reading c | replaying rest last c | ended why =>
    rw [hp] at hb
    exact hb
  | live =>
    rw [hp] at hb
    refine ⟨hb.1, fun sid => ?_⟩
    exact (hb.2 sid).shrink hs (fun fs => ofSession sid (loggedOf fs))
      fun xs ys => by rw [loggedOf_append, ofSession_append]

theorem PlainAt.end_ (hb : PlainAt sub b) (hp : b.client.phase = .live) (sid : String) :
    ofSession sid b.received <+: ofSession sid (b.published sub) := by
  obtain ⟨-, hb⟩ := hb
  rw [hp] at hb
  exact (List.prefix_append _ _).trans (hb.2 sid).1

variable (kind) in
theorem PlainAt.read (hb : PlainAt sub b) (h : Grounded queueSize sub b)
    (hparse : parseEventId u sub.lastEventId = .ok none) : PlainAt sub (b.read kind u sub) := by
  have hall := hb
  obtain ⟨hskip, hb⟩ := hb
  unfold SseBroker.read
  cases hp : b.client.phase with
  | unread =>
    have hfresh := (h.unread hp).2
    have hsub : b.subscribe u sub =
        { b with since := some b.log.length, client := { phase := .live } } := by
      unfold SseBroker.subscribe
      rw [hparse, hfresh]
    rw [hsub]
    refine ⟨rfl, rfl, fun sid => .of_eq _ ?_⟩
    simp [received, loggedOf, pending, framesOf, published, ofSession]
  | reading c | replaying rest last c =>
    rw [hp] at hb
    exact absurd hb id
  | ended why =>
    exact hall
  | live =>
    have hend := hall.end_ hp
    rw [hp] at hb
    dsimp only
    unfold SseBroker.next
    cases hqueue : b.client.queue with
    | nil => exact hall
    | cons item queue =>
      cases item with
      | dropped | closed => exact ⟨hskip, by simp, hend⟩
      | frame f =>
        have hkey : ¬ b.client.position.any (keyLe f.key) = true := by
          rw [hb.1]
          simp
        dsimp only
        rw [if_neg hkey]
        refine ⟨hskip, ?_⟩
        dsimp only
        rw [hp]
        refine ⟨hb.1, fun sid => ?_⟩
        have hframes : pending b.client =
            [f] ++ (framesOf queue ++ if b.client.active then b.client.scheduled else []) := by
          unfold pending
          rw [hqueue]
          rfl
        have hflows := hb.2 sid
        rw [hframes, loggedOf_append, ofSession_append, ← List.append_assoc] at hflows
        show Flows b.serving (ofSession sid (loggedOf (b.client.delivered ++ [f])) ++ _) _
        rw [loggedOf_append, ofSession_append]
        exact hflows

theorem PlainAt.stop (hb : PlainAt sub b) : PlainAt sub b.stop := by
  have hall := hb
  unfold SseBroker.stop
  cases hp : b.client.phase with
  | unread | ended why => exact hall
  | reading c | replaying rest last c =>
    rw [PlainAt, hp] at hb
    exact absurd hb.2 id
  | live => exact ⟨hb.1, by simp, hall.end_ hp⟩

/-! ## A client that resumes from a position in its session -/

section Replay

variable {sid : String} {start : Nat}

/-- The events of a session after a sequence that a subscription is for. -/
def wanted (sub : Subscription) (sid : String) (start : Nat) (b : SseBroker) : List LoggedEvent :=
  (beyond LoggedEvent.sequence start (b.chain sid)).filter fun e => sub.acceptsAudit e.event

/-- A sequence that the session has come to, or the start. -/
def ComesTo (sid : String) (start : Nat) (b : SseBroker) (n : Nat) : Prop :=
  start ≤ n ∧ (n = start ∨ ∃ e ∈ b.chain sid, e.sequence = n)

/-- The position is that of the last event received, or the start. -/
def AtLast (start : Nat) (b : SseBroker) : Prop :=
  ∃ p, b.client.position = some p ∧ p.1 = b.received.getLast?.elim start LoggedEvent.sequence

/-- Where a client stands that resumes from a position. -/
def ReplayAt (sub : Subscription) (sid : String) (start : Nat) (b : SseBroker) : Prop :=
  (∀ f ∈ b.client.skipped, sub.accepts f.event = true ∧
    (∃ p ∈ b.client.position, keyLe f.key p = true) ∧
    ∀ e, f = .logged e → f ∈ b.client.delivered ∨ e.sequence ≤ start) ∧
    match b.client.phase with
    | .unread => True
    | .reading c => b.client.skipped = [] ∧ ComesTo sid start b c ∧ AtLast start b ∧
        b.received = upTo LoggedEvent.sequence c (wanted sub sid start b) ∧
        Flows b.serving (ofSession sid (loggedOf (pending b.client))) (ofSession sid (b.published sub))
    | .replaying rest last c => b.client.skipped = [] ∧ ComesTo sid start b c ∧ AtLast start b ∧
        b.received ++ rest.filter (fun e => sub.acceptsAudit e.event) =
          upTo LoggedEvent.sequence c (wanted sub sid start b) ∧
        Flows b.serving (ofSession sid (loggedOf (pending b.client)))
          (ofSession sid (b.published sub)) ∧
        (∀ e ∈ rest, e.event.sessionId = sid) ∧
        (last = true → ∀ e ∈ b.log.take (b.since.getD b.log.length),
          e.event.sessionId = sid → e.sequence ≤ c)
    | .live => ∃ p, b.client.position = some p ∧ ComesTo sid start b p.1 ∧
        (∀ e ∈ wanted sub sid start b, e.sequence ≤ p.1 → e ∈ b.received) ∧
        Flows b.serving
          (b.received ++ beyond LoggedEvent.sequence p.1
            (ofSession sid (loggedOf (pending b.client)))) (wanted sub sid start b)
    | .ended why => why ≠ .raised ∧ b.received <+: wanted sub sid start b

theorem accepts_iff (hsid : sub.sessionId = some sid) (e : BusEvent) :
    sub.accepts e = true ↔ e.sessionId = sid ∧ sub.acceptsAudit e = true := by
  unfold Subscription.accepts
  rw [hsid]
  simp

theorem numbered_wanted (h : Grounded queueSize sub b) :
    Numbered LoggedEvent.sequence (wanted sub sid start b) :=
  ((h.numbered sid).filter _).filter _

theorem wanted_publish (h : Grounded queueSize sub b) (hsid : sub.sessionId = some sid) (e : BusEvent)
    (publisher : Publisher) :
    wanted sub sid start (b.publish queueSize sub e publisher) =
      wanted sub sid start b ++
        beyond LoggedEvent.sequence start (if sub.accepts e then b.appended e else []) := by
  obtain ⟨hlog, -, -, -⟩ := publish_spec queueSize sub b e publisher
  unfold wanted chain
  rw [hlog, List.filter_append, beyond_append, List.filter_append]
  congr 1
  unfold beyond
  rw [List.filter_filter, List.filter_filter]
  split
  · rename_i hacc
    obtain ⟨hsession, haudit⟩ := (accepts_iff hsid e).1 hacc
    refine List.filter_congr fun x hx => ?_
    rw [(appended_fresh h e x hx).1]
    simp [hsession, haudit]
  · rename_i hacc
    rw [List.filter_nil]
    refine List.filter_eq_nil_iff.2 fun x hx => ?_
    rw [(appended_fresh h e x hx).1]
    intro hall
    simp only [Bool.and_eq_true, decide_eq_true_eq] at hall
    exact hacc ((accepts_iff hsid e).2 ⟨hall.2, hall.1.1⟩)

/-- A sequence that the session has come to is before every event published later. -/
theorem ComesTo.lt_appended {n : Nat} (hn : ComesTo sid start b n) (h : Grounded queueSize sub b)
    (hsid : sub.sessionId = some sid) {e : BusEvent} {x : LoggedEvent} (hacc : sub.accepts e = true)
    (hx : x ∈ b.appended e) : n < x.sequence ↔ start < x.sequence := by
  obtain ⟨hle, rfl | ⟨y, hy, rfl⟩⟩ := hn
  · exact Iff.rfl
  · have hsession := ((accepts_iff hsid e).1 hacc).1
    have hlt := (appended_fresh h e x hx).2.2 y (hsession ▸ hy)
    omega

theorem ComesTo.beyond_appended {n : Nat} (hn : ComesTo sid start b n) (h : Grounded queueSize sub b)
    (hsid : sub.sessionId = some sid) (e : BusEvent) :
    beyond LoggedEvent.sequence n (if sub.accepts e then b.appended e else []) =
      beyond LoggedEvent.sequence start (if sub.accepts e then b.appended e else []) := by
  split
  · rename_i hacc
    refine List.filter_congr fun x hx => ?_
    simp [hn.lt_appended h hsid hacc hx]
  · rfl

theorem upTo_wanted_publish (h : Grounded queueSize sub b) (hsid : sub.sessionId = some sid)
    {n : Nat} (hn : ComesTo sid start b n) (e : BusEvent) (publisher : Publisher) :
    upTo LoggedEvent.sequence n (wanted sub sid start (b.publish queueSize sub e publisher)) =
      upTo LoggedEvent.sequence n (wanted sub sid start b) := by
  rw [wanted_publish h hsid, upTo_append, ← hn.beyond_appended h hsid]
  rw [upTo_eq_nil fun x hx => (mem_beyond.1 hx).2, List.append_nil]

theorem ComesTo.publish {n : Nat} (hn : ComesTo sid start b n) (e : BusEvent) (publisher : Publisher) :
    ComesTo sid start (b.publish queueSize sub e publisher) n := by
  obtain ⟨hlog, -, -, -⟩ := publish_spec queueSize sub b e publisher
  refine ⟨hn.1, hn.2.imp id ?_⟩
  rintro ⟨x, hx, rfl⟩
  refine ⟨x, ?_, rfl⟩
  unfold chain at hx ⊢
  rw [hlog, List.filter_append]
  exact List.mem_append_left _ hx

theorem ReplayAt.publish (hb : ReplayAt sub sid start b) (h : Grounded queueSize sub b)
    (hsid : sub.sessionId = some sid) {e : BusEvent} {publisher : Publisher}
    (hno : ¬ b.Overtakes sub (.publish e publisher)) :
    ReplayAt sub sid start (b.publish queueSize sub e publisher) := by
  obtain ⟨hphase, hposition, hdelivered, hskipped⟩ :=
    frame_publish h e publisher
  obtain ⟨hlog, hsince, -, -⟩ := publish_spec queueSize sub b e publisher
  have hreceived : (b.publish queueSize sub e publisher).received = b.received := by
    unfold received
    rw [hdelivered]
  have hat : AtLast start b → AtLast start (b.publish queueSize sub e publisher) := by
    unfold AtLast
    rw [hposition, hreceived]
    exact id
  have hflows : b.client.phase ≠ .unread →
      Flows b.serving (ofSession sid (loggedOf (pending b.client))) (ofSession sid (b.published sub)) →
      Flows (b.publish queueSize sub e publisher).serving
        (ofSession sid (loggedOf (pending (b.publish queueSize sub e publisher).client)))
        (ofSession sid ((b.publish queueSize sub e publisher).published sub)) :=
    fun hread hf => Flows.publish [] h hread hno hf
  obtain ⟨hskip, hb⟩ := hb
  refine ⟨by rw [hskipped, hdelivered, hposition]; exact hskip, ?_⟩
  rw [hphase, hposition, hreceived]
  cases hp : b.client.phase with
  | unread => trivial
  | reading c =>
    rw [hp] at hb
    obtain ⟨hnone, hc, hlast, hup, hf⟩ := hb
    refine ⟨hskipped.trans hnone, hc.publish e publisher, hat hlast, ?_, hflows (by rw [hp]; simp) hf⟩
    rw [upTo_wanted_publish h hsid hc]
    exact hup
  | replaying rest last c =>
    rw [hp] at hb
    obtain ⟨hnone, hc, hlast, hup, hf, hrest, hold⟩ := hb
    have hread : b.client.phase ≠ .unread := by
      rw [hp]
      simp
    obtain ⟨n, hn, hle⟩ := h.registered hread
    refine ⟨hskipped.trans hnone, hc.publish e publisher, hat hlast, ?_, hflows hread hf, hrest, ?_⟩
    · rw [upTo_wanted_publish h hsid hc]
      exact hup
    · rw [hn] at hold
      rw [hlog, hsince, hn, Option.getD_some, List.take_append_of_le_length hle]
      exact hold
  | live =>
    rw [hp] at hb
    obtain ⟨p, hpos, hc, hbefore, hf⟩ := hb
    obtain ⟨n, hn, -⟩ := h.registered (by rw [hp]; simp)
    have hreg : b.since ≠ none := by simp [hn]
    refine ⟨p, hpos, hc.publish e publisher, fun x hx hle => ?_, ?_⟩
    · rw [wanted_publish h hsid, ← hc.beyond_appended h hsid] at hx
      rcases List.mem_append.1 hx with hx | hx
      · exact hbefore x hx hle
      · exact absurd (mem_beyond.1 hx).2 (Nat.not_lt.2 hle)
    · rw [wanted_publish h hsid, ← hc.beyond_appended h hsid]
      by_cases hserving : b.serving = true
      · by_cases hacc : sub.accepts e = true
        · rw [if_pos hacc]
          have hsession := ((accepts_iff hsid e).1 hacc).1
          have hall : ofSession sid (b.appended e) = b.appended e :=
            List.filter_eq_self.2 fun x hx => by
              rw [(appended_fresh h e x hx).1, hsession]
              simp
          rcases pending_publish h hno hserving hreg hacc sid with ⟨-, hsame⟩ | ⟨hs, rest, hrest⟩
          · rw [hsame, beyond_append, hall, ← List.append_assoc]
            exact .of_eq _ (by rw [hf.2 hserving])
          · refine (hf.stopped ?_ hs).more hs _
            rw [← hrest, loggedOf_append, ofSession_append, beyond_append, ← List.append_assoc]
            exact List.prefix_append _ _
        · obtain ⟨hclient, hs⟩ := client_publish queueSize sub publisher (b := b) (e := e) fun ht => hacc ht.2.2
          rw [if_neg hacc, hclient, hs]
          simpa [beyond] using hf
      · obtain ⟨hclient, hs⟩ := client_publish queueSize sub publisher (b := b) (e := e) fun ht => hserving ht.1
        have hno' : b.serving = false := by simpa using hserving
        rw [hclient, hs]
        exact hf.more hno' _
  | ended why =>
    rw [hp] at hb
    refine ⟨hb.1, hb.2.trans ?_⟩
    rw [wanted_publish h hsid]
    exact List.prefix_append _ _

theorem ReplayAt.shrink (hb : ReplayAt sub sid start b) {b' : SseBroker} (hs : Shrinks b b')
    (hphase : b'.client.phase = b.client.phase) (hposition : b'.client.position = b.client.position)
    (hdelivered : b'.client.delivered = b.client.delivered)
    (hskipped : b'.client.skipped = b.client.skipped) (hlog : b'.log = b.log)
    (hsince : b'.since = b.since) : ReplayAt sub sid start b' := by
  have hreceived : b'.received = b.received := by
    unfold received
    rw [hdelivered]
  have hpublished : b'.published sub = b.published sub := by
    unfold published
    rw [hlog, hsince]
  have hchain : b'.chain sid = b.chain sid := by
    unfold chain
    rw [hlog]
  have hwanted : wanted sub sid start b' = wanted sub sid start b := by
    unfold wanted
    rw [hchain]
  have hflows : ∀ (es : List LoggedEvent) {fs : List LoggedEvent} (n : Option Nat),
      Flows b.serving (es ++ (n.elim id (beyond LoggedEvent.sequence))
        (ofSession sid (loggedOf (pending b.client)))) fs →
      Flows b'.serving (es ++ (n.elim id (beyond LoggedEvent.sequence))
        (ofSession sid (loggedOf (pending b'.client)))) fs := by
    intro es fs n hf
    refine hf.shrink hs (fun fs => (n.elim id (beyond LoggedEvent.sequence))
      (ofSession sid (loggedOf fs))) fun xs ys => ?_
    rw [loggedOf_append, ofSession_append]
    cases n with
    | none => rfl
    | some n => exact beyond_append _ _
  obtain ⟨hskip, hb⟩ := hb
  refine ⟨by rw [hskipped, hdelivered, hposition]; exact hskip, ?_⟩
  unfold ComesTo AtLast at hb ⊢
  rw [hphase, hposition, hreceived, hpublished, hwanted, hchain, hlog, hsince]
  cases hp : b.client.phase with
  | unread => trivial
  | ended why =>
    rw [hp] at hb
    exact hb
  | reading c =>
    rw [hp] at hb
    exact ⟨hskipped.trans hb.1, hb.2.1, hb.2.2.1, hb.2.2.2.1, hflows [] none hb.2.2.2.2⟩
  | replaying rest last c =>
    rw [hp] at hb
    exact ⟨hskipped.trans hb.1, hb.2.1, hb.2.2.1, hb.2.2.2.1, hflows [] none hb.2.2.2.2.1,
      hb.2.2.2.2.2⟩
  | live =>
    rw [hp] at hb
    obtain ⟨p, hpos, hc, hbefore, hf⟩ := hb
    exact ⟨p, hpos, hc, hbefore, hflows _ (some p.1) hf⟩

/-! ### The replay -/

/-- The events of a page are those of the session up to its last one. -/
theorem page_eq_upTo (h : Grounded queueSize sub b) (c : Nat) :
    b.eventsAfter sid c replayPageSize =
      upTo LoggedEvent.sequence
        ((b.eventsAfter sid c replayPageSize).getLast?.elim c LoggedEvent.sequence)
        (beyond LoggedEvent.sequence c (b.chain sid)) := by
  cases hlast : (b.eventsAfter sid c replayPageSize).getLast? with
  | none =>
    rw [List.getLast?_eq_none_iff.1 hlast, Option.elim_none]
    exact (upTo_eq_nil fun x hx => (mem_beyond.1 hx).2).symm
  | some x =>
    have hnumbered : Numbered LoggedEvent.sequence (beyond LoggedEvent.sequence c (b.chain sid)) :=
      (h.numbered sid).filter _
    exact (cut_at hnumbered hlast).1.symm

theorem mem_page {c : Nat} {e : LoggedEvent} (he : e ∈ b.eventsAfter sid c replayPageSize) :
    e ∈ b.chain sid ∧ c < e.sequence := mem_beyond.1 (List.mem_of_mem_take he)

theorem le_next (b : SseBroker) (sid : String) (c : Nat) :
    c ≤ (b.eventsAfter sid c replayPageSize).getLast?.elim c LoggedEvent.sequence := by
  cases hlast : (b.eventsAfter sid c replayPageSize).getLast? with
  | none => exact Nat.le_refl c
  | some x => exact Nat.le_of_lt (mem_page (List.mem_of_getLast? hlast)).2

theorem ComesTo.next {c : Nat} (hc : ComesTo sid start b c) :
    ComesTo sid start b
      ((b.eventsAfter sid c replayPageSize).getLast?.elim c LoggedEvent.sequence) := by
  cases hlast : (b.eventsAfter sid c replayPageSize).getLast? with
  | none => exact hc
  | some x =>
    obtain ⟨hx, hlt⟩ := mem_page (List.mem_of_getLast? hlast)
    exact ⟨Nat.le_trans hc.1 (Nat.le_of_lt hlt), .inr ⟨x, hx, rfl⟩⟩

/-- What is wanted beyond a sequence after the start. -/
theorem beyond_wanted {c : Nat} (hc : start ≤ c) :
    beyond LoggedEvent.sequence c (wanted sub sid start b) =
      (beyond LoggedEvent.sequence c (b.chain sid)).filter fun e => sub.acceptsAudit e.event := by
  rw [← beyond_beyond (l := b.chain sid) hc]
  unfold wanted beyond
  simp only [List.filter_filter]
  refine List.filter_congr fun x _ => ?_
  cases sub.acceptsAudit x.event <;> simp

/-- The page goes on from the events up to the cursor. -/
theorem upTo_next (h : Grounded queueSize sub b) {c : Nat} (hc : start ≤ c) :
    upTo LoggedEvent.sequence c (wanted sub sid start b) ++
        (b.eventsAfter sid c replayPageSize).filter (fun e => sub.acceptsAudit e.event) =
      upTo LoggedEvent.sequence
        ((b.eventsAfter sid c replayPageSize).getLast?.elim c LoggedEvent.sequence)
        (wanted sub sid start b) := by
  have hcomm : ∀ n (l : List LoggedEvent),
      upTo LoggedEvent.sequence n (l.filter fun e => sub.acceptsAudit e.event) =
        (upTo LoggedEvent.sequence n l).filter fun e => sub.acceptsAudit e.event := by
    intro n l
    unfold upTo
    rw [List.filter_filter, List.filter_filter]
    exact List.filter_congr fun x _ => Bool.and_comm _ _
  rw [← upTo_append_upTo (numbered_wanted h) (le_next b sid c), beyond_wanted hc, hcomm,
    ← page_eq_upTo h c]

/-- After a short page there are no more events of the session. -/
theorem le_next_of_short (h : Grounded queueSize sub b) {c : Nat}
    (hshort : (b.eventsAfter sid c replayPageSize).length < replayPageSize)
    {e : LoggedEvent} (he : e ∈ b.chain sid) :
    e.sequence ≤ (b.eventsAfter sid c replayPageSize).getLast?.elim c LoggedEvent.sequence := by
  by_cases hc : e.sequence ≤ c
  · exact Nat.le_trans hc (le_next b sid c)
  · have hall : b.eventsAfter sid c replayPageSize =
        beyond LoggedEvent.sequence c (b.chain sid) := by
      have hshort' := hshort
      unfold eventsAfter at hshort' ⊢
      rw [List.length_take] at hshort'
      exact List.take_of_length_le (by omega)
    have hmem : e ∈ b.eventsAfter sid c replayPageSize := by
      rw [hall]
      exact mem_beyond.2 ⟨he, by omega⟩
    rw [page_eq_upTo h c] at hmem
    exact (mem_upTo.1 hmem).2

/-- The store takes the number of every event in the log. -/
def Numberable (kind : StoreKind) (b : SseBroker) : Prop := ∀ e ∈ b.log, kind.Binds e.sequence

/-- A page is read if the store takes the position that the client starts from: a later page starts
behind an event of the log. -/
theorem listAuditEvents_eq (hn : Numberable kind b) (hstart : kind.Binds start) {c : Nat}
    (hc : ComesTo sid start b c) : b.listAuditEvents kind sid c replayPageSize =
      .ok (b.eventsAfter sid c replayPageSize) := by
  have hcursor : kind.Binds c := by
    rcases hc.2 with rfl | ⟨x, hx, rfl⟩
    · exact hstart
    · exact hn x (List.mem_filter.1 hx).1
  exact if_pos ⟨hcursor, fun _ => by decide⟩

theorem ReplayAt.readPage (h : Grounded queueSize sub b) (hnum : Numberable kind b)
    (hsid : sub.sessionId = some sid) (hstart : kind.Binds start) {c : Nat}
    (hp : b.client.phase = .reading c) (hb : ReplayAt sub sid start b) :
    ReplayAt sub sid start (b.readPage kind sub c) := by
  obtain ⟨hskip, hb⟩ := hb
  rw [hp] at hb
  obtain ⟨hnone, hc, hlast, hup, hf⟩ := hb
  obtain ⟨n, hn, hle⟩ := h.registered (by rw [hp]; simp)
  unfold SseBroker.readPage
  rw [hsid, Option.getD_some, listAuditEvents_eq hnum hstart hc]
  refine ⟨hskip, hnone, hc.next, hlast, ?_, hf, fun e he => ?_, fun hshort e he hes => ?_⟩
  · show b.received ++ _ = _
    rw [hup]
    exact upTo_next h hc.1
  · simpa using (List.mem_filter.1 (mem_page he).1).2
  · refine le_next_of_short h (by simpa using hshort) ?_
    exact List.mem_filter.2 ⟨List.mem_of_mem_take he, by simpa using hes⟩

/-- What was published since the registration is what is wanted beyond a sequence that no earlier
event of the session is beyond. -/
theorem beyond_published (hsid : sub.sessionId = some sid) {c : Nat} (hc : start ≤ c)
    (hold : ∀ e ∈ b.log.take (b.since.getD b.log.length), e.event.sessionId = sid → e.sequence ≤ c) :
    beyond LoggedEvent.sequence c (ofSession sid (b.published sub)) =
      beyond LoggedEvent.sequence c (wanted sub sid start b) := by
  rw [beyond_wanted hc]
  have hsplit : b.chain sid = ofSession sid (b.log.take (b.since.getD b.log.length)) ++
      ofSession sid (b.log.drop (b.since.getD b.log.length)) := by
    rw [← ofSession_append, List.take_append_drop]
    rfl
  have hearlier : beyond LoggedEvent.sequence c
      (ofSession sid (b.log.take (b.since.getD b.log.length))) = [] := by
    refine beyond_eq_nil fun x hx => ?_
    obtain ⟨hx, hs⟩ := List.mem_filter.1 hx
    exact hold x hx (by simpa using hs)
  rw [hsplit, beyond_append, hearlier, List.nil_append]
  unfold published ofSession beyond
  simp only [List.filter_filter]
  refine List.filter_congr fun x _ => ?_
  have hiff := accepts_iff hsid x.event
  rw [Bool.eq_iff_iff]
  simp only [Bool.and_eq_true, decide_eq_true_eq, hiff]
  tauto

/-- The replay comes to its end. -/
theorem ReplayAt.goLive (h : Grounded queueSize sub b) (hsid : sub.sessionId = some sid)
    {c : Nat} (hp : b.client.phase = .replaying [] true c) (hb : ReplayAt sub sid start b) :
    ReplayAt sub sid start { b with client := { b.client with phase := .live } } := by
  obtain ⟨hskip, hb⟩ := hb
  rw [hp] at hb
  obtain ⟨-, hc, ⟨p, hpos, hpl⟩, hup, hf, -, hold⟩ := hb
  rw [List.filter_nil, List.append_nil] at hup
  have hnumbered : Numbered LoggedEvent.sequence b.received := by
    rw [hup]
    exact (numbered_wanted h).filter _
  have hreceived : ∀ x ∈ b.received, x ∈ wanted sub sid start b ∧ x.sequence ≤ c ∧
      x.sequence ≤ p.1 := by
    intro x hx
    obtain ⟨hw, hxc⟩ := mem_upTo.1 (hup ▸ hx)
    refine ⟨hw, hxc, ?_⟩
    cases hlast : b.received.getLast? with
    | none => rw [List.getLast?_eq_none_iff.1 hlast] at hx; cases hx
    | some y =>
      rw [hlast] at hpl
      rw [hpl]
      exact hnumbered.le_last hlast x hx
  have hcome : ComesTo sid start b p.1 ∧ p.1 ≤ c := by
    cases hlast : b.received.getLast? with
    | none =>
      rw [hlast] at hpl
      exact ⟨⟨Nat.le_of_eq hpl.symm, .inl hpl⟩, hpl ▸ hc.1⟩
    | some y =>
      rw [hlast] at hpl
      obtain ⟨hw, hyc, -⟩ := hreceived y (List.mem_of_getLast? hlast)
      obtain ⟨hchain, hlt⟩ := mem_beyond.1 (List.mem_filter.1 hw).1
      have hpl : p.1 = y.sequence := hpl
      exact ⟨⟨hpl ▸ Nat.le_of_lt hlt, .inr ⟨y, hchain, hpl.symm⟩⟩, hpl ▸ hyc⟩
  have hbefore : ∀ e ∈ wanted sub sid start b, e.sequence ≤ p.1 → e ∈ b.received := by
    intro e he hle
    rw [hup]
    exact mem_upTo.2 ⟨he, Nat.le_trans hle hcome.2⟩
  refine ⟨hskip, p, hpos, hcome.1, hbefore, ?_⟩
  -- an event on its way that is not beyond the last page has been received
  have hsame : beyond LoggedEvent.sequence p.1 (ofSession sid (loggedOf (pending b.client))) =
      beyond LoggedEvent.sequence c (ofSession sid (loggedOf (pending b.client))) := by
    refine List.filter_congr fun x hx => ?_
    obtain ⟨hpub, hxs⟩ := List.mem_filter.1 (hf.1.subset hx)
    obtain ⟨hlog, hacc⟩ := List.mem_filter.1 hpub
    by_cases hxc : c < x.sequence
    · simp [hxc, Nat.lt_of_le_of_lt hcome.2 hxc]
    · have hno : ¬ p.1 < x.sequence := by
        intro hlt
        have hw : x ∈ wanted sub sid start b := by
          refine List.mem_filter.2 ⟨mem_beyond.2 ⟨?_, Nat.lt_of_le_of_lt hcome.1.1 hlt⟩, ?_⟩
          · exact List.mem_filter.2 ⟨List.mem_of_mem_drop hlog, hxs⟩
          · exact ((accepts_iff hsid _).1 hacc).2
        have hmem : x ∈ b.received := by
          rw [hup]
          exact mem_upTo.2 ⟨hw, by omega⟩
        have := (hreceived x hmem).2.2
        omega
      simp [hxc, hno]
  have hwanted : wanted sub sid start b =
      b.received ++ beyond LoggedEvent.sequence c (ofSession sid (b.published sub)) := by
    rw [beyond_published hsid hc.1 (hold rfl), hup]
    exact (upTo_append_beyond (numbered_wanted h) c).symm
  show Flows b.serving (b.received ++
    beyond LoggedEvent.sequence p.1 (ofSession sid (loggedOf (pending b.client))))
    (wanted sub sid start b)
  rw [hsame, hwanted]
  exact ⟨(List.prefix_append_right_inj _).2 (hf.1.filter _), fun hs => by rw [hf.2 hs]⟩

theorem ReplayAt.replayNext (h : Grounded queueSize sub b) (hsid : sub.sessionId = some sid)
    {rest : List LoggedEvent} {last : Bool} {c : Nat}
    (hp : b.client.phase = .replaying rest last c) (hb : ReplayAt sub sid start b) :
    ReplayAt sub sid start (b.replayNext sub rest last c) := by
  have hall := hb
  obtain ⟨hskip, hb⟩ := hb
  rw [hp] at hb
  obtain ⟨hnone, hc, hlast, hup, hf, hrest, hold⟩ := hb
  unfold SseBroker.replayNext
  cases rest with
  | nil =>
    cases last with
    | true => exact hall.goLive h hsid hp
    | false =>
      rw [List.filter_nil, List.append_nil] at hup
      exact ⟨hskip, hnone, hc, hlast, hup, hf⟩
  | cons e rest =>
    have hrest' : ∀ x ∈ rest, x.event.sessionId = sid := fun x hx => hrest x (List.mem_cons_of_mem e hx)
    dsimp only
    split
    · rename_i hacc
      have hreceived : loggedOf (b.client.delivered ++ [.logged e]) = b.received ++ [e] :=
        loggedOf_append _ _
      rw [List.filter_cons_of_pos (p := fun e : LoggedEvent => sub.acceptsAudit e.event) hacc] at hup
      refine ⟨?_, hnone, hc, ⟨_, rfl, ?_⟩, ?_, hf, hrest', hold⟩
      · show ∀ f ∈ b.client.skipped, _
        rw [hnone]
        exact fun f hf => by cases hf
      · show e.sequence = (loggedOf (b.client.delivered ++ [.logged e])).getLast?.elim start _
        rw [hreceived, List.getLast?_append]
        rfl
      · show loggedOf (b.client.delivered ++ [.logged e]) ++ _ = _
        rw [hreceived, List.append_assoc]
        exact hup
    · rename_i hacc
      rw [List.filter_cons_of_neg (p := fun e : LoggedEvent => sub.acceptsAudit e.event) hacc] at hup
      exact ⟨hskip, hnone, hc, hlast, hup, hf, hrest', hold⟩


theorem keyLe_logged {e : LoggedEvent} {p : Nat × Nat} :
    keyLe (SseFrame.logged e).key p = true ↔ e.sequence ≤ p.1 := by
  unfold keyLe SseFrame.key
  simp only [Bool.or_eq_true, Bool.and_eq_true, decide_eq_true_eq]
  omega

/-- The next item of the queue. -/
theorem ReplayAt.next (h : Grounded queueSize sub b) (hsid : sub.sessionId = some sid)
    (hp : b.client.phase = .live) (hb : ReplayAt sub sid start b) : ReplayAt sub sid start b.next := by
  have hall := hb
  obtain ⟨hskip, hb⟩ := hb
  rw [hp] at hb
  obtain ⟨p, hpos, hc, hbefore, hf⟩ := hb
  unfold SseBroker.next
  cases hqueue : b.client.queue with
  | nil => exact hall
  | cons item queue =>
    cases item with
    | dropped | closed => exact ⟨hskip, by simp, (List.prefix_append _ _).trans hf.1⟩
    | frame f =>
      have hmem : f ∈ framesOf b.client.queue := by
        rw [hqueue]
        exact List.mem_cons_self
      have hacc : sub.accepts f.event = true := h.accepted f (by simp [hmem])
      have hsession := (accepts_iff hsid _).1 hacc
      have hframes : pending b.client =
          [f] ++ (framesOf queue ++ if b.client.active then b.client.scheduled else []) := by
        unfold pending
        rw [hqueue]
        rfl
      rw [hframes, loggedOf_append, ofSession_append, beyond_append, ← List.append_assoc] at hf
      dsimp only
      split
      · rename_i hkey
        rw [hpos, Option.any_some] at hkey
        -- what is skipped is not beyond the position
        have hnone : beyond LoggedEvent.sequence p.1 (ofSession sid (loggedOf [f])) = [] := by
          cases f with
          | live _ _ _ => rfl
          | logged e =>
            refine beyond_eq_nil fun x hx => ?_
            rw [List.mem_singleton.1 (List.mem_filter.1 hx).1]
            exact keyLe_logged.1 hkey
        rw [hnone, List.append_nil] at hf
        refine ⟨fun g hg => ?_, ?_⟩
        · rcases List.mem_append.1 hg with hg | hg
          · exact hskip g hg
          · obtain rfl := List.mem_singleton.1 hg
            refine ⟨hacc, ⟨p, hpos, hkey⟩, ?_⟩
            rintro e rfl
            by_cases hstart : e.sequence ≤ start
            · exact .inr hstart
            · have hlog : e ∈ b.log := h.stored e (mem_loggedOf.2 (List.mem_append_left _ hmem))
              have hw : e ∈ wanted sub sid start b := by
                refine List.mem_filter.2 ⟨mem_beyond.2 ⟨?_, by omega⟩, hsession.2⟩
                have hses : e.event.sessionId = sid := hsession.1
                exact List.mem_filter.2 ⟨hlog, by simpa using hses⟩
              exact .inl (mem_loggedOf.1 (hbefore e hw (keyLe_logged.1 hkey)))
        · dsimp only
          rw [hp]
          exact ⟨p, hpos, hc, hbefore, hf⟩
      · rename_i hkey
        rw [hpos, Option.any_some] at hkey
        have hone : beyond LoggedEvent.sequence p.1 (ofSession sid (loggedOf [f])) = loggedOf [f] := by
          cases f with
          | live _ _ _ => rfl
          | logged e =>
            have hlt : p.1 < e.sequence := Nat.lt_of_not_le fun hle => hkey (keyLe_logged.2 hle)
            have hses : e.event.sessionId = sid := hsession.1
            show beyond _ _ (ofSession sid [e]) = [e]
            unfold ofSession beyond
            simp [hses, hlt]
        rw [hone] at hf
        have hreceived : loggedOf (b.client.delivered ++ [f]) = b.received ++ loggedOf [f] :=
          loggedOf_append _ _
        refine ⟨fun g hg => ?_, ?_⟩
        · obtain ⟨ha, hle, hin⟩ := hskip g hg
          exact ⟨ha, hle, fun e he => (hin e he).imp (List.mem_append_left _) id⟩
        · dsimp only
          rw [hp]
          refine ⟨p, hpos, hc, fun e he hle => ?_, ?_⟩
          · show e ∈ loggedOf (b.client.delivered ++ [f])
            rw [hreceived]
            exact List.mem_append_left _ (hbefore e he hle)
          · show Flows b.serving (loggedOf (b.client.delivered ++ [f]) ++ _) _
            rw [hreceived]
            exact hf

theorem ReplayAt.subscribe (h : Grounded queueSize sub b) (hsid : sub.sessionId = some sid)
    {p : Nat × Nat} (hparse : parseEventId u sub.lastEventId = .ok (some p))
    (hp : b.client.phase = .unread) : ReplayAt sub sid p.1 (b.subscribe u sub) := by
  have hfresh := (h.unread hp).2
  have hb : b.subscribe u sub = { b with
      since := some b.log.length
      client := { phase := .reading p.1, position := some p } } := by
    unfold SseBroker.subscribe
    rw [hparse, hfresh, hsid]
  rw [hb]
  refine ⟨fun f hf => (by cases hf), rfl, ⟨Nat.le_refl _, .inl rfl⟩, ⟨p, rfl, rfl⟩, ?_, .of_eq _ ?_⟩
  · refine (upTo_eq_nil fun x hx => ?_).symm
    exact (mem_beyond.1 (List.mem_filter.1 hx).1).2
  · simp [loggedOf, pending, framesOf, published, ofSession]

theorem ReplayAt.read (h : Grounded queueSize sub b) (hnum : Numberable kind b)
    (hsid : sub.sessionId = some sid) {p : Nat × Nat}
    (hparse : parseEventId u sub.lastEventId = .ok (some p)) (hstart : kind.Binds p.1)
    (hb : ReplayAt sub sid p.1 b) : ReplayAt sub sid p.1 (b.read kind u sub) := by
  unfold SseBroker.read
  cases hp : b.client.phase with
  | unread => exact ReplayAt.subscribe h hsid hparse hp
  | reading c => exact ReplayAt.readPage h hnum hsid hstart hp hb
  | replaying rest last c => exact ReplayAt.replayNext h hsid hp hb
  | live => exact ReplayAt.next h hsid hp hb
  | ended why => exact hb

/-- Wherever the client stands, it has received the start of what it is promised. -/
theorem ReplayAt.prefix (h : Grounded queueSize sub b) (hb : ReplayAt sub sid start b) :
    b.received <+: wanted sub sid start b := by
  have hup : ∀ c, upTo LoggedEvent.sequence c (wanted sub sid start b) <+: wanted sub sid start b :=
    fun c => ⟨_, upTo_append_beyond (numbered_wanted h) c⟩
  obtain ⟨-, hb⟩ := hb
  cases hp : b.client.phase with
  | unread =>
    have hnil : b.received = [] := by
      unfold received
      rw [(h.unread hp).2]
      rfl
    rw [hnil]
    exact List.nil_prefix
  | reading c =>
    rw [hp] at hb
    rw [hb.2.2.2.1]
    exact hup c
  | replaying rest last c =>
    rw [hp] at hb
    exact (List.prefix_append _ _).trans (hb.2.2.2.1 ▸ hup c)
  | live =>
    rw [hp] at hb
    obtain ⟨p, -, -, -, hf⟩ := hb
    exact (List.prefix_append _ _).trans hf.1
  | ended why =>
    rw [hp] at hb
    exact hb.2

theorem ReplayAt.stop (h : Grounded queueSize sub b) (hb : ReplayAt sub sid start b) :
    ReplayAt sub sid start b.stop := by
  have hreceived := hb.prefix h
  have hall := hb
  unfold SseBroker.stop
  cases hp : b.client.phase with
  | unread | ended why => exact hall
  | reading c | replaying rest last c | live => exact ⟨hb.1, by simp, hreceived⟩

theorem ReplayAt.pagesAccepted (hsid : sub.sessionId = some sid) (hb : ReplayAt sub sid start b) :
    PagesAccepted sub b := by
  intro rest last c hp e he hacc
  obtain ⟨-, hb⟩ := hb
  rw [hp] at hb
  exact (accepts_iff hsid _).2 ⟨hb.2.2.2.2.2.1 e he, hacc⟩


end Replay

/-! ## Runs -/

theorem Numberable.publish (h : Numberable kind b) {e : BusEvent} (hc : b.Chains kind e)
    (publisher : Publisher) : Numberable kind (b.publish queueSize sub e publisher) := by
  intro x hx
  rw [(publish_spec queueSize sub b e publisher).1] at hx
  rcases List.mem_append.1 hx with hx | hx
  · exact h x hx
  · unfold appended advance at hx
    split at hx
    · rename_i haudited
      obtain rfl := Option.mem_toList.1 hx |> Option.some.inj
      exact hc haudited
    · cases hx

/-- What holds of a client in every state of a run. -/
def ClientAt (kind : StoreKind) (u : UnicodeDigits) (sub : Subscription) (b : SseBroker) : Prop :=
  (parseEventId u sub.lastEventId = .ok none ∧ PlainAt sub b) ∨
    ∃ p sid, parseEventId u sub.lastEventId = .ok (some p) ∧ sub.sessionId = some sid ∧
      kind.Binds p.1 ∧ ReplayAt sub sid p.1 b

theorem ClientAt.pagesAccepted (hb : ClientAt kind u sub b) : PagesAccepted sub b := by
  rcases hb with ⟨-, -, hb⟩ | ⟨p, sid, -, hsid, -, hb⟩
  · intro rest last c hp
    rw [hp] at hb
    exact absurd hb id
  · exact hb.pagesAccepted hsid

/-- A step that changes neither the log nor what the client has received. -/
theorem ClientAt.shrink (hb : ClientAt kind u sub b) {b' : SseBroker} (hs : Shrinks b b')
    (hphase : b'.client.phase = b.client.phase) (hposition : b'.client.position = b.client.position)
    (hdelivered : b'.client.delivered = b.client.delivered)
    (hskipped : b'.client.skipped = b.client.skipped) (hlog : b'.log = b.log)
    (hsince : b'.since = b.since) : ClientAt kind u sub b' := by
  rcases hb with ⟨hparse, hb⟩ | ⟨p, sid, hparse, hsid, hstart, hb⟩
  · exact .inl ⟨hparse, hb.shrink hs hphase hposition hdelivered hskipped hlog hsince⟩
  · exact .inr ⟨p, sid, hparse, hsid, hstart,
      hb.shrink hs hphase hposition hdelivered hskipped hlog hsince⟩

variable (queueSize) in
theorem callback_log (b : SseBroker) :
    (b.callback queueSize).log = b.log ∧ (b.callback queueSize).since = b.since := by
  unfold callback
  split <;> exact ⟨rfl, rfl⟩

variable (queueSize) in
theorem close_log (b : SseBroker) :
    (b.close queueSize).log = b.log ∧ (b.close queueSize).since = b.since := by
  unfold close
  split <;> exact ⟨rfl, rfl⟩

variable (kind u sub) in
/-- Reading writes nothing to the log. -/
theorem read_log (b : SseBroker) : (b.read kind u sub).log = b.log := by
  unfold SseBroker.read
  split
  · unfold SseBroker.subscribe
    dsimp only
    split <;> (try split) <;> rfl
  · unfold SseBroker.readPage
    split <;> rfl
  · unfold SseBroker.replayNext
    split <;> (try split) <;> rfl
  · unfold SseBroker.next
    split <;> (try split) <;> rfl
  · rfl

theorem stop_log (b : SseBroker) : b.stop.log = b.log := by
  unfold SseBroker.stop
  split <;> rfl

/-- A step leaves every number of the log one that the store takes. -/
theorem Numberable.step (h : Numberable kind b) (st : SseStep) :
    Numberable kind (b.step kind queueSize u sub st) := by
  cases st with
  | publish e publisher =>
    unfold SseBroker.step
    dsimp only
    split
    · rename_i hc
      exact h.publish hc publisher
    · exact h
  | read => exact fun x hx => h x (read_log kind u sub b ▸ hx)
  | callback => exact fun x hx => h x ((callback_log queueSize b).1 ▸ hx)
  | close => exact fun x hx => h x ((close_log queueSize b).1 ▸ hx)
  | stop => exact fun x hx => h x (stop_log b ▸ hx)

/-- A step keeps what holds of the client. -/
theorem ClientAt.step (h : Grounded queueSize sub b) (hnum : Numberable kind b)
    (hb : ClientAt kind u sub b) {st : SseStep} (hno : ¬ b.Overtakes sub st) :
    Grounded queueSize sub (b.step kind queueSize u sub st) ∧
      ClientAt kind u sub (b.step kind queueSize u sub st) := by
  cases st with
  | publish e publisher =>
    unfold SseBroker.step
    dsimp only
    split
    · refine ⟨h.publish e publisher, ?_⟩
      rcases hb with ⟨hparse, hb⟩ | ⟨p, sid, hparse, hsid, hstart, hb⟩
      · exact .inl ⟨hparse, hb.publish h hno⟩
      · exact .inr ⟨p, sid, hparse, hsid, hstart, hb.publish h hsid hno⟩
    · exact ⟨h, hb⟩
  | read =>
    refine ⟨h.read kind hb.pagesAccepted, ?_⟩
    rcases hb with ⟨hparse, hb⟩ | ⟨p, sid, hparse, hsid, hstart, hb⟩
    · exact .inl ⟨hparse, hb.read kind h hparse⟩
    · exact .inr ⟨p, sid, hparse, hsid, hstart, hb.read h hnum hsid hparse hstart⟩
  | callback =>
    obtain ⟨hphase, hposition, hdelivered, hskipped, -⟩ := callback_spec h
    obtain ⟨hlog, hsince⟩ := callback_log queueSize b
    exact ⟨h.callback,
      hb.shrink (callback_shrinks h) hphase hposition hdelivered hskipped hlog hsince⟩
  | close =>
    obtain ⟨-, hphase, hposition, hdelivered, hskipped, -⟩ := close_spec h
    obtain ⟨hlog, hsince⟩ := close_log queueSize b
    exact ⟨h.close, hb.shrink (close_shrinks h) hphase hposition hdelivered hskipped hlog hsince⟩
  | stop =>
    refine ⟨h.stop, ?_⟩
    rcases hb with ⟨hparse, hb⟩ | ⟨p, sid, hparse, hsid, hstart, hb⟩
    · exact .inl ⟨hparse, hb.stop⟩
    · exact .inr ⟨p, sid, hparse, hsid, hstart, hb.stop h⟩

/-- Every run keeps it. -/
theorem ClientAt.run (h : Grounded queueSize sub b) (hnum : Numberable kind b)
    (hb : ClientAt kind u sub b) {steps : List SseStep} (ho : b.Orderly kind queueSize u sub steps) :
    Grounded queueSize sub (steps.foldl (SseBroker.step kind queueSize u sub) b) ∧
      ClientAt kind u sub (steps.foldl (SseBroker.step kind queueSize u sub) b) := by
  induction steps generalizing b with
  | nil => exact ⟨h, hb⟩
  | cons st steps ih =>
    obtain ⟨hno, ho⟩ := ho
    obtain ⟨h', hb'⟩ := ClientAt.step h hnum hb hno
    exact ih h' (hnum.step st) hb' ho

theorem Grounded.init : Grounded queueSize sub {} := by
  refine ⟨fun sid => List.Pairwise.nil, ?_, ?_, fun _ => Nat.zero_le _, fun _ => ⟨rfl, rfl⟩,
    fun h => absurd rfl h⟩
  · intro f hf
    cases hf
  · intro x hx
    cases hx

theorem ClientAt.init (hpos : sub.Positioned kind u) : ClientAt kind u sub {} := by
  obtain ⟨position, hparse, hone, hbinds⟩ := hpos
  cases position with
  | none => exact .inl ⟨hparse, rfl, trivial⟩
  | some p =>
    obtain ⟨sid, hsid⟩ := Option.isSome_iff_exists.1 (hone rfl)
    exact .inr ⟨p, sid, hparse, hsid, hbinds p rfl, fun f hf => (by cases hf), trivial⟩

theorem PlainAt.delivers (hb : PlainAt sub b) (h : Grounded queueSize sub b)
    (hparse : parseEventId u sub.lastEventId = .ok none) : b.Delivers u sub := by
  have hexpected : b.expected u sub = b.published sub := by
    unfold expected startOf
    rw [hparse]
    rfl
  obtain ⟨hskip, hb⟩ := hb
  refine ⟨fun sid => ?_, fun hidle sid => ?_, fun f hf => ?_, fun hraised => ?_⟩
  · rw [hexpected]
    cases hp : b.client.phase with
    | unread =>
      unfold received
      rw [(h.unread hp).2]
      exact List.nil_prefix
    | reading c | replaying rest last c =>
      rw [hp] at hb
      exact absurd hb id
    | live =>
      rw [hp] at hb
      exact (List.prefix_append _ _).trans (hb.2 sid).1
    | ended why =>
      rw [hp] at hb
      exact hb.2 sid
  · obtain ⟨hlive, hserving, hqueue, hscheduled⟩ := hidle
    rw [hlive] at hb
    have hpending : pending b.client = [] := by simp [pending, hqueue, hscheduled, framesOf]
    have hall := (hb.2 sid).2 hserving
    rw [hpending] at hall
    rw [hexpected]
    exact (List.append_nil _).symm.trans hall
  · rw [hskip] at hf
    cases hf
  · rw [hraised] at hb
    exact hb.1 rfl

theorem ReplayAt.delivers {sid : String} {p : Nat × Nat} (hb : ReplayAt sub sid p.1 b)
    (h : Grounded queueSize sub b) (hsid : sub.sessionId = some sid)
    (hparse : parseEventId u sub.lastEventId = .ok (some p)) : b.Delivers u sub := by
  have hstart : startOf u sub = some p.1 := by
    unfold startOf
    rw [hparse]
    rfl
  have hexpected : ofSession sid (b.expected u sub) = wanted sub sid p.1 b := by
    unfold expected ofSession wanted beyond chain
    rw [hstart]
    simp only [List.filter_filter]
    refine List.filter_congr fun x _ => ?_
    have hiff := accepts_iff hsid x.event
    rw [Bool.eq_iff_iff]
    simp only [Bool.and_eq_true, decide_eq_true_eq, hiff]
    tauto
  have hwanted : ∀ x ∈ wanted sub sid p.1 b, x.event.sessionId = sid := by
    intro x hx
    simpa using (List.mem_filter.1 (mem_beyond.1 (List.mem_filter.1 hx).1).1).2
  have hinitial := hb.prefix h
  have hsession : ofSession sid b.received = b.received :=
    List.filter_eq_self.2 fun x hx => by simpa using hwanted x (hinitial.subset hx)
  have hother : ∀ sid', sid' ≠ sid → ofSession sid' b.received = [] ∧
      ofSession sid' (b.expected u sub) = [] := by
    intro sid' hne
    constructor
    · refine List.filter_eq_nil_iff.2 fun x hx hs => ?_
      exact hne ((by simpa using hs : x.event.sessionId = sid').symm.trans
        (hwanted x (hinitial.subset hx)))
    · refine List.filter_eq_nil_iff.2 fun x hx hs => ?_
      unfold expected at hx
      rw [hstart] at hx
      have hacc := (List.mem_filter.1 hx).2
      simp only [Bool.and_eq_true, decide_eq_true_eq] at hacc
      exact hne ((by simpa using hs : x.event.sessionId = sid').symm.trans
        ((accepts_iff hsid _).1 hacc.1).1)
  refine ⟨fun sid' => ?_, fun hidle sid' => ?_, fun f hf => ?_, fun hraised => ?_⟩
  · by_cases hs : sid' = sid
    · rw [hs, hsession, hexpected]
      exact hinitial
    · rw [(hother sid' hs).1]
      exact List.nil_prefix
  · by_cases hs : sid' = sid
    · obtain ⟨hlive, hserving, hqueue, hscheduled⟩ := hidle
      obtain ⟨-, hb⟩ := hb
      rw [hlive] at hb
      obtain ⟨q, -, -, -, hf⟩ := hb
      have hpending : pending b.client = [] := by simp [pending, hqueue, hscheduled, framesOf]
      have hall := hf.2 hserving
      rw [hpending] at hall
      rw [hs, hsession, hexpected]
      exact (List.append_nil _).symm.trans hall
    · rw [(hother sid' hs).1, (hother sid' hs).2]
  · obtain ⟨hacc, ⟨q, hq, hle⟩, hin⟩ := hb.1 f hf
    refine ⟨?_, ⟨q, hq, hle⟩, fun e he => (hin e he).imp id fun hle => ⟨p.1, hstart, hle⟩⟩
    rw [hsid, ((accepts_iff hsid _).1 hacc).1]
  · obtain ⟨-, hb⟩ := hb
    rw [hraised] at hb
    exact hb.1 rfl

/-- A client whose position can be read and is one that the store takes, and that names one for a
session alone, receives what it is promised in every run in which no event of the loop overtakes a
scheduled one. -/
theorem run_delivers {steps : List SseStep} (hpos : sub.Positioned kind u)
    (ho : SseBroker.Orderly kind queueSize u sub {} steps) :
    (run kind queueSize u sub steps).Delivers u sub := by
  have hempty : Numberable kind {} := fun e he => by cases he
  obtain ⟨h, hb⟩ := ClientAt.run Grounded.init hempty (ClientAt.init hpos) ho
  rcases hb with ⟨hparse, hb⟩ | ⟨p, sid, hparse, hsid, -, hb⟩
  · exact hb.delivers h hparse
  · exact hb.delivers h hsid hparse

/-- The digits of Latin-1. -/
def latinDigits : UnicodeDigits where
  isDigit c := c.isDigit || c ∈ ['²', '³', '¹']
  decimal c := if c.isDigit then some (c.toNat - '0'.toNat) else none

/-- An event is logged, then one is replayed while it is in the queue, and one comes live. -/
def resumedRun : List SseStep :=
  [.publish ⟨"s1", none, .planReceived⟩ .thread, .read, .publish ⟨"s1", none, .taskStateChanged⟩ .thread,
    .callback, .read, .read, .read, .publish ⟨"s1", none, .planStateChanged⟩ .loop, .read, .read]

theorem run_delivers_resumed :
    ({ sessionId := some "s1", lastEventId := some "1" } : Subscription).Positioned .sqlite
        latinDigits ∧
      SseBroker.Orderly .sqlite 8 latinDigits { sessionId := some "s1", lastEventId := some "1" } {}
        resumedRun ∧
      (run .sqlite 8 latinDigits { sessionId := some "s1", lastEventId := some "1" }
        resumedRun).Delivers latinDigits { sessionId := some "s1", lastEventId := some "1" } := by
  have hpos : ({ sessionId := some "s1", lastEventId := some "1" } : Subscription).Positioned .sqlite
      latinDigits := by
    refine ⟨some (1, 0), by rfl, fun _ => rfl, ?_⟩
    rintro p ⟨⟩
    exact fun _ => by decide
  have ho : SseBroker.Orderly .sqlite 8 latinDigits
      { sessionId := some "s1", lastEventId := some "1" } {} resumedRun := by
    refine ⟨id, id, id, id, id, id, id, ?_, id, id, trivial⟩
    rintro ⟨-, -, -, hne⟩
    exact hne rfl
  exact ⟨hpos, ho, run_delivers hpos ho⟩

/-- A client of all sessions that names a position is not sent what was published before, and an
event of another session is left out for its number; an event of the loop overtakes one that is
scheduled; and a position in digits that are not decimal, or one that SQLite does not take, ends the
stream with an exception. -/
theorem run_not_delivers :
    ¬ (run .memory 8 latinDigits { lastEventId := some "1" }
        [.publish ⟨"s1", none, .planReceived⟩ .loop, .publish ⟨"s1", none, .taskStateChanged⟩ .loop, .read,
          .publish ⟨"s2", none, .planReceived⟩ .loop, .publish ⟨"s1", none, .planStateChanged⟩ .loop,
          .read, .read]).Delivers latinDigits { lastEventId := some "1" } ∧
      ¬ (run .memory 8 latinDigits { sessionId := some "s1" }
        [.read, .publish ⟨"s1", none, .planReceived⟩ .thread,
          .publish ⟨"s1", none, .taskStateChanged⟩ .loop, .read, .callback, .read]).Delivers latinDigits
        { sessionId := some "s1" } ∧
      ¬ (run .memory 8 latinDigits { sessionId := some "s1", lastEventId := some "²" }
        [.read]).Delivers latinDigits { sessionId := some "s1", lastEventId := some "²" } ∧
      ¬ (run .sqlite 8 latinDigits
          { sessionId := some "s1", lastEventId := some "9223372036854775808" }
          [.read, .read]).Delivers latinDigits
        { sessionId := some "s1", lastEventId := some "9223372036854775808" } := by
  refine ⟨fun h => ?_, fun h => ?_, fun h => ?_, fun h => ?_⟩
  · exact absurd (h.inOrder "s1") (by decide)
  · exact absurd (h.inOrder "s1") (by decide)
  · exact h.ends (by decide)
  · exact h.ends (by decide +kernel)

end SseBroker

end AgenticLocalApp
