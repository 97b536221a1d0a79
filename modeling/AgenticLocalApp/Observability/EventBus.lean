import AgenticLocalApp.Observability.AuditRuns

/-!
# The event bus and the audit log on it

Every subscriber is told of an event in the order of their subscription.  One that raises is passed
over, unless it is critical: then the event goes no further.  So a subscriber sees what the critical
ones before it have let pass and depends on no other; behind the audit log, which is critical, it
sees of the audited events exactly those that are in the chain.
-/

namespace AgenticLocalApp

namespace Bus

/-- A subscription, with the state of its handler and how the handler changes it.  A handler that
raises may have changed its state before. -/
structure Subscriber where
  name : String
  critical : Bool := false
  eventTypes : Option (List EventType) := none
  State : Type
  handler : State → Event → State × Option Exc
  state : State

namespace Subscriber

variable (s : Subscriber)

def wants (e : Event) : Bool := s.eventTypes.all fun types => e.eventType ∈ types

/-- The handler is called, if the subscriber wants the event. -/
def receive (e : Event) : Subscriber × Option Exc :=
  if s.wants e then
    ({ s with state := (s.handler s.state e).1 }, (s.handler s.state e).2)
  else (s, none)

/-- The subscriber after it was told of some events and no others. -/
def feed (es : List Event) : Subscriber := es.foldl (fun s e => (s.receive e).1) s

end Subscriber

/-- What telling some subscribers of an event comes to. -/
structure Notified where
  subscriptions : List Subscriber
  errors : Nat
  raised : Option Exc

/-- The loop of `publish`. -/
def notify : List Subscriber → Event → Notified
  | [], _ => ⟨[], 0, none⟩
  | s :: rest, e =>
    match s.receive e with
    | (s, none) =>
      let told := notify rest e
      ⟨s :: told.subscriptions, told.errors, told.raised⟩
    | (s, some exc) =>
      if s.critical then ⟨s :: rest, 1, some exc⟩
      else
        let told := notify rest e
        ⟨s :: told.subscriptions, told.errors + 1, told.raised⟩

structure EventBus where
  subscriptions : List Subscriber := []
  publishedCount : Nat := 0
  subscriberErrors : Nat := 0

namespace EventBus

variable (b : EventBus)

/-- `publish`, and what it raises. -/
def publish (e : Event) : Option Exc × EventBus :=
  let told := notify b.subscriptions e
  (told.raised,
    { subscriptions := told.subscriptions
      publishedCount := b.publishedCount + 1
      subscriberErrors := b.subscriberErrors + told.errors })

/-- `subscribe`. -/
def subscribe (s : Subscriber) : Except Exc EventBus :=
  if b.subscriptions.any fun x => x.name = s.name then
    .error (.valueError s!"subscriber already registered: {s.name}")
  else .ok { b with subscriptions := b.subscriptions ++ [s] }

/-- `unsubscribe`. -/
def unsubscribe (name : String) : EventBus :=
  { b with subscriptions := b.subscriptions.filter fun s => s.name ≠ name }

end EventBus

inductive BusStep where
  | publish (e : Event)
  | subscribe (s : Subscriber)
  | unsubscribe (name : String)

def EventBus.step (b : EventBus) : BusStep → EventBus
  | .publish e => (b.publish e).2
  | .subscribe s => (b.subscribe s).toOption.getD b
  | .unsubscribe name => b.unsubscribe name

def EventBus.run (b : EventBus) (steps : List BusStep) : EventBus := steps.foldl EventBus.step b

/-- What is published. -/
def published (steps : List BusStep) : List Event :=
  steps.filterMap fun | .publish e => some e | .subscribe _ | .unsubscribe _ => none

/-- The events that these subscribers, alone on the bus, let pass. -/
def passed : (before : List Subscriber) → List BusStep → List Event
  | _, [] => []
  | before, .publish e :: steps =>
    (if (notify before e).raised.isNone then [e] else []) ++
      passed (notify before e).subscriptions steps
  | before, .subscribe _ :: steps => passed before steps
  | before, .unsubscribe name :: steps => passed (before.filter fun s => s.name ≠ name) steps

/-! ## One event -/

section Notify

variable {s : Subscriber} {xs ys : List Subscriber} {e : Event}

theorem receive_name : (s.receive e).1.name = s.name := by
  unfold Subscriber.receive
  split_ifs <;> rfl

theorem receive_critical : (s.receive e).1.critical = s.critical := by
  unfold Subscriber.receive
  split_ifs <;> rfl

theorem feed_name (es : List Event) : (s.feed es).name = s.name := by
  induction es generalizing s with
  | nil => rfl
  | cons e es ih => exact (ih (s := (s.receive e).1)).trans receive_name

/-- What the first subscribers let pass goes on to the others. -/
theorem notify_append_none (h : (notify xs e).raised = none) (ys : List Subscriber) :
    (notify (xs ++ ys) e).raised = (notify ys e).raised ∧ (notify (xs ++ ys) e).subscriptions =
      (notify xs e).subscriptions ++ (notify ys e).subscriptions := by
  induction xs with
  | nil => exact ⟨rfl, rfl⟩
  | cons s xs ih =>
    rw [notify] at h
    rw [List.cons_append, notify, notify]
    generalize s.receive e = answer at h ⊢
    rcases answer with ⟨s', _ | exc⟩
    · exact ⟨(ih h).1, congrArg (s' :: ·) (ih h).2⟩
    · dsimp only at h ⊢
      by_cases hcritical : s'.critical = true
      · rw [if_pos hcritical] at h
        cases h
      · simp only [hcritical] at h ⊢
        exact ⟨(ih h).1, congrArg (s' :: ·) (ih h).2⟩

/-- What they do not let pass goes no further. -/
theorem notify_append_some {exc : Exc} (h : (notify xs e).raised = some exc)
    (ys : List Subscriber) : (notify (xs ++ ys) e).raised = some exc ∧
      (notify (xs ++ ys) e).subscriptions = (notify xs e).subscriptions ++ ys := by
  induction xs with
  | nil => cases h
  | cons s xs ih =>
    rw [notify] at h
    rw [List.cons_append, notify, notify]
    generalize s.receive e = answer at h ⊢
    rcases answer with ⟨s', _ | exc'⟩
    · exact ⟨(ih h).1, congrArg (s' :: ·) (ih h).2⟩
    · dsimp only at h ⊢
      by_cases hcritical : s'.critical = true
      · simp only [hcritical, if_true] at h ⊢
        exact ⟨h, rfl⟩
      · simp only [hcritical] at h ⊢
        exact ⟨(ih h).1, congrArg (s' :: ·) (ih h).2⟩

/-- Subscribers that are not critical let every event pass. -/
theorem notify_not_critical (h : ∀ s ∈ xs, s.critical = false) :
    (notify xs e).raised = none ∧ ∀ s ∈ (notify xs e).subscriptions, s.critical = false := by
  induction xs with
  | nil => exact ⟨rfl, fun s hs => absurd hs List.not_mem_nil⟩
  | cons s xs ih =>
    obtain ⟨hraised, hrest⟩ := ih fun x hx => h x (List.mem_cons_of_mem s hx)
    have hs : (s.receive e).1.critical = false := receive_critical.trans (h s List.mem_cons_self)
    rw [notify]
    generalize s.receive e = answer at hs
    rcases answer with ⟨s', _ | exc⟩
    · exact ⟨hraised, List.forall_mem_cons.2 ⟨hs, hrest⟩⟩
    · dsimp only at hs ⊢
      rw [hs]
      exact ⟨hraised, List.forall_mem_cons.2 ⟨hs, hrest⟩⟩

/-- A subscriber among others is told of what those before it let pass. -/
theorem notify_split (before after : List Subscriber) (s : Subscriber) (e : Event) :
    ∃ after', (notify (before ++ s :: after) e).subscriptions = (notify before e).subscriptions ++
      s.feed (if (notify before e).raised.isNone then [e] else []) :: after' := by
  cases hbefore : (notify before e).raised with
  | some exc => exact ⟨after, (notify_append_some hbefore _).2⟩
  | none =>
    rw [(notify_append_none hbefore _).2]
    rw [notify]
    change ∃ after', _ = (notify before e).subscriptions ++ (s.receive e).1 :: after'
    rcases s.receive e with ⟨s', _ | exc⟩
    · exact ⟨_, rfl⟩
    · dsimp only
      by_cases hcritical : s'.critical = true
      · simp only [hcritical, if_true]
        exact ⟨_, rfl⟩
      · simp only [hcritical]
        exact ⟨_, rfl⟩

end Notify

/-! ## Runs -/

section Runs

variable {s : Subscriber} {before after : List Subscriber} {b : EventBus} {steps : List BusStep}

/-- The steps leave the subscriber of this name on the bus. -/
def Keeps (name : String) (steps : List BusStep) : Prop :=
  ∀ st ∈ steps, ∀ other, st = .unsubscribe other → other ≠ name

/-- What is left of the first subscribers after a run. -/
def left : (before : List Subscriber) → List BusStep → List Subscriber
  | before, [] => before
  | before, .publish e :: steps => left (notify before e).subscriptions steps
  | before, .subscribe _ :: steps => left before steps
  | before, .unsubscribe name :: steps => left (before.filter fun s => s.name ≠ name) steps

theorem subscribe_subscriptions (b : EventBus) (x : Subscriber) :
    ∃ more, (b.step (.subscribe x)).subscriptions = b.subscriptions ++ more := by
  unfold EventBus.step EventBus.subscribe
  dsimp only
  split_ifs
  · exact ⟨[], (List.append_nil _).symm⟩
  · exact ⟨[x], rfl⟩

/-- A subscriber that stays has been told of exactly what those before it have let pass, whatever
the others did. -/
theorem run_split (hb : b.subscriptions = before ++ s :: after) (hkeeps : Keeps s.name steps) :
    ∃ after', (b.run steps).subscriptions =
      left before steps ++ s.feed (passed before steps) :: after' := by
  induction steps generalizing b before s after with
  | nil => exact ⟨after, hb⟩
  | cons st steps ih =>
    have hkeeps' : Keeps s.name steps := fun st' hst' => hkeeps st' (List.mem_cons_of_mem _ hst')
    cases st with
    | publish e =>
      obtain ⟨after', hsplit⟩ := notify_split before after s e
      rw [← hb] at hsplit
      obtain ⟨after'', hrun⟩ := ih (b := b.step (.publish e)) hsplit (by rwa [feed_name])
      refine ⟨after'', hrun.trans ?_⟩
      rw [passed, Subscriber.feed, Subscriber.feed, Subscriber.feed, List.foldl_append]
      rfl
    | subscribe x =>
      obtain ⟨more, hmore⟩ := subscribe_subscriptions b x
      rw [hb, List.append_assoc, List.cons_append] at hmore
      exact ih (b := b.step (.subscribe x)) hmore hkeeps'
    | unsubscribe name =>
      have hname : s.name ≠ name := (hkeeps _ List.mem_cons_self name rfl).symm
      have hfilter : (b.step (.unsubscribe name)).subscriptions =
          before.filter (fun s => s.name ≠ name) ++ s :: after.filter fun s => s.name ≠ name := by
        change b.subscriptions.filter (fun s => s.name ≠ name) = _
        rw [hb, List.filter_append, List.filter_cons_of_pos (by simpa using hname)]
      exact ih (b := b.step (.unsubscribe name)) hfilter hkeeps'

/-- Subscribers that are not critical do not change what is let pass. -/
theorem passed_append (hbefore : ∀ x ∈ after, x.critical = false) :
    passed (before ++ after) steps = passed before steps := by
  induction steps generalizing before after with
  | nil => rfl
  | cons st steps ih =>
    cases st with
    | publish e =>
      obtain ⟨hraised, hrest⟩ := notify_not_critical (e := e) hbefore
      rw [passed, passed]
      cases hfirst : (notify before e).raised with
      | none =>
        obtain ⟨happend, hsubs⟩ := notify_append_none hfirst after
        rw [happend, hraised, hsubs, ih hrest]
      | some exc =>
        obtain ⟨happend, hsubs⟩ := notify_append_some hfirst after
        rw [happend, hsubs, ih hbefore]
    | subscribe x => exact ih hbefore
    | unsubscribe name =>
      rw [passed, passed, List.filter_append]
      exact ih fun x hx => hbefore x (List.mem_filter.1 hx).1

end Runs

end Bus

/-! ## The audit log -/

/-- What an accepted event is, and what the log remembers of it. -/
theorem handle_ok {S : AuditStore} {sha256 : List Char → String} {log log' : AuditLog S} {e : Event}
    {eventId : String} {fault : StoreFault} {audited : AuditEvent}
    (h : log.handle sha256 e eventId fault = (.ok (some audited), log')) :
    (∃ previous link, e.link eventId previous = some link ∧
      audited = { link with eventHash := recomputeHash sha256 link }) ∧
      (∃ σ, S.append σ audited = .ok log'.store) ∧ log'.last e.sessionId = some (some audited) := by
  unfold AuditLog.handle at h
  split at h
  · cases h
  split at h
  · cases h
  · rename_i previous log₁ hlast
    split at h
    · cases h
    · rename_i link hlink
      dsimp only at h
      split at h
      · cases h
      split at h
      · cases h
      · rename_i store happend
        cases h
        exact ⟨⟨previous, link, hlink, rfl⟩, ⟨_, happend⟩, Function.update_self ..⟩

/-- A link says of the event what the event said. -/
structure Records (e : Event) (audited : AuditEvent) : Prop where
  eventType : audited.eventType = StrEnum.value e.eventType
  timestamp : audited.timestamp = e.timestamp
  sessionId : audited.sessionId = e.sessionId
  payload : e.payload.encode = some audited.payload

theorem records_of_link {e : Event} {eventId hash : String} {previous : Option AuditEvent}
    {link audited : AuditEvent} (h : e.link eventId previous = some link)
    (haudited : audited = { link with eventHash := hash }) : Records e audited := by
  unfold Event.link at h
  simp only [Option.bind_eq_bind, Option.bind_eq_some_iff] at h
  obtain ⟨planId, -, taskId, -, payload, hpayload, h⟩ := h
  cases h
  subst haudited
  exact ⟨rfl, rfl, rfl, hpayload⟩

theorem not_audited_of_handle {S : AuditStore} {sha256 : List Char → String} {log log' : AuditLog S}
    {e : Event} {eventId : String} {fault : StoreFault}
    (h : log.handle sha256 e eventId fault = (.ok none, log')) : e.audited = false := by
  unfold AuditLog.handle at h
  split at h
  · rename_i haudited
    exact Bool.eq_false_of_not_eq_true haudited
  split at h
  · cases h
  split at h
  · cases h
  · dsimp only at h
    split at h
    · cases h
    split at h <;> cases h

theorem audited_of_handle {S : AuditStore} {sha256 : List Char → String} {log log' : AuditLog S}
    {e : Event} {eventId : String} {fault : StoreFault} {audited : AuditEvent}
    (h : log.handle sha256 e eventId fault = (.ok (some audited), log')) : e.audited = true := by
  by_contra haudited
  unfold AuditLog.handle at h
  rw [if_pos haudited] at h
  cases h

namespace Bus

section Audit

variable {S : AuditStore} (sha256 : List Char → String)
  -- the identifier that each event is given, and where the store fails on it
  (answers : Nat → String × StoreFault)

/-- `AuditLog.subscribe`: the log, and how many events it was told of. -/
def auditSubscriber (trail : AuditTrail S) (n : Nat) : Subscriber where
  name := "audit_log"
  critical := true
  State := AuditTrail S × Nat
  handler σ e :=
    ((σ.1.step sha256 (.publish e (answers σ.2).1 (answers σ.2).2), σ.2 + 1),
      match (σ.1.log.handle sha256 e (answers σ.2).1 (answers σ.2).2).1 with
      | .ok _ => none
      | .error exc => some exc)
  state := (trail, n)

/-- What the log is told of, as the steps of its run. -/
def auditSteps : (n : Nat) → List Event → List AuditStep
  | _, [] => []
  | n, e :: es => .publish e (answers n).1 (answers n).2 :: auditSteps (n + 1) es

variable {sha256 answers} {trail : AuditTrail S} {n : Nat} {s : Subscriber}
  {before after : List Subscriber} {steps : List BusStep}

theorem feed_audit (es : List Event) : (auditSubscriber sha256 answers trail n).feed es =
    auditSubscriber sha256 answers (trail.run sha256 (auditSteps answers n es))
      (n + es.length) := by
  induction es generalizing trail n with
  | nil => rfl
  | cons e es ih =>
    change (auditSubscriber sha256 answers (trail.step sha256 _) (n + 1)).feed es = _
    rw [ih, List.length_cons, Nat.add_right_comm, Nat.add_assoc]
    rfl

/-- The first subscriber is told of everything. -/
theorem left_cons (hkeeps : Keeps s.name steps) :
    ∃ middle, left (s :: before) steps = s.feed (published steps) :: middle := by
  induction steps generalizing s before with
  | nil => exact ⟨before, rfl⟩
  | cons st steps ih =>
    have hkeeps' : Keeps s.name steps := fun st' hst' => hkeeps st' (List.mem_cons_of_mem _ hst')
    cases st with
    | publish e =>
      obtain ⟨rest, hrest⟩ := notify_split [] before s e
      obtain ⟨middle, hmiddle⟩ := ih (s := s.feed [e]) (by rwa [feed_name])
      refine ⟨middle, ?_⟩
      rw [left]
      exact (congrArg (left · steps) hrest).trans hmiddle
    | subscribe x => exact ih hkeeps'
    | unsubscribe name =>
      have hname : s.name ≠ name := (hkeeps _ List.mem_cons_self name rfl).symm
      obtain ⟨middle, hmiddle⟩ : ∃ middle,
          left (s :: before.filter fun x => x.name ≠ name) steps =
            s.feed (published steps) :: middle := ih hkeeps'
      refine ⟨middle, ?_⟩
      rw [left, List.filter_cons_of_pos (by simpa using hname)]
      exact hmiddle

variable (sha256 answers trail n) in
theorem notify_audit (e : Event) :
    (notify [auditSubscriber sha256 answers trail n] e).subscriptions =
        [auditSubscriber sha256 answers
          (trail.step sha256 (.publish e (answers n).1 (answers n).2)) (n + 1)] ∧
      (notify [auditSubscriber sha256 answers trail n] e).raised.isNone =
        (trail.log.handle sha256 e (answers n).1 (answers n).2).1.toBool := by
  have hreceive : (auditSubscriber sha256 answers trail n).receive e =
      (auditSubscriber sha256 answers
        (trail.step sha256 (.publish e (answers n).1 (answers n).2)) (n + 1),
      match (trail.log.handle sha256 e (answers n).1 (answers n).2).1 with
      | .ok _ => none
      | .error exc => some exc) := rfl
  rw [notify, hreceive]
  cases (trail.log.handle sha256 e (answers n).1 (answers n).2).1 with
  | ok _ => exact ⟨rfl, rfl⟩
  | error _ => exact ⟨rfl, rfl⟩

variable (sha256 answers trail n) in
/-- One event: what the log accepts of it is what it lets pass, if the event is audited. -/
theorem step_accepted (e : Event) (answer : String × StoreFault) :
    ∃ first, (trail.step sha256 (.publish e answer.1 answer.2)).accepted =
        trail.accepted ++ first ∧
      List.Forall₂ Records ((if (trail.log.handle sha256 e answer.1 answer.2).1.toBool then [e]
        else []).filter Event.audited) first := by
  unfold AuditTrail.step
  dsimp only
  cases hresult : trail.log.handle sha256 e answer.1 answer.2 with
  | mk outcome log =>
    rcases outcome with exc | _ | audited
    · exact ⟨[], (List.append_nil _).symm, .nil⟩
    · refine ⟨[], (List.append_nil _).symm, ?_⟩
      have haudited : e.audited = false := not_audited_of_handle hresult
      change List.Forall₂ Records ([e].filter Event.audited) []
      rw [List.filter_cons_of_neg (by simp [haudited])]
      exact .nil
    · obtain ⟨⟨previous, link, hlink, rfl⟩, -, -⟩ := handle_ok hresult
      refine ⟨[_], rfl, ?_⟩
      change List.Forall₂ Records ([e].filter Event.audited) _
      rw [List.filter_cons_of_pos (audited_of_handle hresult)]
      exact .cons (records_of_link hlink rfl) .nil

variable (sha256 answers trail n) in
/-- Of the audited events, the log lets pass exactly those that it has put into the chain. -/
theorem audit_passed (hkeeps : Keeps "audit_log" steps) :
    ∃ added, (trail.run sha256 (auditSteps answers n (published steps))).accepted =
        trail.accepted ++ added ∧
      List.Forall₂ Records ((passed [auditSubscriber sha256 answers trail n] steps).filter
        Event.audited) added := by
  induction steps generalizing trail n with
  | nil => exact ⟨[], (List.append_nil _).symm, .nil⟩
  | cons st steps ih =>
    have hkeeps' : Keeps "audit_log" steps := fun st' hst' =>
      hkeeps st' (List.mem_cons_of_mem _ hst')
    cases st with
    | subscribe x => exact ih _ _ hkeeps'
    | unsubscribe name =>
      have hname : "audit_log" ≠ name := (hkeeps _ List.mem_cons_self name rfl).symm
      have hfilter : [auditSubscriber sha256 answers trail n].filter (fun s => s.name ≠ name) =
          [auditSubscriber sha256 answers trail n] :=
        List.filter_cons_of_pos (decide_eq_true hname)
      rw [passed, hfilter]
      exact ih _ _ hkeeps'
    | publish e =>
      obtain ⟨hsubs, hraised⟩ := notify_audit sha256 answers trail n e
      obtain ⟨added, haccepted, hrecords⟩ : ∃ added,
          ((trail.step sha256 (.publish e (answers n).1 (answers n).2)).run sha256
            (auditSteps answers (n + 1) (published steps))).accepted =
              (trail.step sha256 (.publish e (answers n).1 (answers n).2)).accepted ++ added ∧
          List.Forall₂ Records ((passed [auditSubscriber sha256 answers
            (trail.step sha256 (.publish e (answers n).1 (answers n).2)) (n + 1)] steps).filter
              Event.audited) added := ih _ _ hkeeps'
      rw [passed, hsubs, hraised, List.filter_append]
      change ∃ added', ((trail.step sha256 (.publish e (answers n).1 (answers n).2)).run sha256
        (auditSteps answers (n + 1) (published steps))).accepted = trail.accepted ++ added' ∧ _
      rw [haccepted]
      obtain ⟨first, hfirst, hone⟩ := step_accepted sha256 trail e (answers n)
      rw [hfirst]
      exact ⟨first ++ added, List.append_assoc .., List.rel_append hone hrecords⟩

theorem passed_sublist : (passed before steps).Sublist (published steps) := by
  induction steps generalizing before with
  | nil => exact List.Sublist.refl []
  | cons st steps ih =>
    cases st with
    | subscribe x => exact ih
    | unsubscribe name => exact ih
    | publish e =>
      rw [passed]
      have hfirst : (if (notify before e).raised.isNone then [e] else []).Sublist [e] := by
        split_ifs
        · exact List.Sublist.refl [e]
        · exact List.nil_sublist [e]
      exact hfirst.append ih

theorem auditSteps_utc {kind : StoreKind} {es : List Event}
    (hutc : ∀ e ∈ es, kind = .sqlite → e.timestamp.Utc) :
    ∀ st ∈ auditSteps answers n es, st.Utc kind := by
  induction es generalizing n with
  | nil => exact fun st hst => absurd hst List.not_mem_nil
  | cons e es ih =>
    refine List.forall_mem_cons.2 ⟨hutc e List.mem_cons_self, ?_⟩
    exact ih fun e' he' => hutc e' (List.mem_cons_of_mem e he')

theorem list_of_kept {kind : StoreKind} {t : AuditTrail kind.audit}
    (h : t.Kept kind.auditSpec sha256) {sid : String} {limit : Int}
    (hlimit : (chainOf t.accepted sid).length ≤ limit) (hb : kind.Binds limit) :
    kind.audit.list t.log.store sid none limit =
      .ok ((chainOf t.accepted sid).map kind.readBack) := by
  have hlist : kind.audit.list t.log.store sid none limit = _ := kind.auditSpec.list
    (Chained.holds h) (Chained.linked h sid).pairwise (by omega) (kind.binds_spec.2 hb)
    (fun _ h => by cases h)
  rw [hlist, chainOf_map_readBack, kind.readBack_eq]
  have hall : ((chainOf t.accepted sid).map kind.readBack).filter
      (fun e => isAfter none e.sequence) = (chainOf t.accepted sid).map kind.readBack :=
    List.filter_eq_self.2 fun _ _ => rfl
  rw [hall, List.take_of_length_le (by rw [List.length_map]; omega)]

/-- In every run of a bus that starts with the audit log on an empty store, behind the log and any
subscribers that are not critical, whatever they do and whenever they come and go: a subscriber is
told of events in the order in which they are published, and the audited ones it is told of are,
one by one, the events that the store lists of each session. -/
theorem shown_is_stored (sha256 : List Char → String) (kind : StoreKind)
    (answers : Nat → String × StoreFault) (b : EventBus) (before after : List Subscriber)
    (s : Subscriber) (steps : List BusStep)
    (hb : b.subscriptions =
      auditSubscriber sha256 answers (AuditTrail.initial kind.audit) 0 :: before ++ s :: after)
    (hbefore : ∀ x ∈ before, x.critical = false)
    (hutc : ∀ e ∈ published steps, kind = .sqlite → e.timestamp.Utc)
    (hlog : Keeps "audit_log" steps) (hs : Keeps s.name steps) :
    ∃ (shown : List Event) (added : List AuditEvent) (trail : AuditTrail kind.audit)
      (middle after' : List Subscriber),
      (b.run steps).subscriptions =
        auditSubscriber sha256 answers trail (published steps).length ::
          middle ++ s.feed shown :: after' ∧
      shown.Sublist (published steps) ∧
      List.Forall₂ Records (shown.filter Event.audited) added ∧
      ∀ (sid : String) (limit : Int), (chainOf added sid).length ≤ limit → kind.Binds limit →
        kind.audit.list trail.log.store sid none limit =
          .ok ((chainOf added sid).map kind.readBack) := by
  obtain ⟨after', hrun⟩ := run_split hb hs
  let log := auditSubscriber sha256 answers (AuditTrail.initial kind.audit) 0
  obtain ⟨middle, hmiddle⟩ : ∃ middle,
      left (log :: before) steps = log.feed (published steps) :: middle := left_cons hlog
  obtain ⟨added, haccepted, hrecords⟩ :=
    audit_passed sha256 answers (AuditTrail.initial kind.audit) 0 hlog
  have hpassed : passed ([log] ++ before) steps = passed [log] steps := passed_append hbefore
  rw [hmiddle, feed_audit, Nat.zero_add] at hrun
  refine ⟨passed [log] steps, added,
    (AuditTrail.initial kind.audit).run sha256 (auditSteps answers 0 (published steps)), middle,
    after', ?_, passed_sublist, hrecords, ?_⟩
  · rw [← hpassed]
    exact hrun
  · intro sid limit hlimit hb
    have hutc' : ∀ st ∈ auditSteps answers 0 (published steps), st.Utc kind := auditSteps_utc hutc
    have hkept := (AuditTrail.kept_initial kind.auditSpec sha256).run
      fun st hst => AuditStep.storable_of_utc (hutc' st hst)
    have hall : ((AuditTrail.initial kind.audit).run sha256
        (auditSteps answers 0 (published steps))).accepted = added :=
      haccepted.trans (List.nil_append added)
    rw [← hall] at hlimit ⊢
    exact list_of_kept hkept hlimit hb

/-- A subscriber that counts what it is told of and raises on every event. -/
def Subscriber.failing : Subscriber where
  name := "failing"
  State := Nat
  handler n _ := (n + 1, some (.valueError "failing"))
  state := 0

/-- The store refuses the second of three events: the subscriber behind the log is told of two. -/
theorem shown_is_stored_sample :
    let answers : Nat → String × StoreFault := fun
      | 0 => ("evt_1", .none)
      | 1 => ("evt_2", .write)
      | _ => ("evt_3", .none)
    let b : EventBus :=
      { subscriptions := [auditSubscriber String.ofList answers (AuditTrail.initial sqliteAudit) 0,
          .failing, { Subscriber.failing with name := "other" }] }
    let steps := [BusStep.publish (.sample 0), .publish (.sample 0), .unsubscribe "failing",
      .publish (.sample 0)]
    ∃ (shown : List Event) (trail : AuditTrail sqliteAudit) (middle after : List Subscriber),
      (b.run steps).subscriptions = auditSubscriber String.ofList answers trail 3 ::
        middle ++ Subscriber.feed { Subscriber.failing with name := "other" } shown :: after ∧
      shown.Sublist (published steps) := by
  intro answers b steps
  have hutc : ∀ e ∈ published steps, StoreKind.sqlite = .sqlite → e.timestamp.Utc := by
    simp [steps, published, Timestamp.Utc, Event.sample]
  have hkeeps : ∀ name : String, name ≠ "failing" → Keeps name steps := by
    intro name hname
    simp [Keeps, steps, hname.symm]
  obtain ⟨shown, -, trail, middle, after', hrun, hsublist, -⟩ :=
    shown_is_stored String.ofList .sqlite answers b [.failing] []
      { Subscriber.failing with name := "other" } steps rfl (by simp [Subscriber.failing]) hutc
      (hkeeps _ (by decide)) (hkeeps _ (by simp))
  exact ⟨shown, trail, middle, after', hrun, hsublist⟩

end Audit

end Bus

end AgenticLocalApp
