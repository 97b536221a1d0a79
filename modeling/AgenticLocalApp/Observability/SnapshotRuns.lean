import AgenticLocalApp.Observability.ExecutionTracker

/-!
# Snapshots along a run

The components change what is stored and publish events; readers ask for snapshots in between.  An
event makes the tracker read one session again, and of its execution only where the event or the
pointers of the conversation tell of a change.  So the snapshots are those of a rebuilt tracker
exactly as long as every event covers what changed in the store since the one before.
-/

namespace AgenticLocalApp

/-- What happens around the tracker. -/
inductive TrackerAction where
  /-- A transaction of the store. -/
  | write (f : Recorded → Recorded)
  | publish (e : Event)
  /-- A snapshot is asked for. -/
  | read (sid : String)

/-- What is stored and what the tracker holds. -/
structure TrackerState where
  db : Recorded
  tracker : ExecutionTracker := .empty

namespace TrackerState

def step (s : TrackerState) : TrackerAction → TrackerState
  | .write f => { s with db := f s.db }
  | .publish e => { s with tracker := s.tracker.handle s.db e }
  | .read sid => { s with tracker := (s.tracker.snapshot s.db sid 0).2 }

def run (s : TrackerState) (actions : List TrackerAction) : TrackerState := actions.foldl step s

/-- The snapshot of every session, at any time, is the one of a rebuilt tracker. -/
def InStep (s : TrackerState) : Prop :=
  ∀ sid now, (s.tracker.snapshot s.db sid now).1 = (s.tracker.rebuild s.db sid now).1

end TrackerState

/-! ## What an event covers -/

/-- What was stored when a session was last looked at: when the last event was published, or when a
snapshot of it was first asked for since; `none` for a session that was never looked at. -/
abbrev LastLooks := String → Option Recorded

def lookStep (db : Recorded) (looks : LastLooks) : TrackerAction → LastLooks
  | .write _ => looks
  | .publish e =>
    let others : LastLooks := fun sid => (looks sid).map fun _ => db
    if e.eventType.tracked then
      Function.update others e.sessionId ((db.store.getSession e.sessionId).map fun _ => db)
    else others
  | .read sid =>
    Function.update looks sid ((looks sid).or ((db.store.getSession sid).map fun _ => db))

/-- The last looks of a run, beside its state. -/
def lastLooks (s : TrackerState) (actions : List TrackerAction) : LastLooks :=
  (actions.foldl (fun p a => (p.1.step a, lookStep p.1.db p.2 a)) (s, fun _ => none)).2

/-- What a snapshot of the session shows of the store. -/
def Store.shown (σ : Store) (sid : String) : Option (Instant → RecordsView) :=
  (σ.trackedRecords sid).map TrackedRecords.view

/-- What the event says nothing of has not changed since the last looks: nothing that the snapshots
of other sessions show, and nothing of the cycle, the plan and the tasks of its own session unless
it is about them or the conversation points to others. -/
structure Covers (looks : LastLooks) (db : Recorded) (e : Event) : Prop where
  others : ∀ sid before, looks sid = some before → sid ≠ e.sessionId ∨ e.eventType.tracked = false →
    before.store.shown sid = db.store.shown sid
  execution : e.eventType.tracked = true → ∀ before, looks e.sessionId = some before →
    ∀ old new, before.store.trackedRecords e.sessionId = some old →
      db.store.trackedRecords e.sessionId = some new →
      executionMayHaveChanged old.conversation new.conversation e = true ∨
        old.toExecutionRecords.view = new.toExecutionRecords.view

namespace TrackerState

/-! ## Snapshots and rebuilt snapshots -/

variable {s : TrackerState} {db : Recorded} {tracker : ExecutionTracker} {t : Tracked} {e : Event}
  {sid : String}

theorem assemble_inj {t t' : Tracked} {now : Instant} (h : t.assemble now = t'.assemble now) :
    t.toTrackedRecords.view now = t'.toTrackedRecords.view now :=
  congrArg RuntimeSnapshot.toRecordsView h

/-- A cached session is in step when what it shows is stored. -/
theorem snapshot_eq_rebuild_iff (ht : tracker sid = some t) :
    (∀ now, (tracker.snapshot db sid now).1 = (tracker.rebuild db sid now).1) ↔
      db.store.shown sid = some t.toTrackedRecords.view := by
  have hsnapshot : ∀ now, (tracker.snapshot db sid now).1 = .ok (t.assemble now) := fun now => by
    simp [ExecutionTracker.snapshot, ExecutionTracker.entry, ht]
  cases hr : db.store.trackedRecords sid with
  | none =>
    have hshown : db.store.shown sid = none := by simp [Store.shown, hr]
    have hrebuild : ∀ now, ∃ x, (tracker.rebuild db sid now).1 = .error x := fun now => by
      simp [ExecutionTracker.rebuild, Recorded.load, hr]
    constructor
    · intro h
      obtain ⟨x, hx⟩ := hrebuild 0
      rw [← h 0, hsnapshot] at hx
      cases hx
    · intro h
      rw [hshown] at h
      cases h
  | some r =>
    have hshown : db.store.shown sid = some r.view := by simp [Store.shown, hr]
    have hrebuild : ∀ now, (tracker.rebuild db sid now).1 =
        .ok (({ t with toTrackedRecords := r } : Tracked).assemble now) := fun now => by
      simp [ExecutionTracker.rebuild, Recorded.load, hr, ht]
    rw [hshown, Option.some_inj]
    constructor
    · intro h
      funext now
      have hnow := h now
      rw [hsnapshot, hrebuild] at hnow
      exact (assemble_inj (Except.ok.inj hnow)).symm
    · intro h now
      rw [hsnapshot, hrebuild]
      simp only [Tracked.assemble, h]

/-- A session that is not cached is in step. -/
theorem snapshot_eq_rebuild_of_none (ht : tracker sid = none) (now : Instant) :
    (tracker.snapshot db sid now).1 = (tracker.rebuild db sid now).1 := by
  simp only [ExecutionTracker.snapshot, ExecutionTracker.rebuild, ExecutionTracker.entry, ht,
    Option.none_or]
  cases db.load sid none <;> rfl

theorem inStep_iff : s.InStep ↔ ∀ sid t, s.tracker sid = some t →
    s.db.store.shown sid = some t.toTrackedRecords.view := by
  constructor
  · exact fun h sid t ht => (snapshot_eq_rebuild_iff ht).1 (h sid)
  · intro h sid
    cases ht : s.tracker sid with
    | none => exact snapshot_eq_rebuild_of_none ht
    | some t => exact (snapshot_eq_rebuild_iff ht).2 (h sid t ht)

/-! ## One event -/

/-- The cache holds what was stored at the last looks. -/
def Agrees (looks : LastLooks) (tracker : ExecutionTracker) : Prop :=
  ∀ sid, Option.Rel (fun before t => before.store.shown sid = some t.toTrackedRecords.view)
    (looks sid) (tracker sid)

theorem Agrees.shown {looks : LastLooks} (h : Agrees looks tracker) {before : Recorded}
    (hlook : looks sid = some before) (ht : tracker sid = some t) :
    before.store.shown sid = some t.toTrackedRecords.view := by
  have hrel := h sid
  rw [hlook, ht] at hrel
  cases hrel
  assumption

theorem handle_of_ne (h : sid ≠ e.sessionId ∨ e.eventType.tracked = false) :
    tracker.handle db e sid = tracker sid := by
  unfold ExecutionTracker.handle
  split
  · next htracked =>
    have hne : sid ≠ e.sessionId := h.resolve_right (by simp [htracked])
    rw [Function.update_of_ne hne]
  · rfl

theorem handle_of_none (h : e.eventType.tracked = true) (ht : tracker e.sessionId = none) :
    tracker.handle db e e.sessionId =
      (db.load e.sessionId none).map fun t' : Tracked => t'.noted db e := by
  simp [ExecutionTracker.handle, h, ht]

theorem handle_of_some (h : e.eventType.tracked = true) (ht : tracker e.sessionId = some t) :
    tracker.handle db e e.sessionId =
      (db.refresh t e).map fun t' : Tracked => t'.noted db e := by
  simp [ExecutionTracker.handle, h, ht]

/-- Views that agree show the same pointers. -/
theorem pointers_of_view {r r' : TrackedRecords} (h : r.view = r'.view) :
    pointers r.conversation = pointers r'.conversation := by
  have hc := congrArg RecordsView.conversation (congrFun h 0)
  simp only [TrackedRecords.view] at hc
  cases hr : r.conversation with
  | none =>
    cases hr' : r'.conversation with
    | none => rfl
    | some c' => simp [hr, hr'] at hc
  | some c =>
    cases hr' : r'.conversation with
    | none => simp [hr, hr'] at hc
    | some c' =>
      simp only [hr, hr', Option.map_some, Option.some_inj, conversationView,
        ConversationView.mk.injEq] at hc
      simp [pointers, hc]

theorem executionMayHaveChanged_congr {c c' after : Option ConversationRecord}
    (h : pointers c = pointers c') :
    executionMayHaveChanged c after e = executionMayHaveChanged c' after e := by
  simp only [executionMayHaveChanged, h]

/-- An entry that was in step with `old` is refreshed to what is stored now exactly where the event
tells of the execution, or the execution looks as it did. -/
theorem view_refreshed_iff {old new : TrackedRecords} (hold : old.view = t.toTrackedRecords.view) :
    new.view = TrackedRecords.view { new with
      toExecutionRecords :=
        if executionMayHaveChanged t.conversation new.conversation e then new.toExecutionRecords
        else t.toExecutionRecords } ↔
      executionMayHaveChanged old.conversation new.conversation e = true ∨
        old.toExecutionRecords.view = new.toExecutionRecords.view := by
  have hexecution : old.toExecutionRecords.view = t.toExecutionRecords.view :=
    congrArg RecordsView.toExecutionView (congrFun hold 0)
  rw [executionMayHaveChanged_congr (pointers_of_view hold)]
  by_cases hmay : executionMayHaveChanged t.conversation new.conversation e = true
  · simp [hmay]
  · rw [if_neg hmay, hexecution]
    constructor
    · intro h
      exact .inr (congrArg RecordsView.toExecutionView (congrFun h 0)).symm
    · rintro (h | h)
      · exact absurd h hmay
      · funext now
        simp only [TrackedRecords.view, h]

theorem shown_eq_some_iff {σ : Store} {v : Instant → RecordsView} :
    σ.shown sid = some v ↔ ∃ r, σ.trackedRecords sid = some r ∧ r.view = v :=
  Option.map_eq_some_iff

theorem load_records {previous : Option Tracked} (h : db.load sid previous = some t) :
    db.store.trackedRecords sid = some t.toTrackedRecords := by
  unfold Recorded.load at h
  cases hr : db.store.trackedRecords sid with
  | none => simp [hr] at h
  | some r =>
    cases previous with
    | none =>
      simp only [hr, Option.map_some, Option.some_inj] at h
      rw [← h]
    | some p =>
      simp only [hr, Option.map_some, Option.some_inj] at h
      rw [← h]

/-- The session of a tracked event, which was in step with the last look at it. -/
theorem own_inStep_iff {looks : LastLooks} (htracked : e.eventType.tracked = true)
    (hagrees : Agrees looks tracker) :
    (∀ t, tracker.handle db e e.sessionId = some t →
        db.store.shown e.sessionId = some t.toTrackedRecords.view) ↔
      ∀ before, looks e.sessionId = some before →
        ∀ old new, before.store.trackedRecords e.sessionId = some old →
          db.store.trackedRecords e.sessionId = some new →
          executionMayHaveChanged old.conversation new.conversation e = true ∨
            old.toExecutionRecords.view = new.toExecutionRecords.view := by
  have hrel := hagrees e.sessionId
  cases hlook : looks e.sessionId with
  | none =>
    rw [hlook] at hrel
    cases ht : tracker e.sessionId with
    | some t => rw [ht] at hrel; cases hrel
    | none =>
      -- nothing was cached: the entry is loaded
      refine ⟨fun _ before h => by simp at h, fun _ t h => ?_⟩
      rw [handle_of_none htracked ht, Option.map_eq_some_iff] at h
      obtain ⟨loaded, hloaded, rfl⟩ := h
      exact shown_eq_some_iff.2 ⟨_, load_records hloaded, rfl⟩
  | some before =>
    rw [hlook] at hrel
    cases ht : tracker e.sessionId with
    | none => rw [ht] at hrel; cases hrel
    | some t =>
      obtain ⟨old, hold, hview⟩ := shown_eq_some_iff.1 (hagrees.shown hlook ht)
      cases hnew : db.store.trackedRecords e.sessionId with
      | none =>
        have hgone : tracker.handle db e e.sessionId = none := by
          rw [handle_of_some htracked ht, Recorded.refresh, hnew]
          rfl
        simp [hgone]
      | some new =>
        have hkept : tracker.handle db e e.sessionId = some (Tracked.noted { t with
            toTrackedRecords := { new with
              toExecutionRecords :=
                if executionMayHaveChanged t.conversation new.conversation e then
                  new.toExecutionRecords
                else t.toExecutionRecords } } db e) := by
          rw [handle_of_some htracked ht, Recorded.refresh, hnew]
          rfl
        have hshown : db.store.shown e.sessionId = some new.view := shown_eq_some_iff.2 ⟨_, hnew, rfl⟩
        have hiff : new.view = _ ↔
            executionMayHaveChanged old.conversation new.conversation e = true ∨ _ :=
          view_refreshed_iff hview
        rw [hkept, hshown]
        constructor
        · rintro h before' hbefore old' new' hold' hnew'
          cases hbefore
          cases hold.symm.trans hold'
          cases hnew'
          exact hiff.1 (Option.some_inj.1 (h _ rfl))
        · rintro h t' ht'
          cases ht'
          exact congrArg some (hiff.2 (h before rfl old new hold rfl))

/-- A session that the event is not of, and that was in step with the last look at it. -/
theorem other_inStep_iff {looks : LastLooks} (hagrees : Agrees looks tracker)
    (hsid : sid ≠ e.sessionId ∨ e.eventType.tracked = false) :
    (∀ t, tracker.handle db e sid = some t → db.store.shown sid = some t.toTrackedRecords.view) ↔
      ∀ before, looks sid = some before → before.store.shown sid = db.store.shown sid := by
  have hrel := hagrees sid
  rw [handle_of_ne hsid]
  cases hlook : looks sid with
  | none =>
    rw [hlook] at hrel
    cases ht : tracker sid with
    | none => simp
    | some t => rw [ht] at hrel; cases hrel
  | some before =>
    rw [hlook] at hrel
    cases ht : tracker sid with
    | none => rw [ht] at hrel; cases hrel
    | some t =>
      have hview := hagrees.shown hlook ht
      constructor
      · rintro h before' hbefore
        cases hbefore
        rw [hview, h t rfl]
      · rintro h t' ht'
        cases ht'
        rw [← h before rfl, hview]

/-- After an event, all sessions are in step exactly when the event covers what changed. -/
theorem inStep_publish_iff {looks : LastLooks} (hagrees : Agrees looks s.tracker) :
    (s.step (.publish e)).InStep ↔ Covers looks s.db e := by
  rw [inStep_iff]
  constructor
  · intro h
    exact
      { others := fun sid before hbefore hsid =>
          (other_inStep_iff hagrees hsid).1 (fun t ht => h sid t ht) before hbefore
        execution := fun htracked =>
          (own_inStep_iff htracked hagrees).1 fun t ht => h e.sessionId t ht }
  · intro h sid
    by_cases hsid : sid ≠ e.sessionId ∨ e.eventType.tracked = false
    · exact (other_inStep_iff hagrees hsid).2 fun before hbefore => h.others sid before hbefore hsid
    · simp only [not_or, ne_eq, not_not, Bool.not_eq_false] at hsid
      obtain ⟨rfl, htracked⟩ := hsid
      exact (own_inStep_iff htracked hagrees).2 (h.execution htracked)

/-! ## The last looks along a run -/

theorem trackedRecords_eq_none_iff {σ : Store} :
    σ.trackedRecords sid = none ↔ σ.getSession sid = none :=
  Option.map_eq_none_iff

/-- A session just read, if it is known. -/
theorem agrees_of_load {t? : Option Tracked}
    (h : ∀ t, t? = some t → db.store.shown sid = some t.toTrackedRecords.view)
    (hnone : t? = none ↔ db.store.getSession sid = none) :
    Option.Rel (fun before (t : Tracked) => before.store.shown sid = some t.toTrackedRecords.view)
      ((db.store.getSession sid).map fun _ => db) t? := by
  cases hs : db.store.getSession sid with
  | none =>
    rw [hnone.2 hs]
    exact .none
  | some session =>
    cases ht : t? with
    | none =>
      rw [hnone.1 ht] at hs
      cases hs
    | some t => exact .some (h t ht)

theorem load_eq_none_iff {previous : Option Tracked} :
    db.load sid previous = none ↔ db.store.getSession sid = none := by
  rw [Recorded.load, Option.map_eq_none_iff, trackedRecords_eq_none_iff]

theorem agrees_read {looks : LastLooks} (h : Agrees looks s.tracker) (read : String) :
    Agrees (lookStep s.db looks (.read read)) (s.step (.read read)).tracker := by
  intro sid
  have hrel := h sid
  simp only [lookStep, step, ExecutionTracker.snapshot]
  by_cases hsid : sid = read
  · subst hsid
    rw [Function.update_self]
    cases ht : s.tracker sid with
    | some t =>
      cases hlook : looks sid with
      | none => rw [ht, hlook] at hrel; cases hrel
      | some before =>
        simp only [ExecutionTracker.entry, ht, Option.some_or, Function.update_self]
        exact .some (h.shown hlook ht)
    | none =>
      cases hlook : looks sid with
      | some before => rw [ht, hlook] at hrel; cases hrel
      | none =>
        simp only [ExecutionTracker.entry, ht, Option.none_or]
        cases hload : s.db.load sid none with
        | none =>
          simp only [load_eq_none_iff.1 hload, Option.map_none, ht]
          exact .none
        | some t =>
          simp only [Function.update_self]
          refine agrees_of_load (fun t' ht' => ?_) (by rw [← hload]; exact load_eq_none_iff)
          cases ht'
          exact shown_eq_some_iff.2 ⟨_, load_records hload, rfl⟩
  · rw [Function.update_of_ne hsid]
    cases s.tracker.entry s.db read with
    | none => exact hrel
    | some t => simpa only [Function.update_of_ne hsid] using hrel

theorem agrees_publish {looks : LastLooks} (h : Agrees looks s.tracker)
    (hstep : (s.step (.publish e)).InStep) :
    Agrees (lookStep s.db looks (.publish e)) (s.step (.publish e)).tracker := by
  intro sid
  have hrel := h sid
  have hin := fun t => inStep_iff.1 hstep sid t
  simp only [step] at hin
  by_cases hsid : sid ≠ e.sessionId ∨ e.eventType.tracked = false
  · have hlooks : lookStep s.db looks (.publish e) sid = (looks sid).map fun _ => s.db := by
      simp only [lookStep]
      split
      · next htracked => rw [Function.update_of_ne (hsid.resolve_right (by simp [htracked]))]
      · rfl
    rw [hlooks]
    simp only [step]
    rw [handle_of_ne hsid] at hin ⊢
    cases ht : s.tracker sid with
    | none =>
      cases hlook : looks sid with
      | none => exact .none
      | some before => rw [ht, hlook] at hrel; cases hrel
    | some t =>
      cases hlook : looks sid with
      | none => rw [ht, hlook] at hrel; cases hrel
      | some before => exact .some (hin t ht)
  · simp only [not_or, ne_eq, not_not, Bool.not_eq_false] at hsid
    obtain ⟨rfl, htracked⟩ := hsid
    simp only [lookStep, htracked, if_true, Function.update_self, step]
    refine agrees_of_load hin ?_
    cases ht : s.tracker e.sessionId with
    | none => rw [handle_of_none htracked ht, Option.map_eq_none_iff, load_eq_none_iff]
    | some t =>
      rw [handle_of_some htracked ht, Option.map_eq_none_iff, Recorded.refresh,
        Option.map_eq_none_iff, trackedRecords_eq_none_iff]

end TrackerState

/-! ## Whole runs -/

/-- Something that holds whenever an event is published, of what happened before it and of it. -/
def AtEvents (P : List TrackerAction → Event → Prop) (actions : List TrackerAction) : Prop :=
  ∀ before e, before ++ [.publish e] <+: actions → P before e

theorem atEvents_concat {P : List TrackerAction → Event → Prop} {actions : List TrackerAction}
    {a : TrackerAction} :
    AtEvents P (actions ++ [a]) ↔ AtEvents P actions ∧ ∀ e, a = .publish e → P actions e := by
  constructor
  · intro h
    refine ⟨fun before e hp => h before e (hp.trans (List.prefix_append _ _)), ?_⟩
    rintro e rfl
    exact h actions e List.prefix_rfl
  · rintro ⟨h, ha⟩ before e hp
    rcases List.prefix_concat_iff.1 hp with heq | hp
    · obtain ⟨rfl, hlast⟩ := List.append_inj' heq rfl
      exact ha e (List.cons.inj hlast).1.symm
    · exact h before e hp

namespace TrackerState

variable {db : Recorded} {actions : List TrackerAction}

/-- A tracker that starts over a store. -/
def start (db : Recorded) : TrackerState := { db := db }

/-- After each published event, the snapshot of every session is the rebuilt one. -/
def AlwaysInStep (db : Recorded) (actions : List TrackerAction) : Prop :=
  AtEvents (fun before e => ((start db).run (before ++ [.publish e])).InStep) actions

/-- Each event that is published covers what changed since the last looks. -/
def AlwaysCovered (db : Recorded) (actions : List TrackerAction) : Prop :=
  AtEvents (fun before e => Covers (lastLooks (start db) before) ((start db).run before).db e) actions

theorem run_concat {s : TrackerState} {a : TrackerAction} :
    s.run (actions ++ [a]) = (s.run actions).step a := by
  simp [run]

theorem lastLooks_pair (s : TrackerState) (actions : List TrackerAction) :
    actions.foldl (fun p a => (p.1.step a, lookStep p.1.db p.2 a)) (s, fun _ => none) =
      (s.run actions, lastLooks s actions) := by
  induction actions using List.reverseRecOn with
  | nil => rfl
  | append_singleton actions a ih =>
    rw [lastLooks, List.foldl_append, ih, run_concat]
    rfl

theorem lastLooks_concat {s : TrackerState} {a : TrackerAction} :
    lastLooks s (actions ++ [a]) = lookStep (s.run actions).db (lastLooks s actions) a := by
  rw [lastLooks, List.foldl_append, lastLooks_pair]
  rfl

/-- While the snapshots are in step, the cache holds what was stored at the last looks. -/
theorem agrees_run (h : AlwaysInStep db actions) :
    Agrees (lastLooks (start db) actions) ((start db).run actions).tracker := by
  induction actions using List.reverseRecOn with
  | nil => exact fun _ => .none
  | append_singleton actions a ih =>
    obtain ⟨hbefore, hlast⟩ := atEvents_concat.1 h
    have hagrees := ih hbefore
    rw [lastLooks_concat, run_concat]
    cases a with
    | write f => exact hagrees
    | read sid => exact agrees_read hagrees sid
    | publish e =>
      refine agrees_publish hagrees ?_
      rw [← run_concat]
      exact hlast e rfl

/-- The tracker shows what a rebuilt one would, event after event, exactly in the runs in which each
event covers what changed in the store. -/
theorem alwaysInStep_iff : AlwaysInStep db actions ↔ AlwaysCovered db actions := by
  induction actions using List.reverseRecOn with
  | nil =>
    constructor <;>
    · intro _ before e hp
      simp at hp
  | append_singleton actions a ih =>
    rw [AlwaysInStep, AlwaysCovered, atEvents_concat, atEvents_concat]
    have hlast : AlwaysInStep db actions → ∀ e, ((start db).run (actions ++ [.publish e])).InStep ↔
        Covers (lastLooks (start db) actions) ((start db).run actions).db e := fun h e => by
      rw [run_concat]
      exact inStep_publish_iff (agrees_run h)
    constructor
    · rintro ⟨h, ha⟩
      exact ⟨ih.1 h, fun e he => (hlast h e).1 (ha e he)⟩
    · rintro ⟨h, ha⟩
      exact ⟨ih.2 h, fun e he => (hlast (ih.2 h) e).2 (ha e he)⟩

end TrackerState

end AgenticLocalApp
