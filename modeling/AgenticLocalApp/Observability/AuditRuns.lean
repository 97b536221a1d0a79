import AgenticLocalApp.Observability.AuditIntegrity

/-!
# Every run of the audit log

Events of any sessions are published, the store fails at any read or write, and the program is
restarted over the same store, in any order.
-/

namespace AgenticLocalApp

/-- What happens to the log. -/
inductive AuditStep where
  | publish (e : Event) (eventId : String) (fault : StoreFault)
  | restart

/-- A log and the events that were accepted since the store was empty. -/
structure AuditTrail (S : AuditStore) where
  log : AuditLog S
  accepted : List AuditEvent := []

namespace AuditTrail

variable {S : AuditStore} (sha256 : List Char → String)

def initial (S : AuditStore) : AuditTrail S := { log := { store := S.empty } }

def step (t : AuditTrail S) : AuditStep → AuditTrail S
  | .publish e eventId fault =>
    match t.log.handle sha256 e eventId fault with
    | (.ok (some audited), log) => { log := log, accepted := t.accepted ++ [audited] }
    | (_, log) => { t with log := log }
  | .restart => { t with log := t.log.restart }

def run (t : AuditTrail S) (steps : List AuditStep) : AuditTrail S := steps.foldl (step sha256) t

end AuditTrail

/-- The step publishes no event whose payload or timestamp the store would not read back. -/
def AuditStep.Storable {S : AuditStore} (spec : S.Spec) : AuditStep → Prop
  | .publish e _ _ => ∀ audited : AuditEvent, audited.timestamp = e.timestamp →
      audited.payload.Valid → spec.Storable audited
  | .restart => True

section Run

variable {S : AuditStore} {spec : S.Spec} {sha256 : List Char → String} {t : AuditTrail S}

/-- The store holds exactly what was accepted. -/
def AuditTrail.Kept (spec : S.Spec) (sha256 : List Char → String) (t : AuditTrail S) : Prop :=
  Chained spec sha256 t.log (t.accepted.map spec.readBack)

theorem AuditTrail.Kept.step (h : t.Kept spec sha256) {st : AuditStep} (hst : st.Storable spec) :
    (t.step sha256 st).Kept spec sha256 := by
  cases st with
  | restart => exact Chained.restart h
  | publish e eventId fault =>
    unfold AuditTrail.step
    dsimp only
    rcases Chained.handle eventId fault h hst with
      ⟨audited, hok, hchained, -⟩ | ⟨hfail, hchained⟩
    · generalize t.log.handle sha256 e eventId fault = result at hok hchained ⊢
      obtain ⟨outcome, log⟩ := result
      obtain rfl : outcome = .ok (some audited) := hok
      unfold AuditTrail.Kept
      rw [List.map_append]
      exact hchained
    · generalize t.log.handle sha256 e eventId fault = result at hfail hchained ⊢
      split
      · exact absurd rfl (hfail _)
      · exact hchained

theorem AuditTrail.Kept.run (h : t.Kept spec sha256) {steps : List AuditStep}
    (hsteps : ∀ st ∈ steps, st.Storable spec) : (t.run sha256 steps).Kept spec sha256 := by
  induction steps generalizing t with
  | nil => exact h
  | cons st rest ih =>
    exact ih (h.step (hsteps st List.mem_cons_self)) fun x hx =>
      hsteps x (List.mem_cons_of_mem _ hx)

end Run

/-! ## Both stores -/

/-- What the store keeps of an event. -/
def StoreKind.readBack : StoreKind → AuditEvent → AuditEvent
  | .memory => id
  | .sqlite => AuditEvent.asStored

def StoreKind.auditSpec : (kind : StoreKind) → kind.audit.Spec
  | .memory => memorySpec
  | .sqlite => sqliteSpec

/-- On the SQLite store, the timestamp of what is published is in UTC. -/
def AuditStep.Utc (kind : StoreKind) : AuditStep → Prop
  | .publish e _ _ => kind = .sqlite → e.timestamp.Utc
  | .restart => True

theorem AuditStep.storable_of_utc {kind : StoreKind} {st : AuditStep} (h : st.Utc kind) :
    st.Storable kind.auditSpec := by
  cases st with
  | restart => trivial
  | publish e eventId fault =>
    intro audited htimestamp hvalid
    cases kind with
    | memory => trivial
    | sqlite => exact ⟨hvalid, htimestamp ▸ h rfl⟩

theorem StoreKind.binds_spec {kind : StoreKind} {n : Int} :
    kind.auditSpec.Binds n ↔ kind.Binds n := by
  cases kind with
  | memory => exact iff_of_true trivial fun h => by cases h
  | sqlite => exact ⟨fun h _ => h, fun h => h rfl⟩

theorem StoreKind.readBack_eq (kind : StoreKind) : kind.auditSpec.readBack = kind.readBack := by
  cases kind <;> rfl

theorem chainOf_map_readBack {S : AuditStore} (spec : S.Spec) (accepted : List AuditEvent)
    (sid : String) : chainOf (accepted.map spec.readBack) sid =
      (chainOf accepted sid).map spec.readBack := by
  unfold chainOf
  rw [List.filter_map]
  congr 1
  apply List.filter_congr
  intro e _
  obtain ⟨-, -, -, -, hsid⟩ := spec.readBack_keeps e
  simp only [Function.comp, hsid]

theorem AuditTrail.kept_initial {S : AuditStore} (spec : S.Spec) (sha256 : List Char → String) :
    (AuditTrail.initial S).Kept spec sha256 := chained_empty

/-- After any run: what was accepted of a session is what the store lists of it, each event once and
numbered from one; the chain is found valid, whatever size of the pages the store takes; and the next
event that is accepted is linked to the last one listed. -/
theorem audit_chain_verifies (sha256 : List Char → String) (kind : StoreKind)
    (steps : List AuditStep) (hutc : ∀ st ∈ steps, st.Utc kind) (sid : String) :
    let t := (AuditTrail.initial kind.audit).run sha256 steps
    let stored := (chainOf t.accepted sid).map kind.readBack
    (t.accepted.map AuditEvent.eventId).Nodup ∧
    (∀ limit : Int, stored.length ≤ limit → kind.Binds limit →
      kind.audit.list t.log.store sid none limit = .ok stored) ∧
    stored.map AuditEvent.sequence = List.range' 1 stored.length ∧
    (∀ (pageSize : Int) (pages : Nat), 0 < pageSize → kind.Binds pageSize → stored.length < pages →
      t.log.verify sha256 sid pageSize pages = .ok (some (.valid stored.length))) ∧
    ∀ (e : Event) (eventId : String) (fault : StoreFault) (audited : AuditEvent),
      (AuditStep.publish e eventId fault).Utc kind → e.sessionId = sid →
      (t.log.handle sha256 e eventId fault).1 = .ok (some audited) →
      audited.sequence = stored.getLast?.elim 1 (fun last => last.sequence + 1) ∧
      audited.previousEventHash = stored.getLast?.elim genesisHash AuditEvent.eventHash := by
  intro t stored
  have hkept : t.Kept kind.auditSpec sha256 :=
    (AuditTrail.kept_initial _ _).run fun st hst => AuditStep.storable_of_utc (hutc st hst)
  have hchain : chainOf (t.accepted.map kind.auditSpec.readBack) sid = stored := by
    rw [chainOf_map_readBack, kind.readBack_eq]
  have hlinked := Chained.linked hkept sid
  rw [hchain] at hlinked
  refine ⟨?_, fun limit hlimit hb => ?_, hlinked.sequences, fun pageSize pages hp hb hpages => ?_, ?_⟩
  · have hids := Chained.ids hkept
    rw [List.map_map] at hids
    have hsame : t.accepted.map (AuditEvent.eventId ∘ kind.auditSpec.readBack) =
        t.accepted.map AuditEvent.eventId :=
      List.map_congr_left fun e _ => (kind.auditSpec.readBack_keeps e).1
    rwa [hsame] at hids
  · have hlist : kind.audit.list t.log.store sid none limit = _ := kind.auditSpec.list
      (Chained.holds hkept) (Chained.linked hkept sid).pairwise (by omega) (kind.binds_spec.2 hb)
      (fun _ h => by cases h)
    rw [hlist, hchain]
    have hall : stored.filter (fun e => isAfter none e.sequence) = stored :=
      List.filter_eq_self.2 fun _ _ => rfl
    rw [hall, List.take_of_length_le (by omega)]
  · rw [← hchain] at hpages ⊢
    exact Chained.verify hkept hp (kind.binds_spec.2 hb) hpages
  · rintro e eventId fault audited he rfl hok
    rcases Chained.handle eventId fault hkept (AuditStep.storable_of_utc he) with
      ⟨audited', hok', -, hlink⟩ | ⟨hfail, -⟩
    · rw [hok] at hok'
      cases hok'
      rw [hchain] at hlink
      exact ⟨hlink.sequence_eq, hlink.previous_eq⟩
    · exact absurd hok (hfail _)

/-! ## A clock that is not in UTC -/

/-- An event of the session `s` at the start of 2026, on a clock so many seconds ahead of UTC. -/
def Event.sample (offset : Int) : Event where
  eventType := .sessionCreated
  timestamp := ⟨1767225600000000, some offset⟩
  sessionId := "s"
  payload := .obj []
  payload_valid := by
    rintro j h
    cases h
    trivial

/-- A write fails, and the program restarts between two events. -/
theorem audit_chain_verifies_sample :
    let t := (AuditTrail.initial sqliteAudit).run String.ofList
      [.publish (.sample 0) "evt_1" .write, .publish (.sample 0) "evt_2" .none, .restart,
        .publish (.sample 0) "evt_3" .none]
    t.log.verify String.ofList "s" 1 3 = .ok (some (.valid 2)) := by
  intro t
  have hutc : ∀ st ∈ [AuditStep.publish (.sample 0) "evt_1" .write,
      .publish (.sample 0) "evt_2" .none, .restart, .publish (.sample 0) "evt_3" .none],
      st.Utc .sqlite := by
    simp [AuditStep.Utc, Timestamp.Utc, Event.sample]
  obtain ⟨-, -, -, hverify, -⟩ := audit_chain_verifies String.ofList .sqlite _ hutc "s"
  exact hverify 1 3 (by decide) (fun _ => by decide) (by decide +kernel)

/-- The hash covers the text of a timestamp that is two hours ahead of UTC, and SQLite reads the
timestamp back in UTC.  The last event of an empty page is asked for when a page holds no events. -/
theorem offset_breaks_chain :
    let t := (AuditTrail.initial sqliteAudit).run String.ofList
      [.publish (.sample 7200) "evt_1" .none]
    t.accepted.length = 1 ∧
    (t.log.verify String.ofList "s" 1000 2).toOption = some (some (.broken 0 1 .hashMismatch)) ∧
    (t.log.verify String.ofList "other" 0 1).toOption = some (some .indexError) := by
  decide +kernel

end AgenticLocalApp
