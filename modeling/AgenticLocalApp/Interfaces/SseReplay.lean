import AgenticLocalApp.Interfaces.SseWire
import AgenticLocalApp.Observability.EventBus

/-!
# A replayed frame repeats the live one

The frame of an audited event is made of the event itself while it is published, and of the event
that the store lists when it is replayed.  Both are the same text, over either store, and the pages
of a replay make up what was published behind the position.
-/

namespace AgenticLocalApp

section Frames

-- how the validation library prints a `datetime`
variable (dump : Timestamp → String)

/-- The fields that an event and its audit event have in common. -/
def eventFields (eventType : String) (timestamp : Timestamp) (sessionId : String)
    (conversationId cycleId planId taskId : Option String) (payload : Json) :
    List (String × Json) :=
  [("event_type", .str eventType), ("timestamp", .str (dump timestamp)),
    ("session_id", .str sessionId), ("conversation_id", optionalText conversationId),
    ("cycle_id", optionalText cycleId), ("plan_id", optionalText planId),
    ("task_id", optionalText taskId), ("payload", payload)]

/-- `_live_frame`, of an event that the audit log has chained as `last`; `none` when one of its
texts has no encoding. -/
def liveFrame (e : Event) (last : AuditEvent) : Option WireFrame := do
  let planId ← e.planId.mapM RawText.encode
  let taskId ← e.taskId.mapM RawText.encode
  let payload ← e.payload.encode
  let data := eventFields dump (StrEnum.value e.eventType) e.timestamp e.sessionId e.conversationId
    e.cycleId planId taskId payload
  return {
    id := some (Nat.toDigits 10 last.sequence)
    event := some (StrEnum.value e.eventType).toList
    data := some (Json.obj (data ++ [("sequence", .int last.sequence),
      ("event_id", .str last.eventId)])).canonical }

/-- `frame_from_audit_event`. -/
def frameFromAuditEvent (e : AuditEvent) : WireFrame :=
  let data := eventFields dump e.eventType e.timestamp e.sessionId e.conversationId e.cycleId
    e.planId e.taskId e.payload
  { id := some (Nat.toDigits 10 e.sequence)
    event := some e.eventType.toList
    data := some (Json.obj (("event_id", .str e.eventId) :: ("sequence", .int e.sequence) ::
      data)).canonical }

/-- The frame that a step has the broker make, for a session.  The event reaches it when the audit
log has not raised, and the log is asked for the last event of the session. -/
def AuditTrail.liveFrames {S : AuditStore} (sha256 : List Char → String) (sid : String)
    (t : AuditTrail S) : AuditStep → List WireFrame
  | .publish e eventId fault =>
    match t.log.handle sha256 e eventId fault with
    | (.ok (some _), log) =>
      if e.sessionId = sid then
        match log.lastOf sid .none with
        | .ok (some last, _) => (liveFrame dump e last).toList
        | _ => []
      else []
    | _ => []
  | .restart => []

/-- The frames of a session, over a run. -/
def AuditTrail.liveStream {S : AuditStore} (sha256 : List Char → String) (sid : String) :
    (t : AuditTrail S) → List AuditStep → List WireFrame
  | _, [] => []
  | t, st :: steps =>
    t.liveFrames dump sha256 sid st ++ liveStream sha256 sid (t.step sha256 st) steps

/-- `_replay`: page after page of the events behind `cursor` that the client takes; `none` when they
are more than `pages`. -/
def replayFrom (S : AuditStore) (σ : S.State) (sid : String) (accepts : AuditEvent → Bool) :
    (pages : Nat) → (cursor : Nat) → Except Exc (Option (List AuditEvent))
  | 0, _ => .ok none
  | pages + 1, cursor => do
    let page ← S.list σ sid (some cursor) replayPageSize
    if page.length < replayPageSize then return some (page.filter accepts)
    else
      match page.getLast? with
      | none => return none
      | some last =>
        let rest ← replayFrom S σ sid accepts pages last.sequence
        return rest.map (page.filter accepts ++ ·)

/-! ## One event -/

variable {dump}

/-- Fields with different keys make one text, whatever their order. -/
theorem canonical_perm {fs gs : List (String × Json)} (hperm : fs.Perm gs)
    (hkeys : (fs.map Prod.fst).Nodup) : (Json.obj fs).canonical = (Json.obj gs).canonical := by
  have hmap : ∀ fields : List (String × Json), Json.canonicalFields fields =
      fields.map fun f => (f.1, f.2.canonical) := by
    intro fields
    induction fields with
    | nil => rfl
    | cons f rest ih => rw [Json.canonicalFields, ih]; rfl
  have hsorted : Json.sortFields (Json.canonicalFields fs) =
      Json.sortFields (Json.canonicalFields gs) := by
    rw [hmap, hmap, Json.sortFields_map, Json.sortFields_map]
    congr 1
    have hfs : (Json.sortFields fs).Perm fs := List.perm_insertionSort _ _
    have hgs : (Json.sortFields gs).Perm gs := List.perm_insertionSort _ _
    refine List.Perm.eq_of_pairwise (fun a b ha hb hab hba => ?_)
      (List.pairwise_insertionSort Json.keyLe fs) (List.pairwise_insertionSort Json.keyLe gs)
      (hfs.trans (hperm.trans hgs.symm))
    exact List.inj_on_of_nodup_map hkeys (hfs.mem_iff.1 ha)
      (hperm.mem_iff.2 (hgs.mem_iff.1 hb)) (String.le_antisymm hab hba)
  rw [Json.canonical, Json.canonical, hsorted]

theorem canonical_moved {fields : List (String × Json)} {a b : String × Json}
    (hkeys : ((fields ++ [a, b]).map Prod.fst).Nodup) :
    (Json.obj (fields ++ [a, b])).canonical = (Json.obj (b :: a :: fields)).canonical :=
  canonical_perm (List.perm_append_comm.trans ((List.Perm.swap b a []).append_right fields)) hkeys

theorem liveFrame_eq {e : Event} {eventId : String} {previous : Option AuditEvent}
    {link audited : AuditEvent} (h : e.link eventId previous = some link) (hash : String)
    (haudited : audited = { link with eventHash := hash }) :
    liveFrame dump e audited = some (frameFromAuditEvent dump audited) := by
  unfold Event.link at h
  simp only [Option.bind_eq_bind, Option.bind_eq_some_iff] at h
  obtain ⟨planId, hplan, taskId, htask, payload, hpayload, h⟩ := h
  cases h
  subst haudited
  unfold liveFrame frameFromAuditEvent
  simp only [hplan, htask, hpayload, Option.bind_eq_bind, Option.bind_some]
  rw [canonical_moved (by simp [eventFields])]
  rfl

theorem sessionId_of_link {e : Event} {eventId hash : String} {previous : Option AuditEvent}
    {link audited : AuditEvent} (h : e.link eventId previous = some link)
    (haudited : audited = { link with eventHash := hash }) :
    audited.sessionId = e.sessionId ∧ audited.timestamp = e.timestamp := by
  subst haudited
  exact ⟨(isLink_of_link h).sessionId_eq, (isLink_of_link h).timestamp_eq⟩

/-- What the SQLite store reads back of an event in UTC makes the same frame. -/
theorem frame_asStored {e : AuditEvent} (h : e.timestamp.offset = some 0) :
    frameFromAuditEvent dump e.asStored = frameFromAuditEvent dump e := by
  have htime : (⟨e.timestamp.instant, some 0⟩ : Timestamp) = e.timestamp := by rw [← h]
  unfold frameFromAuditEvent
  simp only [AuditEvent.asStored, htime, eventFields, Json.canonical, Json.canonicalFields,
    Json.canonical_sorted]

/-! ## Runs -/

section Runs

variable {kind : StoreKind} {sha256 : List Char → String} {sid : String}

/-- An accepted event is in UTC if the store keeps instants only. -/
def StoreKind.Exact (kind : StoreKind) (e : AuditEvent) : Prop :=
  kind = .sqlite → e.timestamp.offset = some 0

theorem StoreKind.Exact.frame {e : AuditEvent} (h : kind.Exact e) :
    frameFromAuditEvent dump (kind.readBack e) = frameFromAuditEvent dump e := by
  cases kind with
  | memory => rfl
  | sqlite => exact frame_asStored (h rfl)

variable (dump sha256 sid) in
/-- What a step adds to the accepted events is what it has the broker show. -/
theorem liveFrames_step (t : AuditTrail kind.audit) {st : AuditStep} (hst : st.Utc kind) :
    ∃ added, (t.step sha256 st).accepted = t.accepted ++ added ∧ (∀ e ∈ added, kind.Exact e) ∧
      t.liveFrames dump sha256 sid st = (chainOf added sid).map (frameFromAuditEvent dump) := by
  cases st with
  | restart => exact ⟨[], (List.append_nil _).symm, by simp, rfl⟩
  | publish e eventId fault =>
    unfold AuditTrail.step AuditTrail.liveFrames
    dsimp only
    cases hresult : t.log.handle sha256 e eventId fault with
    | mk outcome log =>
      cases outcome with
      | error exc => exact ⟨[], (List.append_nil _).symm, by simp, rfl⟩
      | ok result =>
        cases result with
        | none => exact ⟨[], (List.append_nil _).symm, by simp, rfl⟩
        | some audited =>
          obtain ⟨⟨previous, link, hlink, haudited⟩, ⟨σ, happend⟩, hlast⟩ := handle_ok hresult
          obtain ⟨hsession, htimestamp⟩ := sessionId_of_link hlink haudited
          refine ⟨[audited], rfl, ?_, ?_⟩
          · intro e' he' hkind
            subst hkind
            rw [List.mem_singleton.1 he', htimestamp]
            have haware := (SqliteAudit.append_ok happend).2.1
            rw [htimestamp] at haware
            exact (hst rfl).resolve_left haware
          · dsimp only
            by_cases hsid : e.sessionId = sid
            · subst hsid
              have hlastOf : log.lastOf e.sessionId .none = .ok (some audited, log) := by
                unfold AuditLog.lastOf
                rw [hlast]
              have hchain : chainOf [audited] e.sessionId = [audited] :=
                List.filter_cons_of_pos (decide_eq_true hsession)
              rw [if_pos rfl, hlastOf, hchain]
              dsimp only
              rw [liveFrame_eq hlink _ haudited]
              rfl
            · have hchain : chainOf [audited] sid = [] :=
                List.filter_cons_of_neg (by simpa [hsession] using hsid)
              rw [if_neg hsid, hchain]
              rfl

variable (dump sha256 sid) in
theorem liveStream_run (t : AuditTrail kind.audit) {steps : List AuditStep}
    (hsteps : ∀ st ∈ steps, st.Utc kind) :
    ∃ added, (t.run sha256 steps).accepted = t.accepted ++ added ∧ (∀ e ∈ added, kind.Exact e) ∧
      t.liveStream dump sha256 sid steps = (chainOf added sid).map (frameFromAuditEvent dump) := by
  induction steps generalizing t with
  | nil => exact ⟨[], (List.append_nil _).symm, by simp, rfl⟩
  | cons st steps ih =>
    obtain ⟨first, haccepted, hexact, hframes⟩ :=
      liveFrames_step dump sha256 sid t (hsteps st List.mem_cons_self)
    obtain ⟨rest, haccepted', hexact', hframes'⟩ :=
      ih (t.step sha256 st) fun st' hst' => hsteps st' (List.mem_cons_of_mem _ hst')
    refine ⟨first ++ rest, ?_, ?_, ?_⟩
    · rw [← List.append_assoc, ← haccepted, ← haccepted']
      rfl
    · intro e he
      rcases List.mem_append.1 he with he | he
      · exact hexact e he
      · exact hexact' e he
    · rw [AuditTrail.liveStream, hframes, hframes']
      unfold chainOf
      rw [List.filter_append, List.map_append]

/-! ## Replays -/

/-- The events behind a position are the rest of the chain. -/
theorem filter_isAfter {es : List AuditEvent} (h : Linked sha256 genesisHash 1 es) (n : Nat) :
    es.filter (fun e => isAfter (some n) e.sequence) = es.drop n := by
  by_cases hn : n ≤ es.length
  · have hlength : (es.take n).length = n := List.length_take_of_le hn
    have hlinked : Linked sha256 genesisHash 1 (es.take n ++ es.drop n) := by
      rwa [List.take_append_drop]
    have hafter := hlinked.filter_after
    rwa [List.take_append_drop, hlength] at hafter
  · rw [List.drop_eq_nil_of_le (by omega), List.filter_eq_nil_iff]
    intro e he
    have hbounds := h.bounds e he
    simp only [isAfter, decide_eq_true_eq]
    omega

/-- The pages of a replay make up the chain behind the position, if the store takes the position and
the size of a page. -/
theorem replayFrom_eq {S : AuditStore} {spec : S.Spec} {σ : S.State} {es : List AuditEvent}
    (hholds : spec.Holds σ es) (hlinked : Linked sha256 genesisHash 1 (chainOf es sid))
    (hsize : spec.Binds replayPageSize) (accepts : AuditEvent → Bool) {pages cursor : Nat}
    (hcursor : spec.Binds cursor) (hpages : (chainOf es sid).length < pages + cursor)
    (hone : 0 < pages) :
    replayFrom S σ sid accepts pages cursor =
      .ok (some (((chainOf es sid).drop cursor).filter accepts)) := by
  induction pages generalizing cursor with
  | zero => omega
  | succ pages ih =>
    have hafter : ∀ n : Nat, n ∈ some cursor → spec.Binds n := by
      rintro n ⟨⟩
      exact hcursor
    have hlist : S.list σ sid (some cursor) replayPageSize =
        .ok (((chainOf es sid).drop cursor).take replayPageSize) := by
      rw [spec.list hholds hlinked.pairwise (by omega) hsize hafter, filter_isAfter hlinked]
      rfl
    unfold replayFrom
    rw [hlist]
    simp only [bind, Except.bind]
    have hpos : 0 < replayPageSize := by decide
    clear hsize
    generalize replayPageSize = size at hpos hlist ⊢
    by_cases hshort : ((chainOf es sid).drop cursor).length < size
    · rw [List.take_of_length_le (by omega), if_pos hshort]
      rfl
    · -- a full page ends with the event that the next one starts behind
      have hfull : (((chainOf es sid).drop cursor).take size).length = size :=
        List.length_take_of_le (by omega)
      rw [if_neg (by omega)]
      rw [List.length_drop] at hshort
      have hlast : (((chainOf es sid).drop cursor).take size).getLast?.map
          AuditEvent.sequence = some (cursor + size) := by
        rw [← List.getLast?_map, List.getLast?_eq_getElem?, List.length_map, hfull, List.map_take,
          List.map_drop, hlinked.sequences, List.getElem?_take_of_lt (by omega), List.getElem?_drop,
          List.getElem?_range' (by omega)]
        congr 1
        omega
      obtain ⟨last, hlast, hsequence⟩ := Option.map_eq_some_iff.1 hlast
      have hmem : last ∈ chainOf es sid :=
        List.mem_of_mem_drop (List.mem_of_mem_take (List.mem_of_mem_getLast? hlast))
      have hnext : spec.Binds ((cursor + size : Nat) : Int) := by
        rw [← hsequence]
        exact spec.binds_sequence hholds last (List.mem_filter.1 hmem).1
      rw [hlast]
      dsimp only
      rw [hsequence, ih hnext (by omega) (by omega)]
      dsimp only [Option.map]
      rw [← List.filter_append, ← List.drop_drop, List.take_append_drop]
      rfl

/-- Either store takes the size of a page. -/
theorem StoreKind.binds_replayPageSize (kind : StoreKind) : kind.Binds replayPageSize :=
  fun _ => by decide

/-- After any run over either store, in UTC if it is the SQLite store: the frames that the broker
has made live of a session are those that its stored events make, text for text; and a replay behind
any position that the store takes yields the rest of these events that the client takes, however
many pages it needs. -/
theorem replay_repeats (dump : Timestamp → String) (sha256 : List Char → String) (kind : StoreKind)
    (steps : List AuditStep) (hutc : ∀ st ∈ steps, st.Utc kind) (sid : String) :
    let t := (AuditTrail.initial kind.audit).run sha256 steps
    ∃ stored : List AuditEvent,
      stored.map (frameFromAuditEvent dump) =
        (AuditTrail.initial kind.audit).liveStream dump sha256 sid steps ∧
      ∀ (accepts : AuditEvent → Bool) (cursor pages : Nat), kind.Binds cursor →
        stored.length < pages →
        replayFrom kind.audit t.log.store sid accepts pages cursor =
          .ok (some ((stored.drop cursor).filter accepts)) := by
  intro t
  have hkept : t.Kept kind.auditSpec sha256 :=
    (AuditTrail.kept_initial _ _).run fun st hst => AuditStep.storable_of_utc (hutc st hst)
  obtain ⟨added, haccepted, hexact, hframes⟩ :=
    liveStream_run dump sha256 sid (AuditTrail.initial kind.audit) hutc
  have hall : t.accepted = added := haccepted.trans (List.nil_append added)
  refine ⟨chainOf (t.accepted.map kind.auditSpec.readBack) sid, ?_, ?_⟩
  · rw [hframes, chainOf_map_readBack, kind.readBack_eq, hall, List.map_map]
    apply List.map_congr_left
    intro e he
    exact (hexact e (List.mem_filter.1 he).1).frame
  · intro accepts cursor pages hcursor hpages
    exact replayFrom_eq (Chained.holds hkept) (Chained.linked hkept sid)
      (kind.binds_spec.2 kind.binds_replayPageSize) accepts (kind.binds_spec.2 hcursor) (by omega)
      (by omega)

/-- An event of a session whose payload has objects and a list in it. -/
def Event.nested (sid : String) : Event where
  eventType := .sessionCreated
  timestamp := ⟨1767225600000000, some 0⟩
  sessionId := sid
  payload := .obj [(.ofString "b", .arr [.int 1, .null, .obj []]),
    (.ofString "a", .obj [(.ofString "text", .str (.ofString "é")), (.ofString "ok", .bool true)])]
  payload_valid := by
    intro j hj
    obtain rfl := Option.some_inj.1 hj
    simp [Json.Valid, Json.ValidItems, Json.ValidFields]

/-- Three events of a session and one of another are chained in the SQLite store, and a client that
has seen the first one has the others replayed. -/
theorem replay_repeats_sample :
    let steps := [AuditStep.publish (.nested "s") "evt-1" .none,
      .publish (.nested "other") "evt-2" .none, .publish (Event.sample 0) "evt-3" .none, .restart,
      .publish (.nested "s") "evt-4" .none]
    ∃ stored : List AuditEvent, stored.length = 3 ∧
      stored.map (frameFromAuditEvent Timestamp.isoformat) =
        (AuditTrail.initial StoreKind.sqlite.audit).liveStream Timestamp.isoformat String.ofList "s"
          steps ∧
      replayFrom StoreKind.sqlite.audit
          ((AuditTrail.initial StoreKind.sqlite.audit).run String.ofList steps).log.store "s"
          (fun _ => true) 4 1 = .ok (some (stored.drop 1)) := by
  intro steps
  have hutc : ∀ st ∈ steps, st.Utc .sqlite := by
    simp [steps, AuditStep.Utc, Timestamp.Utc, Event.sample, Event.nested]
  obtain ⟨stored, hframes, hreplay⟩ :=
    replay_repeats Timestamp.isoformat String.ofList .sqlite steps hutc "s"
  have hlength : stored.length = 3 := by
    have hframes' := congrArg List.length hframes
    rw [List.length_map] at hframes'
    rw [hframes']
    decide +kernel
  refine ⟨stored, hlength, hframes, ?_⟩
  rw [hreplay _ 1 _ (fun _ => by decide) (by omega), List.filter_true]

end Runs

end Frames

end AgenticLocalApp
