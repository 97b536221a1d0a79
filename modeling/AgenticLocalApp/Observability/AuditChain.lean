import AgenticLocalApp.Observability.AuditLog

/-!
# The chain of a session

Whatever fails and however often the program restarts, the events that the store holds for a
session are the accepted ones, numbered from one, each linked to the one before by its hash.  What
carries this is that the log remembers the last event that is really stored, if it remembers one.
-/

namespace AgenticLocalApp

/-! ## Linked events -/

section Linked

variable (sha256 : List Char → String)

/-- The events are numbered from `n` on, and each is linked to the one before it, the first to
`previousHash`. -/
def Linked : (previousHash : String) → (n : Nat) → List AuditEvent → Prop
  | _, _, [] => True
  | previousHash, n, e :: rest =>
    e.sequence = n ∧ e.previousEventHash = previousHash ∧ recomputeHash sha256 e = e.eventHash ∧
      Linked e.eventHash (n + 1) rest

/-- The hash that the next event is linked to. -/
def lastHash (previousHash : String) (es : List AuditEvent) : String :=
  es.getLast?.elim previousHash AuditEvent.eventHash

variable {sha256}

theorem getLast?_elim_cons {β : Type} (b : β) (f : AuditEvent → β) (e : AuditEvent)
    (rest : List AuditEvent) : (e :: rest).getLast?.elim b f = rest.getLast?.elim (f e) f := by
  cases rest with
  | nil => rfl
  | cons x rest =>
    rw [List.getLast?_cons_cons]
    cases h : (x :: rest).getLast? with
    | none => simp at h
    | some y => rfl

theorem lastHash_cons (h : String) (e : AuditEvent) (rest : List AuditEvent) :
    lastHash h (e :: rest) = lastHash e.eventHash rest := getLast?_elim_cons _ _ _ _

theorem linked_append {h : String} {n : Nat} {es fs : List AuditEvent} :
    Linked sha256 h n (es ++ fs) ↔
      Linked sha256 h n es ∧ Linked sha256 (lastHash h es) (n + es.length) fs := by
  induction es generalizing h n with
  | nil => simp [Linked, lastHash]
  | cons e rest ih =>
    rw [List.cons_append, Linked, Linked, ih, lastHash_cons, List.length_cons]
    rw [show n + 1 + rest.length = n + (rest.length + 1) by omega]
    tauto

theorem lastHash_append (h : String) (es fs : List AuditEvent) :
    lastHash h (es ++ fs) = lastHash (lastHash h es) fs := by
  induction es generalizing h with
  | nil => rfl
  | cons e rest ih => rw [List.cons_append, lastHash_cons, ih, lastHash_cons]

theorem Linked.sequences {h : String} {n : Nat} {es : List AuditEvent} (hes : Linked sha256 h n es) :
    es.map AuditEvent.sequence = List.range' n es.length := by
  induction es generalizing h n with
  | nil => rfl
  | cons e rest ih =>
    rw [List.map_cons, List.length_cons, List.range'_succ, hes.1, ih hes.2.2.2]

theorem Linked.bounds {h : String} {n : Nat} {es : List AuditEvent} (hes : Linked sha256 h n es) :
    ∀ e ∈ es, n ≤ e.sequence ∧ e.sequence < n + es.length := by
  intro e he
  have hmem : e.sequence ∈ es.map AuditEvent.sequence := List.mem_map_of_mem he
  rw [hes.sequences, List.mem_range'_1] at hmem
  exact hmem

theorem Linked.getLast?_sequence {h : String} {n : Nat} {es : List AuditEvent}
    (hes : Linked sha256 h n es) :
    es.getLast?.elim n (fun e => e.sequence + 1) = n + es.length := by
  induction es generalizing h n with
  | nil => rfl
  | cons e rest ih =>
    rw [getLast?_elim_cons, hes.1, ih hes.2.2.2, List.length_cons]
    omega

/-- The events after the `k`-th one are those whose sequence is greater. -/
theorem Linked.filter_after {h : String} {es fs : List AuditEvent}
    (hes : Linked sha256 h 1 (es ++ fs)) :
    (es ++ fs).filter (fun e => isAfter (some es.length) e.sequence) = fs := by
  obtain ⟨hleft, hright⟩ := linked_append.1 hes
  have hnone : es.filter (fun e => isAfter (some es.length) e.sequence) = [] := by
    refine List.filter_eq_nil_iff.2 fun e he => ?_
    have := hleft.bounds e he
    simp [isAfter]
    omega
  have hall : fs.filter (fun e => isAfter (some es.length) e.sequence) = fs := by
    refine List.filter_eq_self.2 fun e he => ?_
    have := hright.bounds e he
    simp [isAfter]
    omega
  rw [List.filter_append, hnone, hall, List.nil_append]

end Linked

/-! ## What the log relies on a store for -/

/-- The events of a session. -/
def chainOf (es : List AuditEvent) (sid : String) : List AuditEvent :=
  es.filter fun e => e.sessionId = sid

/-- A store that holds a list of events answers from it, and an event that it accepts is a new one
that it holds from then on. -/
structure AuditStore.Spec (S : AuditStore) where
  Holds : S.State → List AuditEvent → Prop
  readBack : AuditEvent → AuditEvent
  Storable : AuditEvent → Prop
  /-- The store takes the integer for a parameter. -/
  Binds : Int → Prop
  binds_sequence : ∀ {σ es}, Holds σ es → ∀ e ∈ es, Binds e.sequence
  empty : Holds S.empty []
  last : ∀ {σ es sid}, Holds σ es → (chainOf es sid).Pairwise (·.sequence < ·.sequence) →
    S.last σ sid = .ok (chainOf es sid).getLast?
  list : ∀ {σ es sid afterSequence} {limit : Int}, Holds σ es →
    (chainOf es sid).Pairwise (·.sequence < ·.sequence) → 0 ≤ limit → Binds limit →
    (∀ n : Nat, n ∈ afterSequence → Binds n) →
    S.list σ sid afterSequence limit =
      .ok (((chainOf es sid).filter fun e => isAfter afterSequence e.sequence).take limit.toNat)
  append : ∀ {σ σ' es e}, Holds σ es → Storable e → S.append σ e = .ok σ' →
    Holds σ' (es ++ [readBack e]) ∧ ∀ x ∈ es, x.eventId ≠ e.eventId
  readBack_keeps : ∀ e, (readBack e).eventId = e.eventId ∧ (readBack e).sequence = e.sequence ∧
    (readBack e).previousEventHash = e.previousEventHash ∧ (readBack e).eventHash = e.eventHash ∧
    (readBack e).sessionId = e.sessionId
  readBack_hash : ∀ {σ σ' e}, Storable e → S.append σ e = .ok σ' →
    ∀ sha256, recomputeHash sha256 (readBack e) = recomputeHash sha256 e

theorem Linked.pairwise {sha256 : List Char → String} {h : String} {n : Nat} {es : List AuditEvent}
    (hes : Linked sha256 h n es) : es.Pairwise (·.sequence < ·.sequence) := by
  induction es generalizing h n with
  | nil => exact List.Pairwise.nil
  | cons e rest ih =>
    refine List.pairwise_cons.2 ⟨fun f hf => ?_, ih hes.2.2.2⟩
    have := hes.2.2.2.bounds f hf
    rw [hes.1]
    omega

/-! ## What every step preserves -/

section Chain

variable {S : AuditStore} (spec : S.Spec) (sha256 : List Char → String)

/-- What is remembered of the last event of a session: all that the next link depends on. -/
def linkKey (e : AuditEvent) : Nat × String := (e.sequence, e.eventHash)

/-- The store holds the events `es`, those of each session linked from the first one on, and what
the log remembers is the last of them. -/
structure Chained (log : AuditLog S) (es : List AuditEvent) : Prop where
  holds : spec.Holds log.store es
  linked : ∀ sid, Linked sha256 genesisHash 1 (chainOf es sid)
  ids : (es.map AuditEvent.eventId).Nodup
  remembered : ∀ {sid previous}, log.last sid = some previous →
    previous.map linkKey = (chainOf es sid).getLast?.map linkKey

variable {spec sha256} {log log' : AuditLog S} {es : List AuditEvent} {e : Event} {sid : String}
  {eventId : String} {fault : StoreFault} {previous : Option AuditEvent}

theorem chained_empty : Chained spec sha256 { store := S.empty } [] where
  holds := spec.empty
  linked _ := trivial
  ids := List.nodup_nil
  remembered h := by cases h

theorem Chained.restart (h : Chained spec sha256 log es) : Chained spec sha256 log.restart es where
  holds := h.holds
  linked := h.linked
  ids := h.ids
  remembered h := by cases h

/-- Looking for the last event finds it, and changes only what is remembered. -/
theorem Chained.lastOf (h : Chained spec sha256 log es)
    (hlast : log.lastOf sid fault = .ok (previous, log')) :
    Chained spec sha256 log' es ∧ log'.store = log.store ∧
      previous.map linkKey = (chainOf es sid).getLast?.map linkKey := by
  unfold AuditLog.lastOf at hlast
  split at hlast
  · rename_i x hx
    cases hlast
    exact ⟨h, rfl, h.remembered hx⟩
  · split at hlast
    · cases hlast
    · rw [spec.last h.holds (h.linked sid).pairwise] at hlast
      cases hlast
      refine ⟨⟨h.holds, h.linked, h.ids, fun {sid' previous} hprev => ?_⟩, rfl, rfl⟩
      dsimp only at hprev
      by_cases he : sid' = sid
      · subst he
        rw [Function.update_self] at hprev
        cases hprev
        rfl
      · rw [Function.update_of_ne he] at hprev
        exact h.remembered hprev

/-- The link that an event becomes. -/
structure IsLink (e : Event) (eventId : String) (last : Option AuditEvent) (link : AuditEvent) :
    Prop where
  eventId_eq : link.eventId = eventId
  sessionId_eq : link.sessionId = e.sessionId
  sequence_eq : link.sequence = last.elim 1 fun p => p.sequence + 1
  previous_eq : link.previousEventHash = last.elim genesisHash AuditEvent.eventHash
  timestamp_eq : link.timestamp = e.timestamp
  valid : link.payload.Valid

theorem isLink_of_link {link : AuditEvent} (h : e.link eventId previous = some link) :
    IsLink e eventId previous link := by
  unfold Event.link at h
  simp only [Option.bind_eq_bind, Option.bind_eq_some_iff] at h
  obtain ⟨planId, -, taskId, -, payload, hpayload, h⟩ := h
  cases h
  exact ⟨rfl, rfl, rfl, rfl, rfl, e.payload_valid hpayload⟩

/-- A link depends on what is remembered of the event before it only. -/
theorem IsLink.congr {last : Option AuditEvent} {link : AuditEvent}
    (h : IsLink e eventId previous link) (hkey : previous.map linkKey = last.map linkKey) :
    IsLink e eventId last link where
  eventId_eq := h.eventId_eq
  sessionId_eq := h.sessionId_eq
  sequence_eq := by
    rw [h.sequence_eq]
    cases previous <;> cases last <;> simp_all [linkKey]
  previous_eq := by
    rw [h.previous_eq]
    cases previous <;> cases last <;> simp_all [linkKey]
  timestamp_eq := h.timestamp_eq
  valid := h.valid

theorem chainOf_append_of_eq {x : AuditEvent} (hx : x.sessionId = sid) :
    chainOf (es ++ [x]) sid = chainOf es sid ++ [x] := by
  unfold chainOf
  rw [List.filter_append, List.filter_cons_of_pos (by simpa using hx), List.filter_nil]

theorem chainOf_append_of_ne {x : AuditEvent} (hx : x.sessionId ≠ sid) :
    chainOf (es ++ [x]) sid = chainOf es sid := by
  unfold chainOf
  rw [List.filter_append, List.filter_cons_of_neg (by simpa using hx), List.filter_nil,
    List.append_nil]

/-- The link that the store accepts is the next one of its session, and the log remembers it. -/
theorem Chained.append {link audited : AuditEvent} {store : S.State}
    (h : Chained spec sha256 log es) (hlink : IsLink e eventId (chainOf es e.sessionId).getLast? link)
    (haudited : audited = { link with eventHash := recomputeHash sha256 link })
    (hstorable : spec.Storable audited) (happend : S.append log.store audited = .ok store) :
    Chained spec sha256
      { store := store, last := Function.update log.last e.sessionId (some (some audited)) }
      (es ++ [spec.readBack audited]) := by
  obtain ⟨hholds, hfresh⟩ := spec.append h.holds hstorable happend
  obtain ⟨hid, hseq, hprev, hhash, hsid⟩ := spec.readBack_keeps audited
  have hrecompute := spec.readBack_hash hstorable happend sha256
  have hsession : (spec.readBack audited).sessionId = e.sessionId := by
    rw [hsid, haudited]
    exact hlink.sessionId_eq
  refine ⟨hholds, fun sid => ?_, ?_, fun {sid previous} hlast => ?_⟩
  · by_cases he : e.sessionId = sid
    · subst he
      rw [chainOf_append_of_eq hsession, linked_append]
      refine ⟨h.linked _, ?_, ?_, ?_, trivial⟩
      · rw [hseq, haudited, ← (h.linked _).getLast?_sequence]
        exact hlink.sequence_eq
      · rw [hprev, haudited]
        exact hlink.previous_eq
      · rw [hrecompute, hhash, haudited]
        rfl
    · rw [chainOf_append_of_ne (by rwa [hsession])]
      exact h.linked sid
  · rw [List.map_append, List.map_singleton, List.nodup_append]
    refine ⟨h.ids, List.nodup_singleton _, fun x hx y hy => ?_⟩
    obtain ⟨f, hf, rfl⟩ := List.mem_map.1 hx
    rw [List.mem_singleton.1 hy, hid]
    exact hfresh f hf
  · dsimp only at hlast
    by_cases he : sid = e.sessionId
    · subst he
      rw [Function.update_self] at hlast
      cases hlast
      rw [chainOf_append_of_eq hsession, List.getLast?_concat]
      simp only [Option.map_some, linkKey, hseq, hhash]
    · rw [Function.update_of_ne he] at hlast
      rw [chainOf_append_of_ne (by rw [hsession]; exact fun h => he h.symm)]
      exact h.remembered hlast

variable (eventId fault) in
/-- What handling an event leads to: the chain as it was, or one link longer. -/
theorem Chained.handle (h : Chained spec sha256 log es)
    (hstorable : ∀ audited : AuditEvent, audited.timestamp = e.timestamp → audited.payload.Valid →
      spec.Storable audited) :
    (∃ audited, (log.handle sha256 e eventId fault).1 = .ok (some audited) ∧
      Chained spec sha256 (log.handle sha256 e eventId fault).2 (es ++ [spec.readBack audited]) ∧
      IsLink e eventId (chainOf es e.sessionId).getLast? audited) ∨
    (∀ audited, (log.handle sha256 e eventId fault).1 ≠ .ok (some audited)) ∧
      Chained spec sha256 (log.handle sha256 e eventId fault).2 es := by
  unfold AuditLog.handle
  split
  · exact .inr ⟨(fun _ hne => by cases hne), h⟩
  split
  · exact .inr ⟨(fun _ hne => by cases hne), h⟩
  · rename_i previous log' hlast
    obtain ⟨h', hstore, hkey⟩ := h.lastOf hlast
    split
    · exact .inr ⟨(fun _ hne => by cases hne), h'⟩
    · rename_i link hlink
      have hlink' := (isLink_of_link hlink).congr hkey
      dsimp only
      split
      · exact .inr ⟨(fun _ hne => by cases hne), h'⟩
      split
      · exact .inr ⟨(fun _ hne => by cases hne), h'⟩
      · rename_i store happend
        refine .inl ⟨_, rfl, h'.append hlink' rfl (hstorable _ hlink'.timestamp_eq hlink'.valid)
          happend, ?_⟩
        exact ⟨hlink'.eventId_eq, hlink'.sessionId_eq, hlink'.sequence_eq, hlink'.previous_eq,
          hlink'.timestamp_eq, hlink'.valid⟩

/-! ## A chain is verified page by page -/

theorem checkPage_linked {page : List AuditEvent} {checked n : Nat} {hash : String}
    (hpage : Linked sha256 hash n page) :
    AuditLog.checkPage sha256 page checked n hash =
      .inr (checked + page.length, n + page.length, lastHash hash page) := by
  induction page generalizing checked n hash with
  | nil => rfl
  | cons e rest ih =>
    obtain ⟨hseq, hprev, hhash, hrest⟩ := hpage
    have hlink : AuditLog.checkLink sha256 e n hash = none := by
      simp [AuditLog.checkLink, hseq, hprev, hhash]
    rw [AuditLog.checkPage, hlink]
    dsimp only
    rw [ih hrest, lastHash_cons, List.length_cons]
    congr 2
    · omega
    · congr 1
      omega

/-- What the walk asks for after the events `pre`. -/
def afterOf (pre : List AuditEvent) : Option Nat := if pre = [] then none else some pre.length

theorem filter_afterOf {pre post : List AuditEvent}
    (h : Linked sha256 genesisHash 1 (pre ++ post)) :
    (pre ++ post).filter (fun e => isAfter (afterOf pre) e.sequence) = post := by
  unfold afterOf
  split
  · rename_i hpre
    rw [hpre, List.nil_append]
    exact List.filter_eq_self.2 fun _ _ => rfl
  · exact h.filter_after

theorem binds_afterOf (h : Chained spec sha256 log es) {pre post : List AuditEvent}
    (hchain : chainOf es sid = pre ++ post) : ∀ n : Nat, n ∈ afterOf pre → spec.Binds n := by
  intro n hn
  have hlinked := h.linked sid
  rw [hchain] at hlinked
  obtain ⟨hpre, -⟩ := linked_append.1 hlinked
  unfold afterOf at hn
  split at hn
  · cases hn
  · rename_i hne
    cases hn
    obtain ⟨last, hlast⟩ : ∃ last, pre.getLast? = some last := by
      rw [← Option.ne_none_iff_exists']
      exact fun hnone => hne (List.getLast?_eq_none_iff.1 hnone)
    have hseq := hpre.getLast?_sequence
    rw [hlast] at hseq
    have hlen : last.sequence = pre.length := by
      have : last.sequence + 1 = 1 + pre.length := hseq
      omega
    have hmem : last ∈ chainOf es sid := by
      rw [hchain]
      exact List.mem_append_left _ (List.mem_of_getLast? hlast)
    exact hlen ▸ spec.binds_sequence h.holds last (List.mem_filter.1 hmem).1

theorem verifyFrom_valid (h : Chained spec sha256 log es) {pageSize : Int} (hp : 0 < pageSize)
    (hb : spec.Binds pageSize) :
    ∀ (pages : Nat) (pre post : List AuditEvent), chainOf es sid = pre ++ post →
      post.length < pages →
      log.verifyFrom sha256 sid pageSize pages (afterOf pre) pre.length (pre.length + 1)
        (lastHash genesisHash pre) = .ok (some (.valid (chainOf es sid).length)) := by
  intro pages
  induction pages with
  | zero => intro _ _ _ hpages; omega
  | succ pages ih =>
    intro pre post hchain hpages
    have hlinked := h.linked sid
    have hlist : S.list log.store sid (afterOf pre) pageSize =
        .ok (((chainOf es sid).filter fun e => isAfter (afterOf pre) e.sequence).take
          pageSize.toNat) := spec.list h.holds hlinked.pairwise hp.le hb (binds_afterOf h hchain)
    rw [hchain] at hlinked hlist
    rw [filter_afterOf hlinked] at hlist
    obtain ⟨-, hpost⟩ := linked_append.1 hlinked
    have hsplit : post = post.take pageSize.toNat ++ post.drop pageSize.toNat :=
      (List.take_append_drop _ _).symm
    have hlen : (post.take pageSize.toNat).length = min pageSize.toNat post.length :=
      List.length_take
    generalize post.take pageSize.toNat = page at hlist hsplit hlen
    generalize post.drop pageSize.toNat = rest at hsplit
    subst hsplit
    rw [Nat.add_comm 1] at hpost
    obtain ⟨hpage, -⟩ := linked_append.1 hpost
    unfold AuditLog.verifyFrom
    rw [hlist]
    simp only [bind, Except.bind]
    rw [checkPage_linked hpage]
    rw [List.length_append] at hlen hpages
    dsimp only
    by_cases hlast : (page.length : Int) < pageSize
    · -- a page that is not full is the last one
      rw [if_pos hlast, hchain, List.length_append, List.length_append]
      have : rest.length = 0 := by omega
      rw [this, Nat.add_zero]
      rfl
    · rw [if_neg hlast]
      have hne : page ≠ [] := by
        rintro rfl
        simp at hlast
        omega
      obtain ⟨last, hlast'⟩ : ∃ last, page.getLast? = some last := by
        rw [← Option.ne_none_iff_exists']
        exact fun hnone => hne (List.getLast?_eq_none_iff.1 hnone)
      have hseq := hpage.getLast?_sequence
      rw [hlast'] at hseq
      rw [hlast']
      dsimp only
      have hpos : 0 < page.length := List.length_pos_iff.2 hne
      have hafter : some last.sequence = afterOf (pre ++ page) := by
        have hcat : pre ++ page ≠ [] := by simp [hne]
        have : last.sequence + 1 = pre.length + 1 + page.length := hseq
        rw [afterOf, if_neg hcat, List.length_append]
        congr 1
        omega
      have hnext := ih (pre ++ page) rest (by rw [hchain, List.append_assoc]) (by omega)
      rw [List.length_append, lastHash_append] at hnext
      rw [hafter, ← hnext]
      congr 1
      omega

theorem Chained.verify (h : Chained spec sha256 log es) {pageSize : Int} (hp : 0 < pageSize)
    (hb : spec.Binds pageSize) {pages : Nat} (hpages : (chainOf es sid).length < pages) :
    log.verify sha256 sid pageSize pages = .ok (some (.valid (chainOf es sid).length)) :=
  verifyFrom_valid h hp hb pages [] _ rfl hpages

end Chain

end AgenticLocalApp
