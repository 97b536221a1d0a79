import AgenticLocalApp.Observability.AuditChain

/-!
# The audit log on either store

The in-memory store reads an event back as it was.  The SQLite store reads it back with its payload
in the order of the keys and its timestamp in UTC: the first changes no hash, the second changes
none when the timestamp was in UTC already.
-/

namespace AgenticLocalApp

/-! ## The in-memory store -/

theorem sliceTo_of_nonneg {α : Type} (rows : List α) {limit : Int} (h : 0 ≤ limit) :
    sliceTo rows limit = rows.take limit.toNat := if_pos h

theorem MemoryAudit.append_ok {σ σ' : List AuditEvent} {e : AuditEvent}
    (h : MemoryAudit.append σ e = .ok σ') :
    σ' = σ ++ [e] ∧ ∀ x ∈ σ, x.eventId ≠ e.eventId := by
  unfold MemoryAudit.append at h
  dsimp only at h
  split at h
  · cases h
  · rename_i hfresh
    rw [Bool.or_eq_true, not_or] at hfresh
    have hids : ∀ x ∈ σ, x.eventId ≠ e.eventId := fun x hx he =>
      hfresh.2 (List.any_eq_true.2 ⟨x, hx, by simpa using he⟩)
    split at h
    · split at h
      · cases h
      · cases h
        exact ⟨rfl, hids⟩
    · cases h
      exact ⟨rfl, hids⟩

def memorySpec : memoryAudit.Spec where
  Holds := fun (σ : List AuditEvent) es => σ = es
  readBack := id
  Storable _ := True
  Binds _ := True
  binds_sequence _ _ _ := trivial
  empty := rfl
  last := by
    rintro σ es sid rfl -
    rfl
  list := by
    rintro σ es sid afterSequence limit rfl - hlimit - -
    exact congrArg _ (sliceTo_of_nonneg _ hlimit)
  append := by
    rintro σ σ' es e rfl - h
    exact MemoryAudit.append_ok h
  readBack_keeps _ := ⟨rfl, rfl, rfl, rfl, rfl⟩
  readBack_hash _ _ _ := rfl

/-! ## The SQLite store -/

/-- The event as SQLite reads it back. -/
def AuditEvent.asStored (e : AuditEvent) : AuditEvent :=
  { e with timestamp := ⟨e.timestamp.instant, some 0⟩, payload := e.payload.sorted }

/-- The timestamp is not an aware one away from UTC. -/
def Timestamp.Utc (t : Timestamp) : Prop := t.offset = none ∨ t.offset = some 0

theorem AuditRow.decode_of {e : AuditEvent} (h : e.payload.Valid) :
    (AuditRow.of e).decode = .ok e.asStored := by
  unfold AuditRow.decode
  rw [show (AuditRow.of e).payload = e.payload.canonical from rfl, Json.loads_canonical h]
  rfl

/-- The hash of an event does not see the order of the keys of its payload. -/
theorem recomputeHash_asStored {e : AuditEvent} (h : e.timestamp.offset = some 0)
    (sha256 : List Char → String) : recomputeHash sha256 e.asStored = recomputeHash sha256 e := by
  have htime : (⟨e.timestamp.instant, some 0⟩ : Timestamp) = e.timestamp := by
    rw [← h]
  unfold recomputeHash chainHash
  have hcanonical : (auditHashInput e.asStored).canonical = (auditHashInput e).canonical := by
    simp only [auditHashInput, AuditEvent.asStored, htime, Json.canonical, Json.canonicalFields,
      Json.canonical_sorted]
  rw [hcanonical]
  rfl

theorem binds_natural {n : Nat} (h : n < sqliteIntegerBound) : BindsInteger n :=
  ⟨(Int.neg_nonpos_of_nonneg (Int.natCast_nonneg _)).trans (Int.natCast_nonneg _),
    Int.ofNat_lt.2 h⟩

namespace SqliteAudit

/-- The rows are those of the events as they are read back, in the order they came in. -/
def Holds (σ : List AuditRow) (es : List AuditEvent) : Prop :=
  ∃ accepted : List AuditEvent, σ = accepted.map AuditRow.of ∧
    es = accepted.map AuditEvent.asStored ∧
      ∀ e ∈ accepted, e.payload.Valid ∧ e.sequence < sqliteIntegerBound

theorem encode_ok {e : AuditEvent} {row : AuditRow} (h : AuditRow.encode e = .ok row) :
    row = AuditRow.of e ∧ e.timestamp.offset ≠ none ∧ e.sequence < sqliteIntegerBound := by
  unfold AuditRow.encode at h
  split at h
  · cases h
  · rename_i hoffset
    split at h
    · cases h
    · rename_i hbound
      cases h
      exact ⟨rfl, hoffset, Nat.lt_of_not_le hbound⟩

theorem append_ok {σ σ' : List AuditRow} {e : AuditEvent}
    (h : SqliteAudit.append σ e = .ok σ') :
    σ' = σ ++ [AuditRow.of e] ∧ e.timestamp.offset ≠ none ∧ e.sequence < sqliteIntegerBound ∧
      ∀ r ∈ σ, r.eventId ≠ e.eventId := by
  have hend : (AuditRow.encode e).map (fun row => σ ++ [row]) = .ok σ' →
      σ' = σ ++ [AuditRow.of e] ∧ e.timestamp.offset ≠ none ∧ e.sequence < sqliteIntegerBound := by
    intro hσ'
    cases he : AuditRow.encode e with
    | error exc =>
      rw [he] at hσ'
      cases hσ'
    | ok row =>
      obtain ⟨rfl, hrow⟩ := encode_ok he
      rw [he] at hσ'
      cases hσ'
      exact ⟨rfl, hrow⟩
  unfold SqliteAudit.append at h
  split at h
  · cases h
  · rename_i hfresh
    have hids : ∀ r ∈ σ, r.eventId ≠ e.eventId := fun r hr he =>
      hfresh (List.any_eq_true.2 ⟨r, hr, by simp [he]⟩)
    have hlast : (AuditRow.encode e).map (fun row => σ ++ [row]) = .ok σ' := by
      split at h
      · split at h
        · cases h
        · exact h
      · exact h
    obtain ⟨hσ', hoffset, hbound⟩ := hend hlast
    exact ⟨hσ', hoffset, hbound, hids⟩

theorem decode_rows {accepted : List AuditEvent} (h : ∀ e ∈ accepted, e.payload.Valid) :
    (accepted.map AuditRow.of).mapM AuditRow.decode = .ok (accepted.map AuditEvent.asStored) := by
  induction accepted with
  | nil => rfl
  | cons e rest ih =>
    rw [List.map_cons, List.mapM_cons, AuditRow.decode_of (h e List.mem_cons_self),
      ih fun x hx => h x (List.mem_cons_of_mem _ hx)]
    rfl

section Order

variable {α : Type} {key : α → Nat}

theorem orderedInsert_descending {a : α} {l : List α} (h : ∀ b ∈ l, key a < key b) :
    l.orderedInsert (fun a b => key b ≤ key a) a = l ++ [a] := by
  induction l with
  | nil => rfl
  | cons b rest ih =>
    rw [List.orderedInsert_cons, if_neg (Nat.not_le.2 (h b List.mem_cons_self)),
      ih fun c hc => h c (List.mem_cons_of_mem _ hc)]
    rfl

/-- What is in ascending order already is in descending order when reversed. -/
theorem insertionSort_descending {l : List α} (h : l.Pairwise fun a b => key a < key b) :
    l.insertionSort (fun a b => key b ≤ key a) = l.reverse := by
  induction l with
  | nil => rfl
  | cons a rest ih =>
    obtain ⟨ha, hrest⟩ := List.pairwise_cons.1 h
    rw [List.insertionSort_cons, ih hrest, List.reverse_cons]
    exact orderedInsert_descending fun b hb => ha b (List.mem_reverse.1 hb)

end Order

theorem ofSession_rows (accepted : List AuditEvent) (sid : String) :
    ofSession (accepted.map AuditRow.of) sid =
      (accepted.filter fun e => e.sessionId = sid).map AuditRow.of := by
  unfold ofSession
  rw [List.filter_map]
  rfl

theorem chainOf_asStored (accepted : List AuditEvent) (sid : String) :
    chainOf (accepted.map AuditEvent.asStored) sid =
      (accepted.filter fun e => e.sessionId = sid).map AuditEvent.asStored := by
  unfold chainOf
  rw [List.filter_map]
  rfl

/-- The events of a session, from the rows and from what they are read back as. -/
theorem Holds.ofSession {σ : List AuditRow} {es : List AuditEvent} {sid : String}
    (h : Holds σ es) (hsorted : (chainOf es sid).Pairwise (·.sequence < ·.sequence)) :
    ∃ accepted : List AuditEvent, ofSession σ sid = accepted.map AuditRow.of ∧
      chainOf es sid = accepted.map AuditEvent.asStored ∧ (∀ e ∈ accepted, e.payload.Valid) ∧
      accepted.Pairwise (·.sequence < ·.sequence) := by
  obtain ⟨accepted, rfl, rfl, hvalid⟩ := h
  rw [chainOf_asStored] at hsorted
  refine ⟨_, ofSession_rows accepted sid, chainOf_asStored accepted sid,
    fun e he => (hvalid e (List.mem_filter.1 he).1).1, ?_⟩
  rw [List.pairwise_map] at hsorted
  exact hsorted

theorem last_eq {σ : List AuditRow} {es : List AuditEvent} {sid : String} (h : Holds σ es)
    (hsorted : (chainOf es sid).Pairwise (·.sequence < ·.sequence)) :
    SqliteAudit.last σ sid = .ok (chainOf es sid).getLast? := by
  obtain ⟨accepted, hrows, hes, hvalid, hascending⟩ := h.ofSession hsorted
  unfold SqliteAudit.last
  have hpair : (accepted.map AuditRow.of).Pairwise fun a b => a.sequence < b.sequence :=
    List.pairwise_map.2 hascending
  rw [hrows, hes, insertionSort_descending hpair, List.head?_reverse, List.getLast?_map,
    List.getLast?_map]
  cases hlast : accepted.getLast? with
  | none => rfl
  | some e =>
    have hdecode := AuditRow.decode_of (hvalid e (List.mem_of_getLast? hlast))
    simp only [Option.map_some]
    rw [hdecode]
    rfl

/-- The parameters of a listing are taken. -/
theorem binds_list {afterSequence : Option Nat} {limit : Int} (hbind : BindsInteger limit)
    (hafter : ∀ n : Nat, n ∈ afterSequence → BindsInteger n) :
    ¬ (¬ BindsInteger (afterSequence.getD 0) ∨ ¬ BindsInteger limit) := by
  rintro (h | h)
  · cases afterSequence with
    | none => exact h (by decide)
    | some n => exact h (hafter n rfl)
  · exact h hbind

theorem list_eq {σ : List AuditRow} {es : List AuditEvent} {sid : String}
    {afterSequence : Option Nat} {limit : Int} (h : Holds σ es)
    (hsorted : (chainOf es sid).Pairwise (·.sequence < ·.sequence)) (hlimit : 0 ≤ limit)
    (hbind : BindsInteger limit) (hafter : ∀ n : Nat, n ∈ afterSequence → BindsInteger n) :
    SqliteAudit.list σ sid afterSequence limit =
      .ok (((chainOf es sid).filter fun e => isAfter afterSequence e.sequence).take
        limit.toNat) := by
  obtain ⟨accepted, hrows, hes, hvalid, hascending⟩ := h.ofSession hsorted
  let page := accepted.filter fun e => isAfter afterSequence e.sequence
  have hpage : ((accepted.map AuditRow.of).filter fun r => isAfter afterSequence r.sequence) =
      page.map AuditRow.of := List.filter_map
  have hread : ((accepted.map AuditEvent.asStored).filter fun e =>
      isAfter afterSequence e.sequence) = page.map AuditEvent.asStored := List.filter_map
  have hpair : (page.map AuditRow.of).Pairwise fun a b => a.sequence ≤ b.sequence :=
    List.pairwise_map.2 ((hascending.filter _).imp fun h => Nat.le_of_lt h)
  have htake : ∀ e ∈ page.take limit.toNat, e.payload.Valid := fun e he =>
    hvalid e (List.mem_filter.1 (List.mem_of_mem_take he)).1
  unfold SqliteAudit.list
  rw [if_neg (binds_list hbind hafter), hrows, hes, hpage, hread]
  dsimp only
  rw [hpair.insertionSort_eq, if_pos hlimit, ← List.map_take, ← List.map_take, decode_rows htake]

end SqliteAudit

def sqliteSpec : sqliteAudit.Spec where
  Holds := SqliteAudit.Holds
  readBack := AuditEvent.asStored
  Storable e := e.payload.Valid ∧ e.timestamp.Utc
  Binds := BindsInteger
  binds_sequence := by
    rintro σ es ⟨accepted, -, rfl, hvalid⟩ e he
    obtain ⟨x, hx, rfl⟩ := List.mem_map.1 he
    exact binds_natural (hvalid x hx).2
  empty := ⟨[], rfl, rfl, fun _ h => (List.not_mem_nil h).elim⟩
  last := SqliteAudit.last_eq
  list := SqliteAudit.list_eq
  append := by
    rintro σ σ' es e ⟨accepted, rfl, rfl, hvalid⟩ ⟨hpayload, -⟩ h
    obtain ⟨rfl, -, hbound, hids⟩ := SqliteAudit.append_ok h
    refine ⟨⟨accepted ++ [e], ?_, ?_, ?_⟩, ?_⟩
    · rw [List.map_append, List.map_singleton]
    · rw [List.map_append, List.map_singleton]
    · intro x hx
      rcases List.mem_append.1 hx with hx | hx
      · exact hvalid x hx
      · rw [List.mem_singleton.1 hx]
        exact ⟨hpayload, hbound⟩
    · intro x hx
      obtain ⟨y, hy, rfl⟩ := List.mem_map.1 hx
      exact hids _ (List.mem_map_of_mem hy)
  readBack_keeps _ := ⟨rfl, rfl, rfl, rfl, rfl⟩
  readBack_hash := by
    rintro σ σ' e ⟨-, hutc⟩ h sha256
    obtain ⟨-, hoffset, -, -⟩ := SqliteAudit.append_ok h
    exact recomputeHash_asStored (hutc.resolve_left hoffset) sha256

end AgenticLocalApp
