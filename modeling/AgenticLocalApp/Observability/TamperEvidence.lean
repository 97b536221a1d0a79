import AgenticLocalApp.Observability.AuditRuns
import AgenticLocalApp.Persistence.IsoText

/-!
# Tampering with a chain

The chain of a session that both stores list is checked link by link, however it is cut into pages.
Since the hash of an event determines the event and the hash before it, what is before the last
event of a chain that is found valid cannot be changed without breaking a link.
-/

namespace AgenticLocalApp

variable {sha256 : List Char → String}

/-! ## What the hash determines -/

/-- The event is one that can be printed: its payload is JSON, its timestamp a `datetime`. -/
structure AuditEvent.WellFormed (e : AuditEvent) : Prop where
  payload : e.payload.Valid
  timestamp : e.timestamp.IsDatetime

/-- An event up to the order of the keys of its payload, which is a dictionary. -/
def AuditEvent.upToKeys (e : AuditEvent) : AuditEvent := { e with payload := e.payload.sorted }

/-- The hashes that `sha256` yields have no braces, as they are hexadecimal. -/
def Hexadecimal (sha256 : List Char → String) : Prop := ∀ cs, '{' ∉ (sha256 cs).toList

theorem auditHashInput_valid {e : AuditEvent} (h : e.payload.Valid) : (auditHashInput e).Valid := by
  have hopt : ∀ o : Option String, (optionalText o).Valid := by
    rintro (_ | s) <;> trivial
  simp [auditHashInput, Json.Valid, Json.ValidFields, hopt, h]

theorem optionalText_inj {a b : Option String} (h : optionalText a = optionalText b) : a = b := by
  cases a <;> cases b <;> cases h <;> rfl

theorem sorted_optionalText (o : Option String) : (optionalText o).sorted = optionalText o := by
  cases o <;> rfl

/-- Objects that are the same up to the order of their keys have the same fields. -/
theorem Json.mem_fields_of_sorted {fields fields' : List (String × Json)}
    (h : (Json.obj fields).sorted = (Json.obj fields').sorted) {k : String} {v : Json}
    (hmem : (k, v) ∈ Json.sortedFields fields) : (k, v) ∈ Json.sortedFields fields' := by
  unfold Json.sorted at h
  have hfields := Json.obj.inj h
  rw [Json.sortFields_eq, Json.sortFields_eq] at hfields
  have hin := (List.perm_insertionSort (Json.keyLe (α := Json)) _).mem_iff.2 hmem
  rw [hfields] at hin
  exact (List.perm_insertionSort (Json.keyLe (α := Json)) _).mem_iff.1 hin

/-- What is printed of an event to be hashed determines everything in it but its hash. -/
theorem auditHashInput_inj {e f : AuditEvent} (he : e.WellFormed) (hf : f.WellFormed)
    (h : (auditHashInput e).canonical = (auditHashInput f).canonical)
    (hhash : e.eventHash = f.eventHash) : e.upToKeys = f.upToKeys := by
  have hloads := Json.loads_canonical (auditHashInput_valid he.payload)
  rw [h, Json.loads_canonical (auditHashInput_valid hf.payload)] at hloads
  have hfield : ∀ k v, _ → _ := fun k v => Json.mem_fields_of_sorted (k := k) (v := v)
    (Option.some.inj hloads).symm
  simp only [Json.sortedFields, Json.sorted, sorted_optionalText, List.mem_cons, Prod.mk.injEq,
    List.not_mem_nil, or_false] at hfield
  have hid := hfield "event_id" (.str e.eventId) (by simp)
  have hsequence := hfield "sequence" (.int e.sequence) (by simp)
  have hprevious := hfield "previous_event_hash" (.str e.previousEventHash) (by simp)
  have hsession := hfield "session_id" (.str e.sessionId) (by simp)
  have hconversation := hfield "conversation_id" (optionalText e.conversationId) (by simp)
  have hcycle := hfield "cycle_id" (optionalText e.cycleId) (by simp)
  have hplan := hfield "plan_id" (optionalText e.planId) (by simp)
  have htask := hfield "task_id" (optionalText e.taskId) (by simp)
  have htype := hfield "event_type" (.str e.eventType) (by simp)
  have htime := hfield "timestamp" (.str e.timestamp.isoformat) (by simp)
  have hpayload := hfield "payload" e.payload.sorted (by simp)
  simp at hid hsequence hprevious hsession hconversation hcycle hplan htask htype htime hpayload
  have hnumber : e.sequence = f.sequence := by omega
  have htimestamp := Timestamp.isoformat_inj he.timestamp hf.timestamp htime
  unfold AuditEvent.upToKeys
  rw [hid, hnumber, hprevious, hsession, optionalText_inj hconversation,
    optionalText_inj hcycle, optionalText_inj hplan, optionalText_inj htask, htype, htimestamp,
    hpayload, hhash]

/-- What comes after the first `c`. -/
theorem tail_eq_of_separated {c : Char} {x y r s : List Char} (hx : c ∉ x) (hy : c ∉ y)
    (h : x ++ c :: r = y ++ c :: s) : r = s := by
  induction x generalizing y with
  | nil =>
    cases y with
    | nil => exact (List.cons.inj h).2
    | cons b y => exact absurd (List.mem_cons.2 (.inl (List.cons.inj h).1)) hy
  | cons a x ih =>
    cases y with
    | nil => exact absurd (List.mem_cons.2 (.inl (List.cons.inj h).1.symm)) hx
    | cons b y =>
      exact ih (fun hc => hx (List.mem_cons_of_mem a hc)) (fun hc => hy (List.mem_cons_of_mem b hc))
        (List.cons.inj h).2

/-- The hash of an event determines the event and the hash before it. -/
theorem recomputeHash_inj (hinj : Function.Injective sha256) {e f : AuditEvent}
    (he : e.WellFormed) (hf : f.WellFormed) (hpe : '{' ∉ e.previousEventHash.toList)
    (hpf : '{' ∉ f.previousEventHash.toList) (h : recomputeHash sha256 e = recomputeHash sha256 f)
    (hhash : e.eventHash = f.eventHash) : e.upToKeys = f.upToKeys := by
  have hinput := hinj h
  have hbrace : ∀ x : AuditEvent, ∃ rest, (auditHashInput x).canonical = '{' :: rest := by
    intro x
    exact ⟨_, List.cons_append⟩
  obtain ⟨r, hr⟩ := hbrace e
  obtain ⟨r', hr'⟩ := hbrace f
  rw [hr, hr'] at hinput
  have htail := tail_eq_of_separated hpe hpf hinput
  exact auditHashInput_inj he hf (by rw [hr, hr', htail]) hhash

/-! ## Chains that end alike -/

theorem genesisHash_no_brace : '{' ∉ genesisHash.toList := by decide +kernel

/-- The hash that the next event is linked to is hexadecimal. -/
theorem Linked.lastHash_no_brace (hhex : Hexadecimal sha256) {h : String} {n : Nat}
    {es : List AuditEvent} (hes : Linked sha256 h n es) (hh : '{' ∉ h.toList) :
    '{' ∉ (lastHash h es).toList := by
  induction es generalizing h n with
  | nil => exact hh
  | cons e rest ih =>
    rw [lastHash_cons]
    refine ih hes.2.2.2 ?_
    rw [← hes.2.2.1]
    exact hhex _

/-- Two linked chains of one length that end in the same hash are the same, back to the first
event. -/
theorem Linked.unique (hinj : Function.Injective sha256) (hhex : Hexadecimal sha256)
    {es fs : List AuditEvent} (hes : Linked sha256 genesisHash 1 es)
    (hfs : Linked sha256 genesisHash 1 fs) (hwf : ∀ e ∈ es ++ fs, e.WellFormed)
    (hlen : es.length = fs.length) (hlast : lastHash genesisHash es = lastHash genesisHash fs) :
    es.map AuditEvent.upToKeys = fs.map AuditEvent.upToKeys := by
  induction es using List.reverseRecOn generalizing fs with
  | nil => rw [List.eq_nil_of_length_eq_zero hlen.symm]
  | append_singleton es e ih =>
    obtain rfl | ⟨fs, f, rfl⟩ := fs.eq_nil_or_concat'
    · simp at hlen
    · obtain ⟨hes, -, hprev, hhash, -⟩ := linked_append.1 hes
      obtain ⟨hfs, -, hprev', hhash', -⟩ := linked_append.1 hfs
      have hsame : e.eventHash = f.eventHash := by
        simpa [lastHash] using hlast
      have hevent : e.upToKeys = f.upToKeys := by
        refine recomputeHash_inj hinj (hwf e (by simp)) (hwf f (by simp)) ?_ ?_ ?_ hsame
        · rw [hprev]
          exact hes.lastHash_no_brace hhex genesisHash_no_brace
        · rw [hprev']
          exact hfs.lastHash_no_brace hhex genesisHash_no_brace
        · rw [hhash, hhash', hsame]
      have hbefore : lastHash genesisHash es = lastHash genesisHash fs := by
        rw [← hprev, ← hprev']
        show e.upToKeys.previousEventHash = f.upToKeys.previousEventHash
        rw [hevent]
      rw [List.map_append, List.map_append, List.map_singleton, List.map_singleton, hevent]
      congr 1
      refine ih hes hfs (fun x hx => hwf x ?_) (by simpa using hlen) hbefore
      simp only [List.mem_append, List.mem_singleton] at hx ⊢
      tauto

/-! ## A chain is checked link by link -/

theorem checkPage_append {page rest : List AuditEvent} {checked n : Nat} {hash : String} :
    AuditLog.checkPage sha256 (page ++ rest) checked n hash =
      match AuditLog.checkPage sha256 page checked n hash with
      | .inl broken => .inl broken
      | .inr (checked, n, hash) => AuditLog.checkPage sha256 rest checked n hash := by
  induction page generalizing checked n hash with
  | nil => rfl
  | cons e page ih =>
    rw [List.cons_append, AuditLog.checkPage, AuditLog.checkPage]
    cases AuditLog.checkLink sha256 e n hash with
    | some reason => rfl
    | none => exact ih

theorem checkLink_eq_none {e : AuditEvent} {n : Nat} {hash : String} :
    AuditLog.checkLink sha256 e n hash = none ↔
      e.sequence = n ∧ e.previousEventHash = hash ∧ recomputeHash sha256 e = e.eventHash := by
  unfold AuditLog.checkLink
  by_cases h1 : e.sequence = n <;> by_cases h2 : e.previousEventHash = hash <;>
    by_cases h3 : recomputeHash sha256 e = e.eventHash <;> simp [h1, h2, h3]

/-- A page that is not linked is broken at the first event that is not. -/
theorem checkPage_not_linked {page : List AuditEvent} (checked : Nat) {n : Nat} {hash : String}
    (h : ¬ Linked sha256 hash n page) :
    ∃ front x rest reason, page = front ++ x :: rest ∧ Linked sha256 hash n front ∧
      AuditLog.checkLink sha256 x (n + front.length) (lastHash hash front) = some reason ∧
      AuditLog.checkPage sha256 page checked n hash =
        .inl (.broken (checked + front.length) x.sequence reason) := by
  induction page generalizing checked n hash with
  | nil => exact absurd trivial h
  | cons e page ih =>
    cases hlink : AuditLog.checkLink sha256 e n hash with
    | some reason =>
      refine ⟨[], e, page, reason, rfl, trivial, hlink, ?_⟩
      rw [AuditLog.checkPage, hlink]
      rfl
    | none =>
      obtain ⟨hseq, hprev, hhash⟩ := checkLink_eq_none.1 hlink
      have hrest : ¬ Linked sha256 e.eventHash (n + 1) page := fun hp => h ⟨hseq, hprev, hhash, hp⟩
      obtain ⟨front, x, rest, reason, rfl, hfront, hx, hpage⟩ := ih (checked + 1) hrest
      refine ⟨e :: front, x, rest, reason, rfl, ⟨hseq, hprev, hhash, hfront⟩, ?_, ?_⟩
      · rw [lastHash_cons, List.length_cons, ← hx]
        congr 1
        omega
      · rw [AuditLog.checkPage, hlink]
        dsimp only
        rw [hpage, List.length_cons]
        congr 2
        omega

/-! ## The chain as a store lists it -/

/-- `es` is the whole chain of the session, as the store lists it. -/
def StoreKind.Lists (kind : StoreKind) (σ : kind.audit.State) (sid : String)
    (es : List AuditEvent) : Prop :=
  ∀ limit : Int, es.length ≤ limit → kind.Binds limit →
    kind.audit.list σ sid none limit = .ok es

/-- No two events of the chain have the same sequence, which the table has for its key; in memory,
where the events are not in the order of their sequences, none has one below the first; and the
table has fewer of them than SQLite has integers. -/
def StoreKind.Numbers (kind : StoreKind) (es : List AuditEvent) : Prop :=
  (es.map AuditEvent.sequence).Nodup ∧ (kind = .memory → ∀ e ∈ es, 0 < e.sequence) ∧
    (kind = .sqlite → es.length + 1 < sqliteIntegerBound)

theorem memory_lists {σ : List AuditEvent} {sid : String} {es : List AuditEvent}
    (h : StoreKind.memory.Lists σ sid es) : MemoryAudit.chain σ sid = es := by
  have hall := h (max (MemoryAudit.chain σ sid).length es.length) (by omega) (fun h => by cases h)
  have hfilter : (MemoryAudit.chain σ sid).filter (fun e => isAfter none e.sequence) =
      MemoryAudit.chain σ sid := List.filter_eq_self.2 fun _ _ => rfl
  have hlist : MemoryAudit.list σ sid none (max (MemoryAudit.chain σ sid).length es.length) = es :=
    Except.ok.inj hall
  unfold MemoryAudit.list at hlist
  rw [hfilter, sliceTo_of_nonneg _ (by omega), List.take_of_length_le (by omega)] at hlist
  exact hlist

namespace SqliteAudit

/-- The rows of a session in the order of their sequences. -/
def inOrder (σ : List AuditRow) (sid : String) : List AuditRow :=
  (ofSession σ sid).insertionSort fun a b => a.sequence ≤ b.sequence

theorem decode_sequence {row : AuditRow} {e : AuditEvent} (h : row.decode = .ok e) :
    e.sequence = row.sequence := by
  unfold AuditRow.decode at h
  split at h
  · cases h
  · cases h
    rfl

theorem mapM_cons_ok {row : AuditRow} {rows : List AuditRow} {es : List AuditEvent}
    (h : (row :: rows).mapM AuditRow.decode = .ok es) :
    ∃ e rest, row.decode = .ok e ∧ rows.mapM AuditRow.decode = .ok rest ∧ es = e :: rest := by
  rw [List.mapM_cons] at h
  cases hrow : row.decode with
  | error exc =>
    rw [hrow] at h
    cases h
  | ok e =>
    rw [hrow] at h
    cases hrows : rows.mapM AuditRow.decode with
    | error exc =>
      rw [hrows] at h
      cases h
    | ok rest =>
      rw [hrows] at h
      cases h
      exact ⟨e, rest, rfl, rfl, rfl⟩

/-- Rows that can be read can be read in part. -/
theorem decode_filter {rows : List AuditRow} {es : List AuditEvent} (p : Nat → Bool)
    (h : rows.mapM AuditRow.decode = .ok es) :
    (rows.filter fun r => p r.sequence).mapM AuditRow.decode =
      .ok (es.filter fun e => p e.sequence) := by
  induction rows generalizing es with
  | nil =>
    cases h
    rfl
  | cons row rows ih =>
    obtain ⟨e, rest, hrow, hrows, rfl⟩ := mapM_cons_ok h
    rw [List.filter_cons, List.filter_cons, decode_sequence hrow]
    split
    · rw [List.mapM_cons, hrow, ih hrows]
      rfl
    · exact ih hrows

theorem decode_take {rows : List AuditRow} {es : List AuditEvent} (n : Nat)
    (h : rows.mapM AuditRow.decode = .ok es) :
    (rows.take n).mapM AuditRow.decode = .ok (es.take n) := by
  induction rows generalizing es n with
  | nil =>
    cases h
    simp
    rfl
  | cons row rows ih =>
    obtain ⟨e, rest, hrow, hrows, rfl⟩ := mapM_cons_ok h
    cases n with
    | zero => rfl
    | succ n =>
      rw [List.take_succ_cons, List.take_succ_cons, List.mapM_cons, hrow, ih n hrows]
      rfl

theorem decode_sequences {rows : List AuditRow} {es : List AuditEvent}
    (h : rows.mapM AuditRow.decode = .ok es) :
    es.map AuditEvent.sequence = rows.map AuditRow.sequence := by
  induction rows generalizing es with
  | nil =>
    cases h
    rfl
  | cons row rows ih =>
    obtain ⟨e, rest, hrow, hrows, rfl⟩ := mapM_cons_ok h
    rw [List.map_cons, List.map_cons, ih hrows, decode_sequence hrow]

theorem decode_of_lists {σ : List AuditRow} {sid : String} {es : List AuditEvent}
    (h : StoreKind.sqlite.Lists σ sid es) (hlen : es.length + 1 < sqliteIntegerBound) :
    (inOrder σ sid).mapM AuditRow.decode = .ok es := by
  have hbind : BindsInteger ((es.length + 1 : Nat) : Int) := binds_natural hlen
  have hfilter : (ofSession σ sid).filter (fun r => isAfter none r.sequence) =
      ofSession σ sid := List.filter_eq_self.2 fun _ _ => rfl
  have hlist : SqliteAudit.list σ sid none ((es.length + 1 : Nat) : Int) = .ok es :=
    h _ (by omega) fun _ => hbind
  unfold SqliteAudit.list at hlist
  rw [if_neg (binds_list hbind fun _ h => by cases h), hfilter] at hlist
  dsimp only at hlist
  rw [if_pos (by omega), Int.toNat_natCast] at hlist
  change ((inOrder σ sid).take _).mapM AuditRow.decode = _ at hlist
  -- one more is asked for than there are
  have hcount := congrArg List.length (decode_sequences hlist)
  rw [List.length_map, List.length_map, List.length_take] at hcount
  rwa [List.take_of_length_le (by omega)] at hlist

/-- Rows of distinct sequences are in one order only. -/
theorem inOrder_filter {σ : List AuditRow} {sid : String} (p : Nat → Bool)
    (h : ((inOrder σ sid).map AuditRow.sequence).Nodup) :
    ((ofSession σ sid).filter fun r => p r.sequence).insertionSort
        (fun a b => a.sequence ≤ b.sequence) =
      (inOrder σ sid).filter fun r => p r.sequence := by
  have hsorted : (inOrder σ sid).Pairwise fun a b => a.sequence ≤ b.sequence :=
    List.pairwise_insertionSort (fun a b : AuditRow => a.sequence ≤ b.sequence) _
  have hperm : (inOrder σ sid).Perm (ofSession σ sid) := List.perm_insertionSort _ _
  refine List.Perm.eq_of_pairwise (fun a b ha hb hab hba => ?_)
    (List.pairwise_insertionSort (fun a b : AuditRow => a.sequence ≤ b.sequence) _)
    (hsorted.filter _) ((List.perm_insertionSort _ _).trans (hperm.symm.filter _))
  have ha' : a ∈ inOrder σ sid :=
    hperm.mem_iff.2 (List.mem_filter.1 ((List.perm_insertionSort _ _).mem_iff.1 ha)).1
  exact List.inj_on_of_nodup_map h ha' (List.mem_filter.1 hb).1 (Nat.le_antisymm hab hba)

theorem list_of_lists {σ : List AuditRow} {sid : String} {es : List AuditEvent}
    (h : StoreKind.sqlite.Lists σ sid es) (hlen : es.length + 1 < sqliteIntegerBound)
    (hnodup : (es.map AuditEvent.sequence).Nodup) {afterSequence : Option Nat} {limit : Int}
    (hlimit : 0 ≤ limit) (hbind : BindsInteger limit)
    (hafter : ∀ n : Nat, n ∈ afterSequence → BindsInteger n) :
    SqliteAudit.list σ sid afterSequence limit =
      .ok ((es.filter fun e => isAfter afterSequence e.sequence).take limit.toNat) := by
  have hdecode := decode_of_lists h hlen
  rw [decode_sequences hdecode] at hnodup
  unfold SqliteAudit.list
  rw [if_neg (binds_list hbind hafter)]
  dsimp only
  rw [inOrder_filter _ hnodup, if_pos hlimit]
  exact decode_take _ (decode_filter _ hdecode)

theorem ascending_of_lists {σ : List AuditRow} {sid : String} {es : List AuditEvent}
    (h : StoreKind.sqlite.Lists σ sid es) (hlen : es.length + 1 < sqliteIntegerBound) :
    (es.map AuditEvent.sequence).Pairwise (· ≤ ·) := by
  rw [decode_sequences (decode_of_lists h hlen), List.pairwise_map]
  exact List.pairwise_insertionSort (fun a b : AuditRow => a.sequence ≤ b.sequence) _

end SqliteAudit

/-- The pages of a chain that numbers its events. -/
theorem StoreKind.list_page {kind : StoreKind} {σ : kind.audit.State} {sid : String}
    {es : List AuditEvent} (h : kind.Lists σ sid es) (hn : kind.Numbers es)
    {afterSequence : Option Nat} {limit : Int} (hlimit : 0 ≤ limit) (hb : kind.Binds limit)
    (hafter : ∀ n : Nat, n ∈ afterSequence → kind.Binds n) :
    kind.audit.list σ sid afterSequence limit =
      .ok ((es.filter fun e => isAfter afterSequence e.sequence).take limit.toNat) := by
  cases kind with
  | memory =>
    have hchain := memory_lists h
    show Except.ok (MemoryAudit.list σ sid afterSequence limit) = _
    unfold MemoryAudit.list
    rw [sliceTo_of_nonneg _ hlimit, hchain]
  | sqlite =>
    exact SqliteAudit.list_of_lists h (hn.2.2 rfl) hn.1 hlimit (hb rfl) fun n hn => hafter n hn rfl

/-- After a linked start, what is asked for next is the rest of the chain. -/
theorem StoreKind.filter_afterOf {kind : StoreKind} {σ : kind.audit.State} {sid : String}
    {pre post : List AuditEvent} (h : kind.Lists σ sid (pre ++ post))
    (hn : kind.Numbers (pre ++ post)) (hpre : Linked sha256 genesisHash 1 pre) :
    (pre ++ post).filter (fun e => isAfter (afterOf pre) e.sequence) = post := by
  unfold afterOf
  split
  · rename_i hnil
    rw [hnil, List.nil_append]
    exact List.filter_eq_self.2 fun _ _ => rfl
  · rename_i hne
    have hleft : pre.filter (fun e => isAfter (some pre.length) e.sequence) = [] := by
      refine List.filter_eq_nil_iff.2 fun e he => ?_
      have := hpre.bounds e he
      simp [isAfter]
      omega
    have hright : post.filter (fun e => isAfter (some pre.length) e.sequence) = post := by
      refine List.filter_eq_self.2 fun e he => ?_
      suffices hlt : pre.length < e.sequence by simpa [isAfter] using hlt
      obtain ⟨hnodup, hpositive, hfits⟩ := hn
      rw [List.map_append, hpre.sequences] at hnodup
      have hnew : e.sequence ∉ List.range' 1 pre.length := fun hold =>
        (List.nodup_append.1 hnodup).2.2 _ hold _ (List.mem_map_of_mem he) rfl
      rw [List.mem_range'_1] at hnew
      have hone : 1 ≤ e.sequence := by
        cases kind with
        | memory => exact hpositive rfl e (List.mem_append_right _ he)
        | sqlite =>
          have hascending := SqliteAudit.ascending_of_lists h (hfits rfl)
          rw [List.map_append, hpre.sequences] at hascending
          have hlen : 0 < pre.length := List.length_pos_iff.2 hne
          exact (List.pairwise_append.1 hascending).2.2 1 (by simp [List.mem_range'_1]; omega) _
            (List.mem_map_of_mem he)
      omega
    rw [List.filter_append, hleft, hright, List.nil_append]

/-- What a walk over the rest of a chain finds. -/
def walkEnd (sha256 : List Char → String) (pre post : List AuditEvent) : AuditLog.Verification :=
  match AuditLog.checkPage sha256 post pre.length (pre.length + 1) (lastHash genesisHash pre) with
  | .inl broken => broken
  | .inr (checked, _, _) => .valid checked

/-- The walk finds what checking the rest of the chain in one go finds, whatever the pages. -/
theorem verifyFrom_walkEnd {kind : StoreKind} {log : AuditLog kind.audit} {sid : String}
    {es : List AuditEvent} (h : kind.Lists log.store sid es) (hn : kind.Numbers es)
    {pageSize : Int} (hp : 0 < pageSize) (hb : kind.Binds pageSize) :
    ∀ (pages : Nat) (pre post : List AuditEvent), es = pre ++ post →
      Linked sha256 genesisHash 1 pre → post.length < pages →
      log.verifyFrom sha256 sid pageSize pages (afterOf pre) pre.length (pre.length + 1)
        (lastHash genesisHash pre) = .ok (some (walkEnd sha256 pre post)) := by
  intro pages
  induction pages with
  | zero => intro _ _ _ _ hpages; omega
  | succ pages ih =>
    intro pre post hes hpre hpages
    have hafter : ∀ n : Nat, n ∈ afterOf pre → kind.Binds n := by
      intro n hmem hkind
      have hfits := hn.2.2 hkind
      rw [hes, List.length_append] at hfits
      unfold afterOf at hmem
      split at hmem
      · cases hmem
      · cases hmem
        exact binds_natural (by omega)
    have hlist := StoreKind.list_page h hn hp.le hb hafter
    rw [hes] at h hn hlist
    rw [StoreKind.filter_afterOf h hn hpre] at hlist
    have hsplit : post = post.take pageSize.toNat ++ post.drop pageSize.toNat :=
      (List.take_append_drop _ _).symm
    have hlen : (post.take pageSize.toNat).length = min pageSize.toNat post.length :=
      List.length_take
    generalize post.take pageSize.toNat = page at hlist hsplit hlen
    generalize post.drop pageSize.toNat = rest at hsplit
    subst hsplit
    unfold AuditLog.verifyFrom
    rw [hlist]
    simp only [bind, Except.bind]
    rw [List.length_append] at hlen hpages
    unfold walkEnd
    rw [checkPage_append]
    by_cases hlinked : Linked sha256 (lastHash genesisHash pre) (pre.length + 1) page
    · rw [checkPage_linked hlinked]
      dsimp only
      have hnext : Linked sha256 genesisHash 1 (pre ++ page) :=
        linked_append.2 ⟨hpre, Nat.add_comm 1 _ ▸ hlinked⟩
      by_cases hlast : (page.length : Int) < pageSize
      · -- a page that is not full is the last one
        have hrest : rest = [] := List.eq_nil_of_length_eq_zero (by omega)
        rw [if_pos hlast, hrest]
        rfl
      · rw [if_neg hlast]
        have hne : page ≠ [] := by
          rintro rfl
          simp at hlast
          omega
        obtain ⟨last, hlast'⟩ : ∃ last, page.getLast? = some last := by
          rw [← Option.ne_none_iff_exists']
          exact fun hnone => hne (List.getLast?_eq_none_iff.1 hnone)
        have hseq := hlinked.getLast?_sequence
        rw [hlast'] at hseq
        rw [hlast']
        dsimp only
        have hpos : 0 < page.length := List.length_pos_iff.2 hne
        have hafter : some last.sequence = afterOf (pre ++ page) := by
          have hcat : pre ++ page ≠ [] := by simp [hne]
          have : last.sequence + 1 = pre.length + 1 + page.length := hseq
          rw [afterOf, if_neg hcat, List.length_append]
          congr 1
          omega
        have hwalk := ih (pre ++ page) rest (by rw [hes, List.append_assoc]) hnext (by omega)
        unfold walkEnd at hwalk
        rw [List.length_append, lastHash_append] at hwalk
        rw [hafter]
        have hcount : pre.length + 1 + page.length = pre.length + page.length + 1 := by omega
        rw [hcount]
        exact hwalk
    · obtain ⟨front, x, rest', reason, -, -, -, hpage⟩ :=
        checkPage_not_linked pre.length hlinked
      rw [hpage]
      rfl

theorem verify_walkEnd {kind : StoreKind} {log : AuditLog kind.audit} {sid : String}
    {es : List AuditEvent} (h : kind.Lists log.store sid es) (hn : kind.Numbers es)
    {pageSize : Int} (hp : 0 < pageSize) (hb : kind.Binds pageSize) {pages : Nat} (hpages : es.length < pages) :
    log.verify sha256 sid pageSize pages = .ok (some (walkEnd sha256 [] es)) :=
  verifyFrom_walkEnd h hn hp hb pages [] es rfl trivial hpages

theorem walkEnd_linked {es : List AuditEvent} (h : Linked sha256 genesisHash 1 es) :
    walkEnd sha256 [] es = .valid es.length := by
  have hpage : AuditLog.checkPage sha256 es 0 1 genesisHash = _ := checkPage_linked h
  unfold walkEnd
  rw [show ([] : List AuditEvent).length = 0 from rfl, show lastHash genesisHash [] = genesisHash from rfl,
    hpage, Nat.zero_add]

/-- A chain that is not linked is found broken at the first event that is not. -/
theorem walkEnd_not_linked {es : List AuditEvent} (h : ¬ Linked sha256 genesisHash 1 es) :
    ∃ front x rest reason, es = front ++ x :: rest ∧ Linked sha256 genesisHash 1 front ∧
      AuditLog.checkLink sha256 x (front.length + 1) (lastHash genesisHash front) = some reason ∧
      walkEnd sha256 [] es = .broken front.length x.sequence reason := by
  obtain ⟨front, x, rest, reason, hes, hfront, hx, hpage⟩ :=
    checkPage_not_linked 0 h
  refine ⟨front, x, rest, reason, hes, hfront, Nat.add_comm 1 _ ▸ hx, ?_⟩
  unfold walkEnd
  rw [show ([] : List AuditEvent).length = 0 from rfl, show lastHash genesisHash [] = genesisHash from rfl,
    hpage, Nat.zero_add]

theorem linked_of_valid {kind : StoreKind} {log : AuditLog kind.audit} {sid : String}
    {es : List AuditEvent} (h : kind.Lists log.store sid es) (hn : kind.Numbers es)
    {pageSize : Int} (hp : 0 < pageSize) (hb : kind.Binds pageSize) {pages n : Nat} (hpages : es.length < pages)
    (hvalid : log.verify sha256 sid pageSize pages = .ok (some (.valid n))) :
    Linked sha256 genesisHash 1 es := by
  by_contra hno
  obtain ⟨front, x, rest, reason, -, -, -, hwalk⟩ := walkEnd_not_linked hno
  rw [verify_walkEnd h hn hp hb hpages, hwalk] at hvalid
  cases hvalid

/-! ## Tampering is found -/

/-- A chain that is found valid cannot be changed before its last event without the first event
that is not linked any more being found, whatever pages the store takes; and two chains that are
found valid and end in the same hash are the same. -/
theorem tampering_found (kind : StoreKind) (hinj : Function.Injective sha256)
    (hhex : Hexadecimal sha256) {log log' : AuditLog kind.audit} {sid : String}
    {es fs : List AuditEvent} (hes : kind.Lists log.store sid es)
    (hfs : kind.Lists log'.store sid fs) (hnes : kind.Numbers es) (hnfs : kind.Numbers fs)
    (hwf : ∀ e ∈ es ++ fs, e.WellFormed) {pageSize : Int} (hp : 0 < pageSize)
    (hb : kind.Binds pageSize) {pages n : Nat}
    (hpages : es.length < pages)
    (hvalid : log.verify sha256 sid pageSize pages = .ok (some (.valid n))) :
    (fs.getLast? = es.getLast? → fs.map AuditEvent.upToKeys ≠ es.map AuditEvent.upToKeys →
      ∃ front x rest reason, fs = front ++ x :: rest ∧ Linked sha256 genesisHash 1 front ∧
        AuditLog.checkLink sha256 x (front.length + 1) (lastHash genesisHash front) = some reason ∧
        ∀ (pageSize : Int) (pages : Nat), 0 < pageSize → kind.Binds pageSize → fs.length < pages →
          log'.verify sha256 sid pageSize pages =
            .ok (some (.broken front.length x.sequence reason))) ∧
    ∀ (pageSize : Int) (pages m : Nat), 0 < pageSize → kind.Binds pageSize → fs.length < pages →
      log'.verify sha256 sid pageSize pages = .ok (some (.valid m)) → es.length = fs.length →
      es.getLast?.map AuditEvent.eventHash = fs.getLast?.map AuditEvent.eventHash →
      fs.map AuditEvent.upToKeys = es.map AuditEvent.upToKeys := by
  have hlinked := linked_of_valid hes hnes hp hb hpages hvalid
  have hsame : Linked sha256 genesisHash 1 fs → es.length = fs.length →
      es.getLast?.map AuditEvent.eventHash = fs.getLast?.map AuditEvent.eventHash →
      fs.map AuditEvent.upToKeys = es.map AuditEvent.upToKeys := by
    intro hfs hlen hlast
    refine (hlinked.unique hinj hhex hfs hwf hlen ?_).symm
    have helim : ∀ o : Option AuditEvent, o.elim genesisHash AuditEvent.eventHash =
        (o.map AuditEvent.eventHash).getD genesisHash := by
      rintro (_ | e) <;> rfl
    unfold lastHash
    rw [helim, helim, hlast]
  constructor
  · intro hlast hne
    have hbroken : ¬ Linked sha256 genesisHash 1 fs := by
      intro hfs
      refine hne (hsame hfs ?_ (by rw [hlast]))
      have hlen := hlinked.getLast?_sequence
      have hlen' := hfs.getLast?_sequence
      rw [hlast, hlen] at hlen'
      omega
    obtain ⟨front, x, rest, reason, hsplit, hfront, hx, hwalk⟩ := walkEnd_not_linked hbroken
    refine ⟨front, x, rest, reason, hsplit, hfront, hx, fun q pages' hq hb' hpages' => ?_⟩
    rw [verify_walkEnd hfs hnfs hq hb' hpages', hwalk]
  · intro q pages' m hq hb' hpages' hvalid' hlen hlast
    exact hsame (linked_of_valid hfs hnfs hq hb' hpages' hvalid') hlen hlast

/-! ### Sample chains -/

/-- The characters of a text by their numbers. -/
def digitHash (cs : List Char) : String := .ofList (cs.flatMap fun c => Timestamp.padded 7 c.toNat)

theorem char_toNat_lt (c : Char) : c.toNat < 10 ^ 7 := by
  have hvalid := c.valid
  unfold UInt32.isValidChar Nat.isValidChar at hvalid
  have : c.toNat = c.val.toNat := rfl
  omega

theorem digitHash_injective : Function.Injective digitHash := by
  have hlists : ∀ cs ds : List Char, cs.flatMap (fun c => Timestamp.padded 7 c.toNat) =
      ds.flatMap (fun c => Timestamp.padded 7 c.toNat) → cs = ds := by
    intro cs
    induction cs with
    | nil =>
      rintro (_ | ⟨d, ds⟩) h
      · rfl
      · have hlen := congrArg List.length h
        simp [Timestamp.length_padded (char_toNat_lt d) (by decide)] at hlen
        omega
    | cons c cs ih =>
      rintro (_ | ⟨d, ds⟩) h
      · have hlen := congrArg List.length h
        simp [Timestamp.length_padded (char_toNat_lt c) (by decide)] at hlen
      · rw [List.flatMap_cons, List.flatMap_cons] at h
        obtain ⟨hc, hrest⟩ := Timestamp.padded_append_inj (char_toNat_lt c) (char_toNat_lt d)
          (by decide) h
        rw [ih ds hrest, Char.toNat_inj.1 hc]
  intro cs ds h
  exact hlists cs ds (String.ofList_injective h)

theorem digitHash_hexadecimal : Hexadecimal digitHash := by
  intro cs hmem
  unfold digitHash at hmem
  rw [String.toList_ofList, List.mem_flatMap] at hmem
  obtain ⟨c, -, hc⟩ := hmem
  have hdigit := List.all_eq_true.1 (Timestamp.isDigit_padded 7 c.toNat) _ hc
  exact absurd hdigit (by decide)

/-- The `n`-th event of a sample chain, after one of the hash given. -/
def AuditEvent.sampleAfter (previousHash : String) (n : Nat) (task : Option String) : AuditEvent :=
  let e : AuditEvent := {
    eventId := s!"evt_{n}", sequence := n, previousEventHash := previousHash, eventHash := ""
    sessionId := "s", conversationId := none, cycleId := none, planId := none, taskId := task
    eventType := "task.state_changed", timestamp := ⟨1767225600000000, some 0⟩, payload := .obj [] }
  { e with eventHash := recomputeHash digitHash e }

theorem AuditEvent.sampleAfter_wellFormed (previousHash : String) (n : Nat) (task : Option String) :
    (AuditEvent.sampleAfter previousHash n task).WellFormed := by
  refine ⟨trivial, ?_⟩
  show Timestamp.IsDatetime ⟨1767225600000000, some 0⟩
  refine ⟨by decide +kernel, ?_⟩
  rintro o ⟨⟩
  decide

theorem AuditEvent.recomputeHash_sampleAfter (previousHash : String) (n : Nat)
    (task : Option String) : recomputeHash digitHash (AuditEvent.sampleAfter previousHash n task) =
      (AuditEvent.sampleAfter previousHash n task).eventHash := rfl

def firstSample : AuditEvent := .sampleAfter genesisHash 1 none

def secondSample : AuditEvent := .sampleAfter firstSample.eventHash 2 none

def thirdSample : AuditEvent := .sampleAfter secondSample.eventHash 3 none

/-- The first event with another task. -/
def changedSample : AuditEvent := { firstSample with taskId := some "tsk_1" }

def AuditLog.holding (es : List AuditEvent) : AuditLog StoreKind.memory.audit := { store := es }

theorem AuditLog.holding_lists {es : List AuditEvent} {sid : String}
    (h : ∀ e ∈ es, e.sessionId = sid) :
    StoreKind.memory.Lists (AuditLog.holding es).store sid es := by
  intro limit hlimit _
  have hchain : MemoryAudit.chain es sid = es :=
    List.filter_eq_self.2 fun e he => by simpa using h e he
  have hall : es.filter (fun e => isAfter none e.sequence) = es :=
    List.filter_eq_self.2 fun _ _ => rfl
  show Except.ok (MemoryAudit.list es sid none limit) = _
  unfold MemoryAudit.list
  rw [hchain, hall, sliceTo_of_nonneg _ (by omega), List.take_of_length_le (by omega)]

theorem samples_linked :
    Linked digitHash genesisHash 1 [firstSample, secondSample, thirdSample] :=
  ⟨rfl, rfl, AuditEvent.recomputeHash_sampleAfter _ _ _, rfl, rfl,
    AuditEvent.recomputeHash_sampleAfter _ _ _, rfl, rfl,
    AuditEvent.recomputeHash_sampleAfter _ _ _, trivial⟩

theorem samples_numbered : StoreKind.memory.Numbers [firstSample, secondSample, thirdSample] := by
  refine ⟨?_, fun _ => ?_, fun h => by cases h⟩
  · show [1, 2, 3].Nodup
    decide
  · simp [firstSample, secondSample, thirdSample, AuditEvent.sampleAfter]

theorem samples_listed : StoreKind.memory.Lists
    (AuditLog.holding [firstSample, secondSample, thirdSample]).store "s"
    [firstSample, secondSample, thirdSample] :=
  AuditLog.holding_lists (by simp [firstSample, secondSample, thirdSample, AuditEvent.sampleAfter])

theorem samples_valid {pageSize : Int} (hp : 0 < pageSize) :
    (AuditLog.holding [firstSample, secondSample, thirdSample]).verify digitHash "s" pageSize 4 =
      .ok (some (.valid 3)) := by
  rw [verify_walkEnd samples_listed samples_numbered hp (fun h => by cases h) (by decide),
    walkEnd_linked samples_linked]
  rfl

/-- A chain of three events whose first one is given another task. -/
theorem tampering_found_sample :
    ∃ front x rest reason, [changedSample, secondSample, thirdSample] = front ++ x :: rest ∧
      Linked digitHash genesisHash 1 front ∧
      AuditLog.checkLink digitHash x (front.length + 1) (lastHash genesisHash front) =
        some reason ∧
      ∀ (pageSize : Int) (pages : Nat), 0 < pageSize → 3 < pages →
        (AuditLog.holding [changedSample, secondSample, thirdSample]).verify digitHash "s"
          pageSize pages = .ok (some (.broken front.length x.sequence reason)) := by
  have hlisted : StoreKind.memory.Lists
      (AuditLog.holding [changedSample, secondSample, thirdSample]).store "s"
      [changedSample, secondSample, thirdSample] := AuditLog.holding_lists (by
    simp [changedSample, firstSample, secondSample, thirdSample, AuditEvent.sampleAfter])
  have hnumbered : StoreKind.memory.Numbers [changedSample, secondSample, thirdSample] := by
    refine ⟨?_, fun _ => ?_, fun h => by cases h⟩
    · show [1, 2, 3].Nodup
      decide
    · simp [changedSample, firstSample, secondSample, thirdSample, AuditEvent.sampleAfter]
  have hwf : ∀ e ∈ [firstSample, secondSample, thirdSample] ++
      [changedSample, secondSample, thirdSample], e.WellFormed := by
    have hsample := AuditEvent.sampleAfter_wellFormed
    intro e he
    simp only [List.mem_append, List.mem_cons, List.not_mem_nil, or_false] at he
    rcases he with (rfl | rfl | rfl) | rfl | rfl | rfl
    · exact hsample _ _ _
    · exact hsample _ _ _
    · exact hsample _ _ _
    · exact ⟨(hsample genesisHash 1 none).payload, (hsample genesisHash 1 none).timestamp⟩
    · exact hsample _ _ _
    · exact hsample _ _ _
  have hchanged : [changedSample, secondSample, thirdSample].map AuditEvent.upToKeys ≠
      [firstSample, secondSample, thirdSample].map AuditEvent.upToKeys := by
    intro h
    have htask := congrArg (fun es => (es.head?.bind AuditEvent.taskId)) h
    cases htask
  obtain ⟨front, x, rest, reason, hsplit, hfront, hx, hbroken⟩ :=
    (tampering_found .memory digitHash_injective digitHash_hexadecimal samples_listed hlisted
      samples_numbered hnumbered hwf (by decide : (0 : Int) < 2) (fun h => by cases h) (by decide)
      (samples_valid (by decide))).1 rfl hchanged
  exact ⟨front, x, rest, reason, hsplit, hfront, hx, fun pageSize pages hp =>
    hbroken pageSize pages hp fun h => by cases h⟩

/-- A walk over a full page and one that is not, which are linked. -/
theorem verify_two_pages {S : AuditStore} {log : AuditLog S} {sid : String} {pageSize : Int}
    {page rest : List AuditEvent} {last : AuditEvent} (pages : Nat)
    (hpage : S.list log.store sid none pageSize = .ok page)
    (hrest : S.list log.store sid (some last.sequence) pageSize = .ok rest)
    (hlast : page.getLast? = some last) (hfull : (page.length : Int) = pageSize)
    (hshort : (rest.length : Int) < pageSize)
    (hlinked : Linked sha256 genesisHash 1 (page ++ rest)) :
    log.verify sha256 sid pageSize (pages + 2) = .ok (some (.valid (page.length + rest.length))) := by
  obtain ⟨hp, hr⟩ := linked_append.1 hlinked
  unfold AuditLog.verify AuditLog.verifyFrom
  rw [hpage]
  simp only [bind, Except.bind]
  rw [checkPage_linked hp]
  dsimp only
  rw [if_neg (by omega), hlast]
  dsimp only
  unfold AuditLog.verifyFrom
  rw [hrest]
  simp only [bind, Except.bind]
  rw [checkPage_linked hr]
  dsimp only
  rw [if_pos hshort, Nat.zero_add]
  rfl

/-- In memory an event of a sequence that the page before has passed is not listed any more: a copy
of the first event is put in where the first page ends, and the chain is found valid. -/
theorem copy_hidden :
    Function.Injective digitHash ∧ Hexadecimal digitHash ∧
      (AuditLog.holding [firstSample, secondSample, thirdSample]).verify digitHash "s" 2 4 =
        .ok (some (.valid 3)) ∧
      [firstSample, secondSample, firstSample, thirdSample].getLast? =
        [firstSample, secondSample, thirdSample].getLast? ∧
      (AuditLog.holding [firstSample, secondSample, firstSample, thirdSample]).verify digitHash "s"
        2 5 = .ok (some (.valid 3)) := by
  refine ⟨digitHash_injective, digitHash_hexadecimal, samples_valid (by decide), by simp, ?_⟩
  have hchain : MemoryAudit.chain [firstSample, secondSample, firstSample, thirdSample] "s" =
      [firstSample, secondSample, firstSample, thirdSample] :=
    List.filter_eq_self.2 (by simp [firstSample, secondSample, thirdSample, AuditEvent.sampleAfter])
  have hpage : StoreKind.memory.audit.list
      (AuditLog.holding [firstSample, secondSample, firstSample, thirdSample]).store "s" none 2 =
      .ok [firstSample, secondSample] := by
    show Except.ok (MemoryAudit.list _ "s" none 2) = _
    unfold MemoryAudit.list AuditLog.holding
    rw [hchain]
    simp [isAfter, sliceTo]
  have hrest : StoreKind.memory.audit.list
      (AuditLog.holding [firstSample, secondSample, firstSample, thirdSample]).store "s"
      (some secondSample.sequence) 2 = .ok [thirdSample] := by
    show Except.ok (MemoryAudit.list _ "s" _ 2) = _
    unfold MemoryAudit.list AuditLog.holding
    rw [hchain]
    simp [isAfter, sliceTo, firstSample, secondSample, thirdSample, AuditEvent.sampleAfter]
  exact verify_two_pages 3 hpage hrest (by simp) (by simp) (by simp) samples_linked


end AgenticLocalApp
