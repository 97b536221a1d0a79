import AgenticLocalApp.Persistence.InsertionOrder

/-!
# The two stores agree

The contents of each store stand for the same tables.  A save, a read by key and a listing come to
the same in both, and so does all code over them, however its transactions nest and wherever it
raises.
-/

namespace AgenticLocalApp

open Transactions

/-! ## The SQLite store -/

theorem StrEnum.value_inj {S : Type} [StrEnum S] [EnumColumn S] {s t : S} :
    StrEnum.value s = StrEnum.value t ↔ s = t := by
  refine ⟨fun h => ?_, fun h => h ▸ rfl⟩
  have hs := EnumColumn.found s
  rw [h, EnumColumn.found t] at hs
  exact (Option.some.inj hs).symm

namespace Row

variable {ρ α β : Type}

theorem encode_start (a : α) (r : ρ) : (Row.start a : Row ρ α).encode r = [] := rfl

theorem encode_column (row : Row ρ (α → β)) (name : String) (get : ρ → α) (c : Column α) (r : ρ) :
    (row.column name get c).encode r = row.encode r ++ [c.encode (get r)] := rfl

end Row

namespace RecordKind

/-- A record that the SQLite store keeps as it is. -/
structure Storable (k : RecordKind) (r : k.Record) : Prop where
  wellTyped : k.WellTyped r
  fits : ∀ n ∈ k.integers r, FitsInteger n

/-- The row of a record. -/
def rowOf (k : RecordKind) (r : k.Record) : StoredRow where
  key := k.table.primaryKey r
  values :=
    match k.table.row.bound r with
    | .ok values => values
    | .error _ => []

variable {k : RecordKind} {r : k.Record}

theorem Storable.bound (h : k.Storable r) :
    k.table.row.bound r = .ok (k.rowOf r).values := by
  obtain ⟨values, hv⟩ := (Row.bound_iff k.table.row r).2 ((fits_iff k r).2 h.fits)
  unfold rowOf
  rw [hv]

theorem Storable.reads (h : k.Storable r) :
    k.table.row.decode (k.rowOf r).values = some (k.ordered r, []) := by
  have hread := RecordKind.reads h.wellTyped _ [] h.bound
  rwa [List.append_nil] at hread

theorem Storable.decode (h : k.Storable r) :
    SqliteDb.decode k (k.rowOf r) = .ok (k.ordered r) := by
  unfold SqliteDb.decode
  rw [h.reads]

/-- The parameter that a record is bound to in a column. -/
def param (k : RecordKind) (r : k.Record) (name : String) : Option Param :=
  (k.table.row.columns.zip (k.table.row.encode r)).lookup name

theorem lookup_bound (names : List String) {ps : List Param} {vs : List Sql}
    (h : ps.mapM Param.bind = .ok vs) {name : String} {p : Param}
    (hp : (names.zip ps).lookup name = some p) :
    ∃ v, (names.zip vs).lookup name = some v ∧ p.bind = .ok v := by
  induction names generalizing ps vs with
  | nil => cases hp
  | cons n names ih =>
    cases ps with
    | nil => cases hp
    | cons q ps =>
      rw [List.mapM_cons] at h
      cases hq : q.bind with
      | error e =>
        rw [hq] at h
        cases h
      | ok v =>
        cases hps : ps.mapM Param.bind with
        | error e =>
          rw [hq, hps] at h
          cases h
        | ok us =>
          rw [hq, hps] at h
          obtain rfl : v :: us = vs := Except.ok.inj h
          rw [List.zip_cons_cons, List.lookup_cons] at hp ⊢
          cases hn : name == n with
          | true =>
            rw [hn] at hp
            obtain rfl := Option.some.inj hp
            exact ⟨v, rfl, hq⟩
          | false =>
            rw [hn] at hp
            exact ih hps hp

theorem Storable.column (h : k.Storable r) {name : String} {p : Param}
    (hp : k.param r name = some p) :
    p.bind = .ok ((k.rowOf r).column k.table.row.columns name) := by
  obtain ⟨v, hv, hbind⟩ := lookup_bound k.table.row.columns h.bound hp
  unfold StoredRow.column
  rw [hv]
  exact hbind

theorem Storable.column_text (h : k.Storable r) {name : String} {cs : List Char}
    (hp : k.param r name = some (.text cs)) :
    (k.rowOf r).column k.table.row.columns name = .text cs :=
  (Except.ok.inj (h.column hp)).symm

theorem Storable.isText (h : k.Storable r) {name s text : String}
    (hp : k.param r name = some (.text s.toList)) :
    ((k.rowOf r).column k.table.row.columns name).isText text = decide (s = text) := by
  rw [h.column_text hp]
  unfold Sql.isText
  simp only [String.toList_inj]

theorem Storable.meets_states {S : Type} [StrEnum S] [EnumColumn S] [DecidableEq S]
    (h : k.Storable r) {name : String} {s : S} (states : List S)
    (hp : k.param r name = some (.text (StrEnum.value s).toList)) :
    (k.rowOf r).meets k.table.row.columns (name, states.map StrEnum.value) =
      decide (s ∈ states) := by
  unfold StoredRow.meets
  rw [List.any_map, Bool.eq_iff_iff, List.any_eq_true, decide_eq_true_eq]
  constructor
  · rintro ⟨t, ht, hmeets⟩
    rw [Function.comp_apply, h.isText hp, decide_eq_true_eq, StrEnum.value_inj] at hmeets
    exact hmeets ▸ ht
  · intro hs
    refine ⟨s, hs, ?_⟩
    rw [Function.comp_apply, h.isText hp, decide_eq_true_eq]

theorem lookup_zip {names : List String} {ps : List Param} {name : String} {p : Param} {i : Nat}
    (hi : names[i]? = some name) (hfirst : names.idxOf name = i) (hp : ps[i]? = some p) :
    (names.zip ps).lookup name = some p := by
  induction names generalizing ps i with
  | nil => simp at hi
  | cons n names ih =>
    cases ps with
    | nil => simp at hp
    | cons q ps =>
      rw [List.zip_cons_cons, List.lookup_cons]
      by_cases hn : n = name
      · subst hn
        rw [List.idxOf_cons_self] at hfirst
        subst hfirst
        simpa using hp
      · have hne : (name == n) = false := by simpa using fun e => hn e.symm
        rw [List.idxOf_cons_ne _ hn] at hfirst
        subst hfirst
        rw [hne]
        exact ih (by simpa using hi) rfl (by simpa using hp)

theorem param_eq {k : RecordKind} {r : k.Record} {name : String} {p : Param} (i : Nat)
    (hcolumn : k.table.row.columns[i]? = some name ∧ k.table.row.columns.idxOf name = i)
    (hp : (k.table.row.encode r)[i]? = some p) : k.param r name = some p :=
  lookup_zip hcolumn.1 hcolumn.2 hp

/-- The columns that a listing filters: where they stand, their names and their texts. -/
def filtered : (k : RecordKind) → k.Record → List (Nat × String × String)
  | session, _ => []
  | conversation, (c : ConversationRecord) =>
    [(1, "session_id", c.sessionId), (4, "status", StrEnum.value c.status)]
  | cycle, (c : CycleRecord) => [(1, "conversation_id", c.conversationId)]
  | message, (m : MessageRecord) =>
    [(2, "conversation_id", m.conversationId), (3, "direction", StrEnum.value m.direction)]
  | plan, (p : PlanRecord) =>
    [(0, "plan_id", p.planId), (1, "session_id", p.sessionId),
      (2, "conversation_id", p.conversationId), (8, "status", StrEnum.value p.status)]
  | task, (t : TaskRecord) =>
    [(1, "plan_id", t.planId), (2, "session_id", t.sessionId),
      (7, "status", StrEnum.value t.status)]

theorem columns_filtered (k : RecordKind) (r : k.Record) : ∀ c ∈ filtered k r,
    k.table.row.columns[c.1]? = some c.2.1 ∧ k.table.row.columns.idxOf c.2.1 = c.1 := by
  cases k with
  | session => simp [filtered]
  | conversation | cycle | message | plan | task =>
    simp only [filtered, List.forall_mem_cons, List.not_mem_nil, false_imp_iff, implies_true]
    decide +kernel

theorem encode_conversation (c : ConversationRecord) :
    (conversationsTable.row.encode c)[1]? = some (.text c.sessionId.toList) ∧
      (conversationsTable.row.encode c)[4]? = some (.text (StrEnum.value c.status).toList) := by
  simp only [conversationsTable, Row.encode_column, Row.encode_start, List.nil_append,
    List.cons_append, List.getElem?_cons_succ, List.getElem?_cons_zero]
  exact ⟨rfl, rfl⟩

theorem encode_cycle (c : CycleRecord) :
    (cyclesTable.row.encode c)[1]? = some (.text c.conversationId.toList) := by
  simp only [cyclesTable, Row.encode_column, Row.encode_start, List.nil_append, List.cons_append,
    List.getElem?_cons_succ, List.getElem?_cons_zero]
  exact rfl

theorem encode_message (m : MessageRecord) :
    (messagesTable.row.encode m)[2]? = some (.text m.conversationId.toList) ∧
      (messagesTable.row.encode m)[3]? = some (.text (StrEnum.value m.direction).toList) := by
  simp only [messagesTable, Row.encode_column, Row.encode_start, List.nil_append, List.cons_append,
    List.getElem?_cons_succ, List.getElem?_cons_zero]
  exact ⟨rfl, rfl⟩

theorem encode_plan (p : PlanRecord) :
    (plansTable.row.encode p)[0]? = some (.text p.planId.toList) ∧
      (plansTable.row.encode p)[1]? = some (.text p.sessionId.toList) ∧
      (plansTable.row.encode p)[2]? = some (.text p.conversationId.toList) ∧
      (plansTable.row.encode p)[8]? = some (.text (StrEnum.value p.status).toList) := by
  simp only [plansTable, Row.encode_column, Row.encode_start, List.nil_append, List.cons_append,
    List.getElem?_cons_succ, List.getElem?_cons_zero]
  exact ⟨rfl, rfl, rfl, rfl⟩

theorem encode_task (t : TaskRecord) :
    (tasksTable.row.encode t)[1]? = some (.text t.planId.toList) ∧
      (tasksTable.row.encode t)[2]? = some (.text t.sessionId.toList) ∧
      (tasksTable.row.encode t)[7]? = some (.text (StrEnum.value t.status).toList) := by
  simp only [tasksTable, Row.encode_column, Row.encode_start, List.nil_append, List.cons_append,
    List.getElem?_cons_succ, List.getElem?_cons_zero]
  exact ⟨rfl, rfl, rfl⟩

theorem encode_filtered (k : RecordKind) (r : k.Record) : ∀ c ∈ filtered k r,
    (k.table.row.encode r)[c.1]? = some (.text c.2.2.toList) := by
  cases k with
  | session => exact List.forall_mem_nil _
  | cycle => exact List.forall_mem_singleton.2 (encode_cycle r)
  | conversation =>
    obtain ⟨hsession, hstatus⟩ := encode_conversation r
    exact List.forall_mem_cons.2 ⟨hsession, List.forall_mem_singleton.2 hstatus⟩
  | message =>
    obtain ⟨hconversation, hdirection⟩ := encode_message r
    exact List.forall_mem_cons.2 ⟨hconversation, List.forall_mem_singleton.2 hdirection⟩
  | plan =>
    obtain ⟨hplan, hsession, hconversation, hstatus⟩ := encode_plan r
    exact List.forall_mem_cons.2 ⟨hplan, List.forall_mem_cons.2 ⟨hsession,
      List.forall_mem_cons.2 ⟨hconversation, List.forall_mem_singleton.2 hstatus⟩⟩⟩
  | task =>
    obtain ⟨hplan, hsession, hstatus⟩ := encode_task r
    exact List.forall_mem_cons.2 ⟨hplan, List.forall_mem_cons.2 ⟨hsession,
      List.forall_mem_singleton.2 hstatus⟩⟩

theorem param_filtered {k : RecordKind} {r : k.Record} (i : Nat) {name s : String}
    (h : (i, name, s) ∈ filtered k r) : k.param r name = some (.text s.toList) :=
  param_eq i (columns_filtered k r _ h) (encode_filtered k r _ h)

end RecordKind

/-! ### Listings -/

open RecordKind

section Filter

variable {k : RecordKind} {r : k.Record}

theorem RecordKind.Storable.inStates {S : Type} [StrEnum S] [EnumColumn S] [DecidableEq S]
    (h : k.Storable r) (i : Nat) {name : String} {s : S} (states : List S)
    (hmem : (i, name, StrEnum.value s) ∈ filtered k r) :
    (k.rowOf r).meets k.table.row.columns (name, states.map StrEnum.value) = decide (s ∈ states) :=
  h.meets_states states (param_filtered i hmem)

end Filter

/-- The database holds the rows of the records of a store. -/
structure Represents (tables : RecordKind → Table StoredRow) (σ : Store) : Prop where
  storable : ∀ k, ∀ r ∈ σ.rowsOf k, k.Storable r
  rows : ∀ k, (tables k).rows = (σ.rowsOf k).map k.rowOf

namespace Represents

variable {tables : RecordKind → Table StoredRow} {σ : Store}

end Represents

end AgenticLocalApp
