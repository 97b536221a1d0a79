import AgenticLocalApp.Persistence.StoreQueries

/-!
# The order of insertion in memory

`_order` gives every key a number when it is first saved.  The numbers ascend along each dictionary,
so that a listing that is sorted by them is in the order of the dictionary; they are told apart by
their keys, which join a session and an identifier with a colon.
-/

namespace AgenticLocalApp

open Transactions

/-! ## Keys -/

theorem append_colon_inj {a b a' b' : List Char} (ha : ':' ∉ a) (ha' : ':' ∉ a')
    (h : a ++ ':' :: b = a' ++ ':' :: b') : a = a' ∧ b = b' := by
  induction a generalizing a' with
  | nil =>
    cases a' with
    | nil => simpa using h
    | cons c cs =>
      rw [List.nil_append, List.cons_append, List.cons.injEq] at h
      exact absurd (h.1 ▸ List.mem_cons_self) ha'
  | cons c cs ih =>
    cases a' with
    | nil =>
      rw [List.nil_append, List.cons_append, List.cons.injEq] at h
      exact absurd (h.1 ▸ List.mem_cons_self) ha
    | cons d ds =>
      rw [List.cons_append, List.cons_append, List.cons.injEq] at h
      have hcs : ':' ∉ cs := fun hc => ha (List.mem_cons_of_mem c hc)
      have hds : ':' ∉ ds := fun hd => ha' (List.mem_cons_of_mem d hd)
      obtain ⟨he, hb⟩ := ih hcs hds h.2
      exact ⟨by rw [h.1, he], hb⟩

namespace RecordKind

/-- No part of the key but the last has a colon.  Identifiers of sessions are the program's own,
and have none. -/
def Plain (key : List String) : Prop := ∀ part ∈ key.dropLast, ':' ∉ part.toList

theorem parts_inj {key key' : List String} (hp : Plain key) (hp' : Plain key')
    (hlen : key.length = key'.length)
    (h : (key.flatMap fun part => ':' :: part.toList) =
      key'.flatMap fun part => ':' :: part.toList) : key = key' := by
  induction key generalizing key' with
  | nil =>
    cases key' with
    | nil => rfl
    | cons y ys => simp at hlen
  | cons x xs ih =>
    cases key' with
    | nil => simp at hlen
    | cons y ys =>
      rw [List.flatMap_cons, List.flatMap_cons, List.cons_append, List.cons_append,
        List.cons.injEq] at h
      obtain ⟨-, h⟩ := h
      cases xs with
      | nil =>
        obtain rfl : ys = [] := by
          apply List.eq_nil_of_length_eq_zero
          simpa using hlen.symm
        simp only [List.flatMap_nil, List.append_nil] at h
        rw [String.toList_inj.1 h]
      | cons x' xs =>
        cases ys with
        | nil => simp at hlen
        | cons y' ys =>
          have hx : ':' ∉ x.toList := hp x (by simp)
          have hy : ':' ∉ y.toList := hp' y (by simp)
          have hparts := h
          rw [List.flatMap_cons, List.flatMap_cons, List.cons_append, List.cons_append] at hparts
          obtain ⟨hxy, -⟩ := append_colon_inj hx hy hparts
          rw [hxy, List.append_cancel_left_eq] at h
          have hplain : Plain (x' :: xs) := fun p hmem => hp p (by simp [hmem])
          have hplain' : Plain (y' :: ys) := fun p hmem => hp' p (by simp [hmem])
          rw [String.toList_inj.1 hxy, ih hplain hplain' (by simpa using hlen) h]

theorem primaryKey_ne (k : RecordKind) (r : k.Record) : k.table.primaryKey r ≠ [] := by
  cases k <;> exact List.cons_ne_nil _ _

theorem length_primaryKey (k : RecordKind) (r r' : k.Record) :
    (k.table.primaryKey r).length = (k.table.primaryKey r').length := by
  cases k <;> rfl

theorem colon_notMem_label (k : RecordKind) : ':' ∉ k.label := by
  cases k <;> decide

theorem label_inj {k k' : RecordKind} (h : k.label = k'.label) : k = k' := by
  revert h
  cases k <;> cases k' <;> decide

theorem kind_of_orderKey {k k' : RecordKind} {key key' : List String} (hk : key ≠ [])
    (hk' : key' ≠ []) (h : k.orderKey key = k'.orderKey key') :
    k = k' ∧ (key.flatMap fun part => ':' :: part.toList) =
      key'.flatMap fun part => ':' :: part.toList := by
  cases key with
  | nil => exact absurd rfl hk
  | cons x xs =>
    cases key' with
    | nil => exact absurd rfl hk'
    | cons y ys =>
      unfold orderKey at h
      rw [List.flatMap_cons, List.flatMap_cons, List.cons_append, List.cons_append] at h ⊢
      obtain ⟨hlabel, hrest⟩ :=
        append_colon_inj (colon_notMem_label k) (colon_notMem_label k') h
      exact ⟨label_inj hlabel, by rw [hrest]⟩

/-- A key of `_order` belongs to one record. -/
theorem orderKey_inj {k k' : RecordKind} {r : k.Record} {r' : k'.Record}
    (hp : Plain (k.table.primaryKey r)) (hp' : Plain (k'.table.primaryKey r'))
    (h : k.orderKey (k.table.primaryKey r) = k'.orderKey (k'.table.primaryKey r')) :
    ∃ hk : k = k', k'.table.primaryKey (hk ▸ r) = k'.table.primaryKey r' := by
  obtain ⟨rfl, hparts⟩ := kind_of_orderKey (k.primaryKey_ne r) (k'.primaryKey_ne r') h
  exact ⟨rfl, parts_inj hp hp' (length_primaryKey k r r') hparts⟩

end RecordKind

/-! ## Saving a row -/

section Upsert

variable {α β κ : Type} [DecidableEq κ]

/-- A row saved under its key, among rows. -/
def upsert (key : α → κ) (rows : List α) (r : α) : List α :=
  if key r ∈ rows.map key then rows.map fun x => if key x = key r then r else x else rows ++ [r]

theorem mem_upsert {key : α → κ} {rows : List α} {r x : α} (h : x ∈ upsert key rows r) :
    x = r ∨ x ∈ rows := by
  unfold upsert at h
  split at h
  · obtain ⟨y, hy, rfl⟩ := List.mem_map.1 h
    split
    · exact .inl rfl
    · exact .inr hy
  · rcases List.mem_append.1 h with hx | hx
    · exact .inr hx
    · exact .inl (List.mem_singleton.1 hx)

theorem upsert_congr {κ' : Type} [DecidableEq κ'] {key : α → κ} {key' : α → κ'}
    (h : ∀ a b, key a = key b ↔ key' a = key' b) (rows : List α) (r : α) :
    upsert key rows r = upsert key' rows r := by
  have hmem : key r ∈ rows.map key ↔ key' r ∈ rows.map key' := by
    simp only [List.mem_map, h]
  unfold upsert
  simp only [hmem, h]

theorem map_upsert {key : α → κ} {key' : β → κ} {f : α → β} (h : ∀ a, key' (f a) = key a)
    (rows : List α) (r : α) : (upsert key rows r).map f = upsert key' (rows.map f) (f r) := by
  have hkeys : (rows.map f).map key' = rows.map key := by
    rw [List.map_map]
    exact List.map_congr_left fun a _ => h a
  unfold upsert
  rw [hkeys, h]
  by_cases hr : key r ∈ rows.map key
  · rw [if_pos hr, if_pos hr, List.map_map, List.map_map]
    refine List.map_congr_left fun a _ => ?_
    by_cases ha : key a = key r <;> simp [h, ha]
  · rw [if_neg hr, if_neg hr, List.map_append]
    rfl

end Upsert

namespace Store

theorem rowsOf_saveRecord (σ : Store) (k : RecordKind) (r : k.Record) :
    (σ.saveRecord k r).rowsOf k = upsert k.table.primaryKey (σ.rowsOf k) r := by
  cases k with
  | session | conversation | cycle | message =>
    refine upsert_congr (fun a b => ?_) _ _
    show _ = _ ↔ [_] = [_]
    rw [List.cons.injEq]
    exact (and_iff_left rfl).symm
  | plan | task =>
    refine upsert_congr (fun a b => ?_) _ _
    show (_, _) = (_, _) ↔ [_, _] = [_, _]
    simp

theorem rowsOf_saveRecord_of_ne (σ : Store) {k k' : RecordKind} (r : k.Record) (h : k ≠ k') :
    (σ.saveRecord k r).rowsOf k' = σ.rowsOf k' := by
  cases k <;> cases k' <;> first | exact absurd rfl h | rfl

end Store

/-! ## The in-memory store -/

namespace MemoryContents

open RecordKind

def numberOf (m : MemoryContents) (k : RecordKind) (r : k.Record) : Nat :=
  m.orderOf (k.orderKey (k.table.primaryKey r))

/-- Every record has a number of its own, and in a dictionary the numbers ascend. -/
structure Ordered (m : MemoryContents) : Prop where
  plain : ∀ k, ∀ r ∈ m.store.rowsOf k, Plain (k.table.primaryKey r)
  numbered : ∀ k, ∀ r ∈ m.store.rowsOf k, ∃ n,
    m.order.lookup (k.orderKey (k.table.primaryKey r)) = some n ∧ 0 < n ∧ n ≤ m.insertionCounter
  used : ∀ key n, m.order.lookup key = some n →
    ∃ k, ∃ r ∈ m.store.rowsOf k, key = k.orderKey (k.table.primaryKey r)
  ascending : ∀ k, (m.store.rowsOf k).Pairwise fun a b => m.numberOf k a < m.numberOf k b

variable {m : MemoryContents}

theorem Ordered.numberOf_pos (h : m.Ordered) {k : RecordKind} {r : k.Record}
    (hr : r ∈ m.store.rowsOf k) : 0 < m.numberOf k r ∧ m.numberOf k r ≤ m.insertionCounter := by
  obtain ⟨n, hn, hpos, hle⟩ := h.numbered k r hr
  simp only [numberOf, orderOf, hn, Option.getD_some]
  exact ⟨hpos, hle⟩

/-- The records that are not tasks are listed as they were inserted. -/
theorem Ordered.sortRows_eq (h : m.Ordered) {k : RecordKind} (p : k.Record → Bool) :
    m.sortRows k ((m.store.rowsOf k).filter p) = (m.store.rowsOf k).filter p := by
  refine List.Pairwise.insertionSort_eq ?_
  exact ((h.ascending k).filter p).imp fun hlt => Nat.le_of_lt hlt

/-- The number of the plan at a position, counted from one; nothing is at zero. -/
def planNumber (m : MemoryContents) (i : Nat) : Nat :=
  match m.store.plans.rows[i - 1]? with
  | some p => if i = 0 then 0 else m.numberOf .plan p
  | none => 0

theorem Ordered.planNumber_lt (h : m.Ordered) {i j : Nat} (hij : i < j)
    (hj : j ≤ m.store.plans.rows.length) : m.planNumber i < m.planNumber j := by
  have hlast : j - 1 < m.store.plans.rows.length := by omega
  have hat : m.planNumber j = m.numberOf .plan m.store.plans.rows[j - 1] := by
    unfold planNumber
    rw [List.getElem?_eq_getElem hlast]
    exact if_neg (by omega)
  rw [hat]
  by_cases hi : i = 0
  · subst hi
    have hzero : m.planNumber 0 = 0 := by
      unfold planNumber
      split <;> rfl
    rw [hzero]
    exact (h.numberOf_pos (k := .plan) (List.getElem_mem hlast)).1
  · have hfirst : i - 1 < m.store.plans.rows.length := by omega
    have hati : m.planNumber i = m.numberOf .plan m.store.plans.rows[i - 1] := by
      unfold planNumber
      rw [List.getElem?_eq_getElem hfirst]
      exact if_neg hi
    rw [hati]
    exact List.pairwise_iff_getElem.1 (h.ascending .plan) _ _ hfirst hlast (by omega)

theorem planOrder_le (σ : Store) (t : TaskRecord) : σ.planOrder t ≤ σ.plans.rows.length := by
  unfold Store.planOrder
  simp only
  split <;> omega

/-- A task is sorted by the number of its plan, as by the place of the plan. -/
theorem Ordered.planOrder_eq (h : m.Ordered) {t : TaskRecord} (ht : t ∈ m.store.tasks.rows) :
    m.planOrder t = m.planNumber (m.store.planOrder t) := by
  have hplain : Plain [t.sessionId, t.planId] := by
    have htask : Plain [t.sessionId, t.taskId] := h.plain .task t ht
    simpa [Plain] using htask
  by_cases hex : ∃ p ∈ m.store.plans.rows, p.sessionId = t.sessionId ∧ p.planId = t.planId
  · have hlt : m.store.plans.rows.findIdx
        (fun p => p.sessionId = t.sessionId ∧ p.planId = t.planId) < m.store.plans.rows.length := by
      apply List.findIdx_lt_length_of_exists
      simpa using hex
    have hplace : m.store.planOrder t = m.store.plans.rows.findIdx
        (fun p => p.sessionId = t.sessionId ∧ p.planId = t.planId) + 1 := if_pos hlt
    have hfound := List.findIdx_getElem (w := hlt)
    rw [decide_eq_true_eq] at hfound
    rw [hplace]
    unfold planNumber
    rw [Nat.add_sub_cancel, List.getElem?_eq_getElem hlt]
    simp only [Nat.add_eq_zero_iff, one_ne_zero, and_false, if_false]
    have hnumber : ∀ p : PlanRecord, p.sessionId = t.sessionId ∧ p.planId = t.planId →
        m.planOrder t = m.numberOf .plan p := by
      rintro p ⟨hs, hp⟩
      show m.orderOf (RecordKind.plan.orderKey [t.sessionId, t.planId]) =
        m.orderOf (RecordKind.plan.orderKey [p.sessionId, p.planId])
      rw [hs, hp]
    exact hnumber _ hfound
  · have hplace : m.store.planOrder t = 0 := by
      refine if_neg ?_
      rw [List.findIdx_lt_length]
      simpa using hex
    have hzero : m.planNumber 0 = 0 := by
      unfold planNumber
      split <;> rfl
    rw [hplace, hzero]
    unfold planOrder orderOf
    cases hl : m.order.lookup (RecordKind.plan.orderKey [t.sessionId, t.planId]) with
    | none => rfl
    | some n =>
      obtain ⟨k, r, hr, hkey⟩ := h.used _ _ hl
      obtain ⟨rfl, hparts⟩ :=
        kind_of_orderKey (List.cons_ne_nil _ _) (k.primaryKey_ne r) hkey
      have hr' : (r : PlanRecord) ∈ m.store.plans.rows := hr
      have hpk : [t.sessionId, t.planId] = [PlanRecord.sessionId r, PlanRecord.planId r] :=
        parts_inj hplain (h.plain .plan r hr) rfl hparts
      rw [List.cons.injEq, List.cons.injEq] at hpk
      exact absurd ⟨r, hr', hpk.1.symm, hpk.2.1.symm⟩ hex

theorem Ordered.sortTasks_eq (h : m.Ordered) {ts : List TaskRecord}
    (hts : ∀ t ∈ ts, t ∈ m.store.tasks.rows) : m.sortTasks ts = m.store.sortTasks ts := by
  have hmono : ∀ a ∈ ts, ∀ b ∈ ts, (m.planOrder a < m.planOrder b ↔
      m.store.planOrder a < m.store.planOrder b) ∧ (m.planOrder a = m.planOrder b ↔
      m.store.planOrder a = m.store.planOrder b) := by
    intro a ha b hb
    rw [h.planOrder_eq (hts a ha), h.planOrder_eq (hts b hb)]
    have hla := planOrder_le m.store a
    have hlb := planOrder_le m.store b
    rcases Nat.lt_trichotomy (m.store.planOrder a) (m.store.planOrder b) with hlt | heq | hgt
    · have := h.planNumber_lt hlt hlb
      omega
    · rw [heq]
      omega
    · have := h.planNumber_lt hgt hla
      omega
  have hsort := List.map_insertionSort (r := fun a b => m.planOrder a < m.planOrder b ∨
    m.planOrder a = m.planOrder b ∧ a.orderIndex ≤ b.orderIndex) (s := fun a b =>
    m.store.planOrder a < m.store.planOrder b ∨
    m.store.planOrder a = m.store.planOrder b ∧ a.orderIndex ≤ b.orderIndex) id ts
    fun a ha b hb => by
      obtain ⟨hlt, heq⟩ := hmono a ha b hb
      simp only [hlt, heq, id]
  rwa [List.map_id, List.map_id] at hsort

/-- The in-memory store lists what the store of the model lists. -/
theorem Ordered.list_eq (h : m.Ordered) {k : RecordKind} (q : Query k) :
    m.list q = m.store.query q := by
  unfold list Store.query
  cases k with
  | task => exact h.sortTasks_eq fun t ht => (List.mem_filter.1 ht).1
  | session | conversation | cycle | message | plan => exact h.sortRows_eq _

/-! ### Saving -/

theorem lookup_append_self {order : List (List Char × Nat)} {key : List Char} {n : Nat}
    (h : order.lookup key = none) : (order ++ [(key, n)]).lookup key = some n := by
  rw [List.lookup_append, h]
  simp

theorem lookup_append_of_some {order : List (List Char × Nat)} {key new : List Char} {n i : Nat}
    (h : order.lookup key = some i) : (order ++ [(new, n)]).lookup key = some i := by
  rw [List.lookup_append, h]
  rfl

theorem lookup_append_of_ne {order : List (List Char × Nat)} {key new : List Char} {n : Nat}
    (h : key ≠ new) : (order ++ [(new, n)]).lookup key = order.lookup key := by
  have hne : (key == new) = false := by simpa using h
  rw [List.lookup_append]
  simp [List.lookup_cons, hne]

@[simp] theorem store_touch (m : MemoryContents) (key : List Char) :
    (m.touch key).store = m.store := by
  unfold touch
  split <;> rfl

theorem rowsOf_save (m : MemoryContents) (k : RecordKind) (r : k.Record) :
    (m.save k r).store.rowsOf k = upsert k.table.primaryKey (m.store.rowsOf k) r := by
  unfold save
  rw [store_touch]
  exact Store.rowsOf_saveRecord _ _ _

theorem rowsOf_save_of_ne (m : MemoryContents) {k k' : RecordKind} (r : k.Record) (h : k ≠ k') :
    (m.save k r).store.rowsOf k' = m.store.rowsOf k' := by
  unfold save
  rw [store_touch]
  exact Store.rowsOf_saveRecord_of_ne _ _ h

/-- A record is in the dictionaries after a save when it was, or is the one that was saved. -/
theorem mem_rowsOf_save {k k' : RecordKind} {r : k.Record} {x : k'.Record}
    (hx : x ∈ (m.save k r).store.rowsOf k') :
    (∃ hk : k = k', x = hk ▸ r) ∨ x ∈ m.store.rowsOf k' := by
  by_cases hk : k = k'
  · subst hk
    rw [rowsOf_save] at hx
    rcases mem_upsert hx with rfl | hx
    · exact .inl ⟨rfl, rfl⟩
    · exact .inr hx
  · rw [rowsOf_save_of_ne m r hk] at hx
    exact .inr hx

theorem Ordered.fresh (h : m.Ordered) {k : RecordKind} {r : k.Record}
    (hr : Plain (k.table.primaryKey r))
    (hnew : k.table.primaryKey r ∉ (m.store.rowsOf k).map k.table.primaryKey) :
    m.order.lookup (k.orderKey (k.table.primaryKey r)) = none := by
  cases hl : m.order.lookup (k.orderKey (k.table.primaryKey r)) with
  | none => rfl
  | some n =>
    obtain ⟨k', r', hr', hkey⟩ := h.used _ _ hl
    obtain ⟨rfl, hpk⟩ := orderKey_inj hr (h.plain k' r' hr') hkey
    exact absurd (List.mem_map.2 ⟨r', hr', hpk.symm⟩) hnew

/-- A save of a record that is there changes no number. -/
theorem Ordered.save_present (h : m.Ordered) {k : RecordKind} {r : k.Record}
    (hold : k.table.primaryKey r ∈ (m.store.rowsOf k).map k.table.primaryKey) :
    (m.save k r).order = m.order ∧ (m.save k r).insertionCounter = m.insertionCounter := by
  obtain ⟨x, hx, hkey⟩ := List.mem_map.1 hold
  obtain ⟨n, hn, -⟩ := h.numbered k x hx
  rw [hkey] at hn
  unfold save touch
  simp only [hn, and_self]

/-- A save of a new record gives it the next number. -/
theorem Ordered.save_new (h : m.Ordered) {k : RecordKind} {r : k.Record}
    (hr : Plain (k.table.primaryKey r))
    (hnew : k.table.primaryKey r ∉ (m.store.rowsOf k).map k.table.primaryKey) :
    (m.save k r).order =
        m.order ++ [(k.orderKey (k.table.primaryKey r), m.insertionCounter + 1)] ∧
      (m.save k r).insertionCounter = m.insertionCounter + 1 := by
  have hnone := h.fresh hr hnew
  unfold save touch
  simp only [hnone, and_self]

theorem numberOf_congr {m' : MemoryContents} (h : m'.order = m.order) (k : RecordKind)
    (r : k.Record) : m'.numberOf k r = m.numberOf k r := by
  unfold numberOf orderOf
  rw [h]

theorem pairwise_replace {α : Type} {R : α → α → Prop} {l : List α} {f : α → α}
    (hf : ∀ a b, R a b → R (f a) (f b)) (h : l.Pairwise R) : (l.map f).Pairwise R :=
  List.pairwise_map.2 (h.imp fun hab => hf _ _ hab)

theorem Ordered.saved_present (h : m.Ordered) {k : RecordKind} {r : k.Record}
    (hr : Plain (k.table.primaryKey r))
    (hold : k.table.primaryKey r ∈ (m.store.rowsOf k).map k.table.primaryKey) :
    (m.save k r).Ordered := by
  obtain ⟨horder, hcounter⟩ := h.save_present hold
  obtain ⟨x, hx, hkey⟩ := List.mem_map.1 hold
  have hrows : (m.save k r).store.rowsOf k =
      (m.store.rowsOf k).map fun x =>
        if k.table.primaryKey x = k.table.primaryKey r then r else x := by
    rw [rowsOf_save]
    exact if_pos hold
  refine ⟨?_, ?_, ?_, ?_⟩
  · intro k' y hy
    rcases mem_rowsOf_save hy with ⟨rfl, rfl⟩ | hy
    · exact hr
    · exact h.plain k' y hy
  · intro k' y hy
    rw [horder, hcounter]
    rcases mem_rowsOf_save hy with ⟨rfl, rfl⟩ | hy
    · have hnum := h.numbered k x hx
      rwa [hkey] at hnum
    · exact h.numbered k' y hy
  · intro key n hl
    rw [horder] at hl
    obtain ⟨k', y, hy, hkey'⟩ := h.used key n hl
    by_cases hk : k = k'
    · subst hk
      refine ⟨k, _, hrows ▸ List.mem_map_of_mem hy, ?_⟩
      by_cases hyr : k.table.primaryKey y = k.table.primaryKey r
      · rw [if_pos hyr, ← hyr]
        exact hkey'
      · rw [if_neg hyr]
        exact hkey'
    · exact ⟨k', y, (rowsOf_save_of_ne m r hk).symm ▸ hy, hkey'⟩
  · intro k'
    have hnumbers : ∀ y, (m.save k r).numberOf k' y = m.numberOf k' y :=
      numberOf_congr horder k'
    by_cases hk : k = k'
    · subst hk
      rw [hrows]
      refine pairwise_replace (fun a b hab => ?_) ((h.ascending k).imp fun hab => by
        rwa [hnumbers, hnumbers])
      have hsame : ∀ y, (m.save k r).numberOf k
          (if k.table.primaryKey y = k.table.primaryKey r then r else y) =
            (m.save k r).numberOf k y := by
        intro y
        split
        · rename_i hy
          unfold numberOf
          rw [hy]
        · rfl
      rw [hsame, hsame]
      exact hab
    · rw [rowsOf_save_of_ne m r hk]
      exact (h.ascending k').imp fun hab => by rwa [hnumbers, hnumbers]

theorem Ordered.saved_new (h : m.Ordered) {k : RecordKind} {r : k.Record}
    (hr : Plain (k.table.primaryKey r))
    (hnew : k.table.primaryKey r ∉ (m.store.rowsOf k).map k.table.primaryKey) :
    (m.save k r).Ordered := by
  obtain ⟨horder, hcounter⟩ := h.save_new hr hnew
  have hnone := h.fresh hr hnew
  have hrows : (m.save k r).store.rowsOf k = m.store.rowsOf k ++ [r] := by
    rw [rowsOf_save]
    exact if_neg hnew
  -- a record that was there keeps its number
  have hkept : ∀ k', ∀ y ∈ m.store.rowsOf k', (m.save k r).numberOf k' y = m.numberOf k' y := by
    intro k' y hy
    obtain ⟨n, hn, -⟩ := h.numbered k' y hy
    unfold numberOf orderOf
    rw [horder, lookup_append_of_some hn, hn]
  have hown : (m.save k r).numberOf k r = m.insertionCounter + 1 := by
    unfold numberOf orderOf
    rw [horder, lookup_append_self hnone]
    rfl
  refine ⟨?_, ?_, ?_, ?_⟩
  · intro k' y hy
    rcases mem_rowsOf_save hy with ⟨rfl, rfl⟩ | hy
    · exact hr
    · exact h.plain k' y hy
  · intro k' y hy
    rw [horder, hcounter]
    rcases mem_rowsOf_save hy with ⟨rfl, rfl⟩ | hy
    · exact ⟨_, lookup_append_self hnone, by omega, by omega⟩
    · obtain ⟨n, hn, hpos, hle⟩ := h.numbered k' y hy
      exact ⟨n, lookup_append_of_some hn, hpos, by omega⟩
  · intro key n hl
    rw [horder] at hl
    by_cases hkey : key = k.orderKey (k.table.primaryKey r)
    · exact ⟨k, r, by rw [hrows]; simp, hkey⟩
    · rw [lookup_append_of_ne hkey] at hl
      obtain ⟨k', y, hy, hkey'⟩ := h.used key n hl
      by_cases hk : k = k'
      · subst hk
        exact ⟨k, y, by rw [hrows]; exact List.mem_append_left _ hy, hkey'⟩
      · exact ⟨k', y, (rowsOf_save_of_ne m r hk).symm ▸ hy, hkey'⟩
  · intro k'
    have hascending : (m.store.rowsOf k').Pairwise
        fun a b => (m.save k r).numberOf k' a < (m.save k r).numberOf k' b := by
      refine (h.ascending k').imp_of_mem fun ha hb hab => ?_
      rwa [hkept k' _ ha, hkept k' _ hb]
    by_cases hk : k = k'
    · subst hk
      rw [hrows]
      refine List.pairwise_append.2 ⟨hascending, List.pairwise_singleton _ _, ?_⟩
      intro a ha b hb
      obtain rfl := List.mem_singleton.1 hb
      rw [hkept k a ha, hown]
      have := (h.numberOf_pos ha).2
      omega
    · rw [rowsOf_save_of_ne m r hk]
      exact hascending

theorem Ordered.save (h : m.Ordered) {k : RecordKind} {r : k.Record}
    (hr : Plain (k.table.primaryKey r)) : (m.save k r).Ordered := by
  by_cases hold : k.table.primaryKey r ∈ (m.store.rowsOf k).map k.table.primaryKey
  · exact h.saved_present hr hold
  · exact h.saved_new hr hold

end MemoryContents

end AgenticLocalApp
