import Mathlib.Data.List.Nodup
import Mathlib.Order.Nat
import Mathlib.Data.List.Perm.Subperm

/-!
# Kahn's algorithm

A queue of the nodes that wait for nothing: the first one is taken, and the nodes that waited for
it alone join the queue.  When every node has been taken there is no cycle, which is used in the
form that every non-empty set of nodes has one that waits for none of the others.
-/

namespace Kahn

variable {κ : Type} [DecidableEq κ]

/-- The nodes, each with what it still waits for, once `x` is done. -/
def release (x : κ) (rows : List (κ × List κ)) : List (κ × List κ) :=
  rows.map fun r => (r.1, r.2.filter (· ≠ x))

/-- The nodes that waited for `x` and for nothing else. -/
def released (x : κ) (rows : List (κ × List κ)) : List κ :=
  (rows.filter fun r => x ∈ r.2 ∧ r.2.filter (· ≠ x) = []).map Prod.fst

/-- The nodes taken from the queue, in order, and what is left; no more than `fuel` are taken. -/
def schedule : (fuel : Nat) → List (κ × List κ) → List κ → List κ × List (κ × List κ)
  | 0, rows, _ => ([], rows)
  | _ + 1, rows, [] => ([], rows)
  | fuel + 1, rows, x :: ready =>
    let next := schedule fuel (release x rows) (ready ++ released x rows)
    (x :: next.1, next.2)

/-- The nodes that wait for nothing. -/
def initial (rows : List (κ × List κ)) : List κ := (rows.filter fun r => r.2 = []).map Prod.fst

/-- The schedule of a whole graph: a node enters the queue at most once. -/
def order (rows : List (κ × List κ)) : List κ × List (κ × List κ) :=
  schedule rows.length rows (initial rows)

/-! ## What a schedule says -/

/-- The nodes taken and the nodes in the queue wait for nothing, and no node is both. -/
structure Queued (rows : List (κ × List κ)) (done ready : List κ) : Prop where
  keys : (rows.map Prod.fst).Nodup
  nodup : ready.Nodup
  disjoint : ∀ x ∈ ready, x ∉ done
  mem : ∀ x ∈ ready, x ∈ rows.map Prod.fst
  free : ∀ x, x ∈ done ∨ x ∈ ready → ∀ rest, (x, rest) ∈ rows → rest = []

theorem mem_released {x y : κ} {rows : List (κ × List κ)} :
    y ∈ released x rows ↔ ∃ rest, (y, rest) ∈ rows ∧ x ∈ rest ∧ rest.filter (· ≠ x) = [] := by
  simp [released]

theorem keys_release (x : κ) (rows : List (κ × List κ)) :
    (release x rows).map Prod.fst = rows.map Prod.fst := by
  unfold release
  rw [List.map_map]
  rfl

theorem mem_release {x y : κ} {rest : List κ} {rows : List (κ × List κ)} :
    (y, rest) ∈ release x rows ↔ ∃ before, (y, before) ∈ rows ∧ before.filter (· ≠ x) = rest := by
  simp [release]

theorem mem_release_of_mem {x y : κ} {rest : List κ} {rows : List (κ × List κ)}
    (h : (y, rest) ∈ rows) : (y, rest.filter (· ≠ x)) ∈ release x rows := mem_release.2 ⟨rest, h, rfl⟩

variable {rows : List (κ × List κ)} {done ready : List κ} {x : κ}

/-- Taking the first node of the queue. -/
theorem Queued.step (h : Queued rows done (x :: ready)) :
    Queued (release x rows) (x :: done) (ready ++ released x rows) := by
  obtain ⟨hx, hready⟩ := List.nodup_cons.1 h.nodup
  have waiting : ∀ y ∈ released x rows, y ∉ done ∧ y ∉ x :: ready := by
    intro y hy
    obtain ⟨rest, hrest, hmem, -⟩ := mem_released.1 hy
    have hne : rest ≠ [] := List.ne_nil_of_mem hmem
    exact ⟨fun hd => hne (h.free y (.inl hd) rest hrest), fun hr => hne (h.free y (.inr hr) rest hrest)⟩
  refine ⟨by rw [keys_release]; exact h.keys, ?_, ?_, ?_, ?_⟩
  · refine List.nodup_append.2 ⟨hready, ?_, ?_⟩
    · exact List.Nodup.sublist ((List.filter_sublist).map _) h.keys
    · rintro y hy z hz rfl
      exact (waiting y hz).2 (List.mem_cons_of_mem _ hy)
  · intro y hy hd
    rcases List.mem_append.1 hy with hr | hr
    · rcases List.mem_cons.1 hd with he | hd
      · exact hx (he ▸ hr)
      · exact h.disjoint y (List.mem_cons_of_mem _ hr) hd
    · rcases List.mem_cons.1 hd with he | hd
      · exact (waiting y hr).2 (he ▸ List.mem_cons_self)
      · exact (waiting y hr).1 hd
  · intro y hy
    rw [keys_release]
    rcases List.mem_append.1 hy with hy | hy
    · exact h.mem y (List.mem_cons_of_mem _ hy)
    · obtain ⟨rest, hrest, -⟩ := mem_released.1 hy
      exact List.mem_map_of_mem (f := Prod.fst) hrest
  · intro y hy rest hrest
    obtain ⟨before, hbefore, rfl⟩ := mem_release.1 hrest
    by_cases hrel : y ∈ released x rows
    · obtain ⟨before', hbefore', -, hempty⟩ := mem_released.1 hrel
      obtain rfl : before = before' :=
        congrArg Prod.snd (List.inj_on_of_nodup_map h.keys hbefore hbefore' rfl)
      exact hempty
    · have hy' : y ∈ done ∨ y ∈ x :: ready := by
        rcases hy with hy | hy
        · rcases List.mem_cons.1 hy with rfl | hy
          · exact .inr List.mem_cons_self
          · exact .inl hy
        · exact .inr (List.mem_cons_of_mem _ ((List.mem_append.1 hy).resolve_right hrel))
      rw [h.free y hy' before hbefore]
      rfl

theorem schedule_spec (fuel : Nat) (h : Queued rows done ready) :
    let out := (schedule fuel rows ready).1
    out.Nodup ∧ (∀ x ∈ out, x ∉ done ∧ x ∈ rows.map Prod.fst) ∧
      ∀ before x after, out = before ++ x :: after →
        ∀ rest, (x, rest) ∈ rows → ∀ d ∈ rest, d ∈ before := by
  induction fuel generalizing rows done ready with
  | zero => simp [schedule]
  | succ fuel ih =>
    cases ready with
    | nil => simp [schedule]
    | cons x ready =>
      obtain ⟨hnodup, hout, hbefore⟩ := ih h.step
      simp only [schedule]
      refine ⟨List.nodup_cons.2 ⟨fun hx => (hout x hx).1 List.mem_cons_self, hnodup⟩, ?_, ?_⟩
      · intro y hy
        rcases List.mem_cons.1 hy with rfl | hy
        · exact ⟨h.disjoint y List.mem_cons_self, h.mem y List.mem_cons_self⟩
        · refine ⟨fun hd => (hout y hy).1 (List.mem_cons_of_mem _ hd), ?_⟩
          exact keys_release x rows ▸ (hout y hy).2
      · intro before y after he rest hrest d hd
        cases before with
        | nil =>
          obtain rfl : x = y := (List.cons.inj he).1
          rw [h.free x (.inr List.mem_cons_self) rest hrest] at hd
          exact absurd hd List.not_mem_nil
        | cons z before =>
          obtain ⟨rfl, htail⟩ := List.cons.inj he
          by_cases hdx : d = x
          · exact hdx ▸ List.mem_cons_self
          · have hd' : d ∈ rest.filter (· ≠ x) := List.mem_filter.2 ⟨hd, by simpa using hdx⟩
            exact List.mem_cons_of_mem _
              (hbefore before y after htail _ (mem_release_of_mem hrest) d hd')

omit [DecidableEq κ] in
theorem queued_initial (h : (rows.map Prod.fst).Nodup) : Queued rows [] (initial rows) where
  keys := h
  nodup := List.Nodup.sublist ((List.filter_sublist).map _) h
  disjoint _ _ := List.not_mem_nil
  mem x hx := by
    obtain ⟨r, hr, rfl⟩ := List.mem_map.1 hx
    exact List.mem_map_of_mem (List.mem_filter.1 hr).1
  free x hx rest hrest := by
    obtain ⟨⟨y, free⟩, hr, rfl⟩ := List.mem_map.1 (hx.resolve_left List.not_mem_nil)
    obtain ⟨hmem, hempty⟩ := List.mem_filter.1 hr
    obtain rfl : free = rest := congrArg Prod.snd (List.inj_on_of_nodup_map h hmem hrest rfl)
    exact of_decide_eq_true hempty

/-- When every node was taken, some node of every non-empty set waits for none of the set. -/
theorem exists_source (h : (rows.map Prod.fst).Nodup) (hall : (order rows).1.length = rows.length)
    {P : κ → Prop} (hP : ∃ x ∈ rows.map Prod.fst, P x) :
    ∃ x ∈ rows.map Prod.fst, P x ∧ ∀ rest, (x, rest) ∈ rows → ∀ d ∈ rest, ¬ P d := by
  classical
  obtain ⟨hnodup, hout, hbefore⟩ := schedule_spec rows.length (queued_initial h)
  obtain ⟨x, hx, hPx⟩ := hP
  have hperm : (order rows).1.Perm (rows.map Prod.fst) :=
    (hnodup.subperm fun y hy => (hout y hy).2).perm_of_length_le
      (by rw [List.length_map]; exact Nat.le_of_eq hall.symm)
  -- the first node taken that is in the set
  obtain ⟨y, hy⟩ : ∃ y, (order rows).1.find? (fun y => decide (P y)) = some y := by
    rw [← Option.isSome_iff_exists, List.find?_isSome]
    exact ⟨x, hperm.mem_iff.2 hx, by simpa using hPx⟩
  obtain ⟨hPy, before, after, he, hnot⟩ := List.find?_eq_some_iff_append.1 hy
  refine ⟨y, hperm.mem_iff.1 (he ▸ by simp), of_decide_eq_true hPy, fun rest hrest d hd hPd => ?_⟩
  have := hnot d (hbefore before y after he rest hrest d hd)
  simp [hPd] at this

/-! ## When every node is taken -/

/-- Every non-empty set of nodes has one that waits for none of the set. -/
def Sourced (rows : List (κ × List κ)) : Prop :=
  ∀ P : κ → Prop, (∃ x ∈ rows.map Prod.fst, P x) →
    ∃ x ∈ rows.map Prod.fst, P x ∧ ∀ rest, (x, rest) ∈ rows → ∀ d ∈ rest, ¬ P d

/-- What waits for nothing was taken or is in the queue, and what a node waits for is there and was
not taken. -/
structure Complete (rows : List (κ × List κ)) (done ready : List κ) : Prop where
  doneNodup : done.Nodup
  doneMem : ∀ x ∈ done, x ∈ rows.map Prod.fst
  listed : ∀ x, (x, []) ∈ rows → x ∈ done ∨ x ∈ ready
  pending : ∀ x rest, (x, rest) ∈ rows → ∀ d ∈ rest, d ∉ done ∧ d ∈ rows.map Prod.fst
  sourced : Sourced rows

theorem Complete.step (h : Complete rows done (x :: ready)) (hq : Queued rows done (x :: ready)) :
    Complete (release x rows) (x :: done) (ready ++ released x rows) where
  doneNodup := List.nodup_cons.2 ⟨hq.disjoint x List.mem_cons_self, h.doneNodup⟩
  doneMem y hy := by
    rw [keys_release]
    rcases List.mem_cons.1 hy with rfl | hy
    · exact hq.mem y List.mem_cons_self
    · exact h.doneMem y hy
  listed y hy := by
    obtain ⟨before, hbefore, hempty⟩ := mem_release.1 hy
    by_cases hx : x ∈ before
    · exact .inr (List.mem_append_right _ (mem_released.2 ⟨before, hbefore, hx, hempty⟩))
    · have hnil : before = [] := by
        rw [List.filter_eq_self.2 fun d hd => by
          apply decide_eq_true
          rintro rfl
          exact hx hd] at hempty
        exact hempty
      subst hnil
      rcases h.listed y hbefore with hd | hr
      · exact .inl (List.mem_cons_of_mem _ hd)
      · rcases List.mem_cons.1 hr with rfl | hr
        · exact .inl List.mem_cons_self
        · exact .inr (List.mem_append_left _ hr)
  pending y rest hy d hd := by
    obtain ⟨before, hbefore, rfl⟩ := mem_release.1 hy
    obtain ⟨hd, hne⟩ := List.mem_filter.1 hd
    obtain ⟨hnot, hin⟩ := h.pending y before hbefore d hd
    rw [keys_release]
    refine ⟨fun hmem => ?_, hin⟩
    rcases List.mem_cons.1 hmem with rfl | hmem
    · simp at hne
    · exact hnot hmem
  sourced P hP := by
    rw [keys_release] at hP ⊢
    obtain ⟨y, hy, hPy, hfree⟩ := h.sourced P hP
    refine ⟨y, hy, hPy, fun rest hrest d hd => ?_⟩
    obtain ⟨before, hbefore, rfl⟩ := mem_release.1 hrest
    exact hfree before hbefore d (List.mem_filter.1 hd).1

/-- An empty queue says that every node was taken. -/
theorem Complete.all_done (h : Complete rows done []) : ∀ x ∈ rows.map Prod.fst, x ∈ done := by
  by_contra hno
  simp only [not_forall] at hno
  obtain ⟨x, hx, hnot⟩ := hno
  obtain ⟨y, hy, hPy, hfree⟩ := h.sourced (fun y => y ∉ done) ⟨x, hx, hnot⟩
  obtain ⟨⟨y, rest⟩, hrow, rfl⟩ := List.mem_map.1 hy
  have hnil : rest = [] := by
    rw [List.eq_nil_iff_forall_not_mem]
    intro d hd
    exact hfree rest hrow d hd (h.pending y rest hrow d hd).1
  subst hnil
  rcases h.listed y hrow with hd | hr
  · exact hPy hd
  · exact absurd hr List.not_mem_nil

theorem schedule_length (fuel : Nat) (hq : Queued rows done ready) (h : Complete rows done ready)
    (hfuel : rows.length ≤ fuel + done.length) :
    (schedule fuel rows ready).1.length + done.length = rows.length := by
  have hdone : done.length ≤ rows.length := by
    have := (h.doneNodup.subperm h.doneMem).length_le
    rwa [List.length_map] at this
  induction fuel generalizing rows done ready with
  | zero =>
    simp only [schedule, List.length_nil]
    omega
  | succ fuel ih =>
    cases ready with
    | nil =>
      have hall := (hq.keys.subperm h.all_done).length_le
      rw [List.length_map] at hall
      simp only [schedule, List.length_nil]
      omega
    | cons x ready =>
      have hlen : (release x rows).length = rows.length := by simp [release]
      have hs := h.step hq
      have hle : (x :: done).length ≤ (release x rows).length := by
        have := (hs.doneNodup.subperm hs.doneMem).length_le
        rwa [List.length_map] at this
      have := ih hq.step hs (by simp only [hlen, List.length_cons]; omega) hle
      simp only [schedule, List.length_cons] at this ⊢
      omega

/-- A graph without cycles is taken whole. -/
theorem order_length (h : (rows.map Prod.fst).Nodup)
    (hclosed : ∀ x rest, (x, rest) ∈ rows → ∀ d ∈ rest, d ∈ rows.map Prod.fst)
    (hsourced : Sourced rows) : (order rows).1.length = rows.length := by
  refine schedule_length rows.length (queued_initial h) ?_ (Nat.le_add_right _ _)
  refine ⟨List.nodup_nil, fun _ hx => absurd hx List.not_mem_nil, fun x hx => .inr ?_,
    fun x rest hx d hd => ⟨List.not_mem_nil, hclosed x rest hx d hd⟩, hsourced⟩
  exact List.mem_map_of_mem (f := Prod.fst) (List.mem_filter.2 ⟨hx, by simp⟩)

/-! ## Acyclic graphs -/

theorem schedule_succ (fuel : Nat) (rows : List (κ × List κ)) (ready : List κ)
    (h : (schedule (fuel + 1) rows ready).1.length ≤ fuel) :
    schedule (fuel + 1) rows ready = schedule fuel rows ready := by
  induction fuel generalizing rows ready with
  | zero =>
    cases ready with
    | nil => rfl
    | cons x ready => exact absurd h (by simp [schedule])
  | succ fuel ih =>
    cases ready with
    | nil => rfl
    | cons x ready =>
      have hnext := ih (release x rows) (ready ++ released x rows)
        (by rw [schedule, List.length_cons] at h; omega)
      rw [schedule, hnext]
      rfl

/-- The queue is empty in the end: however much longer it is worked on, no more nodes are taken. -/
theorem schedule_eq_order (h : (rows.map Prod.fst).Nodup) {fuel : Nat} (hfuel : rows.length ≤ fuel) :
    schedule fuel rows (initial rows) = order rows := by
  induction fuel, hfuel using Nat.le_induction with
  | base => rfl
  | succ fuel hle ih =>
    obtain ⟨hnodup, hout, -⟩ := schedule_spec (fuel + 1) (queued_initial h)
    have hlength := (hnodup.subperm fun x hx => (hout x hx).2).length_le
    rw [List.length_map] at hlength
    rw [schedule_succ fuel rows (initial rows) (by omega), ih]

/-- When every node was taken, every node is accessible. -/
theorem acc_of_order_length (h : (rows.map Prod.fst).Nodup)
    (hall : (order rows).1.length = rows.length) {deps : κ → List κ}
    (hdeps : ∀ x rest, (x, rest) ∈ rows → rest = deps x)
    (hclosed : ∀ x ∈ rows.map Prod.fst, ∀ d ∈ deps x, d ∈ rows.map Prod.fst) :
    ∀ x ∈ rows.map Prod.fst, Acc (fun d x => d ∈ deps x) x := by
  by_contra hno
  simp only [not_forall] at hno
  obtain ⟨x, hx, hnot⟩ := hno
  obtain ⟨y, hy, hPy, hfree⟩ := exists_source h hall
    (P := fun y => y ∈ rows.map Prod.fst ∧ ¬ Acc (fun d x => d ∈ deps x) y) ⟨x, hx, hx, hnot⟩
  obtain ⟨⟨y, rest⟩, hrow, rfl⟩ := List.mem_map.1 hy
  refine hPy.2 ⟨y, fun d hd => ?_⟩
  by_contra hacc
  refine hfree rest hrow d ?_ ⟨hclosed y hy d hd, hacc⟩
  rwa [hdeps y rest hrow]

end Kahn
