import AgenticLocalApp.Execution.PlanAdmission

/-!
# Cycles of dependencies

The adapter searches the dependencies of a plan depth first, the runner takes the tasks from a
queue.  Both answer the same question: the search finds no cycle where there is none, and there the
queue takes every task; where there is one, the search returns it.
-/

namespace AgenticLocalApp

open CycleSearch (Acyclic Closed)

/-- `_find_cycle`: the first cycle that the search meets, as a closed path. -/
def findCycle (order : List String) (deps : String → List String) :
    Except Exc (Option (List String)) :=
  match CycleSearch.search order deps with
  | .ok _ => .ok none
  | .error (.cycle path) => .ok (some path)
  | .error (.missing x) => .error (.keyError x)

/-- The tasks that the runner takes from its queue in no more than `fuel` rounds. -/
def scheduled (fuel : Nat) (order : List String) (deps : String → List String) : List String :=
  let remaining := order.map fun taskId => (taskId, deps taskId)
  (Kahn.schedule fuel remaining (Kahn.initial remaining)).1

theorem PlanContent.checkCycles_eq (plan : PlanContent) : plan.checkCycles =
    findCycle plan.order plan.deps >>= fun found => match found with
      | none => .ok ()
      | some path => .error (protocolError "DEPENDENCY_CYCLE" [("cycle", .arr (path.map Json.str)),
          ("plan_id", .str plan.planId)]) := by
  unfold PlanContent.checkCycles findCycle
  cases CycleSearch.search plan.order plan.deps with
  | ok color => rfl
  | error stop => cases stop <;> rfl

section Agreement

variable {order : List String} {deps : String → List String}

theorem keys_remaining : (order.map fun taskId => (taskId, deps taskId)).map Prod.fst = order := by
  rw [List.map_map]
  exact List.map_id order

theorem mem_remaining {x : String} {rest : List String}
    (h : (x, rest) ∈ order.map fun taskId => (taskId, deps taskId)) :
    x ∈ order ∧ rest = deps x := by
  obtain ⟨y, hy, he⟩ := List.mem_map.1 h
  obtain ⟨rfl, rfl⟩ := Prod.mk.inj he
  exact ⟨hy, rfl⟩

theorem scheduled_eq (hnodup : order.Nodup) {fuel : Nat} (hfuel : order.length ≤ fuel) :
    scheduled fuel order deps = (Kahn.order (order.map fun taskId => (taskId, deps taskId))).1 := by
  unfold scheduled
  dsimp only
  rw [Kahn.schedule_eq_order]
  · rwa [keys_remaining]
  · rwa [List.length_map]

variable (hnodup : order.Nodup) (hclosed : ∀ x ∈ order, ∀ d ∈ deps x, d ∈ order)
include hnodup hclosed

/-- The queue takes every task if and only if no task waits for itself. -/
theorem scheduled_iff {fuel : Nat} (hfuel : order.length ≤ fuel) :
    (scheduled fuel order deps).length = order.length ↔ Acyclic order deps := by
  have hkeys := @keys_remaining order deps
  rw [scheduled_eq hnodup hfuel]
  have hnodup' := hnodup
  rw [← hkeys] at hnodup'
  constructor
  · intro hall x hx
    refine CycleSearch.not_transGen_of_acc ?_
    refine Kahn.acc_of_order_length hnodup' ?_ (fun y rest h => (mem_remaining h).2) ?_ x ?_
    · rw [hall, List.length_map]
    · rwa [hkeys]
    · rwa [hkeys]
  · intro hacyclic
    obtain ⟨color, hs⟩ := (CycleSearch.search_ok_iff hclosed).2 hacyclic
    rw [Kahn.order_length hnodup' ?_ ?_, List.length_map]
    · intro x rest hx d hd
      obtain ⟨hin, rfl⟩ := mem_remaining hx
      rw [hkeys]
      exact hclosed x hin d hd
    · intro P hP
      rw [hkeys] at hP ⊢
      obtain ⟨x, hx, hPx, hfree⟩ :=
        CycleSearch.exists_source (CycleSearch.search_spec hs) hclosed hP
      refine ⟨x, hx, hPx, fun rest hrest d hd => hfree d ?_⟩
      rwa [← (mem_remaining hrest).2]

/-- The search returns nothing if and only if no task depends on itself, the queue takes every task
if and only if that is so, and what the search returns is a cycle of tasks of the plan. -/
theorem findCycle_spec :
    (findCycle order deps = .ok none ↔ Acyclic order deps) ∧
      (∀ fuel, order.length ≤ fuel →
        (Acyclic order deps ↔ (scheduled fuel order deps).length = order.length)) ∧
      (¬ Acyclic order deps → ∃ path, findCycle order deps = .ok (some path) ∧
        Closed deps path ∧ ∀ x ∈ path, x ∈ order) := by
  have hsearch := CycleSearch.search_ok_iff hclosed
  refine ⟨?_, fun fuel hfuel => (scheduled_iff hnodup hclosed hfuel).symm, ?_⟩
  · unfold findCycle
    cases hs : CycleSearch.search order deps with
    | ok color => exact iff_of_true rfl (hsearch.1 ⟨color, hs⟩)
    | error stop =>
      have hcyclic : ¬ Acyclic order deps := fun hacyclic => by
        obtain ⟨color, hcolor⟩ := hsearch.2 hacyclic
        rw [hs] at hcolor
        cases hcolor
      refine iff_of_false (fun h => ?_) hcyclic
      cases stop <;> cases h
  · intro hcyclic
    unfold findCycle
    cases hs : CycleSearch.search order deps with
    | ok color => exact absurd (hsearch.1 ⟨color, hs⟩) hcyclic
    | error stop =>
      cases stop with
      | missing x => exact absurd hs (CycleSearch.search_ne_missing hclosed)
      | cycle path =>
        obtain ⟨hpath, hhead⟩ := CycleSearch.search_cycle hs
        exact ⟨path, rfl, hpath, hpath.mem_of_head hclosed hhead⟩

end Agreement

/-- Two tasks that depend on each other. -/
def eachOther : String → List String := fun taskId => if taskId = "a" then ["b", "b"] else ["a"]

theorem findCycle_eachOther : ∃ path, findCycle ["a", "b"] eachOther = .ok (some path) ∧
    Closed eachOther path ∧ ∀ x ∈ path, x ∈ ["a", "b"] := by
  refine (@findCycle_spec ["a", "b"] eachOther (by decide) (by decide)).2.2 ?_
  intro hacyclic
  refine hacyclic "a" List.mem_cons_self (Relation.TransGen.head (b := "b") ?_ (.single ?_))
  · decide
  · decide

example : findCycle ["a", "b"] (fun taskId => if taskId = "a" then ["b"] else ["a"]) =
    .ok (some ["a", "b", "a"]) := by
  simp [findCycle, CycleSearch.search, CycleSearch.visit, Function.update]
  rfl

end AgenticLocalApp
