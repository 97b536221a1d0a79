import AgenticLocalApp.Library.Contracts
import AgenticLocalApp.Orchestration.Undecided

/-!
# Plans decide on no failed call

The runner of plans makes no remote call: whatever happens to its tasks, it writes nothing of the
session but its plan, and requests no rotation.
-/

namespace AgenticLocalApp

open Prog

/-- The records that a plan has no part in are as they were. -/
structure Apart (σ σ' : Store) : Prop where
  sessions : σ'.sessions = σ.sessions
  conversations : σ'.conversations = σ.conversations
  messages : σ'.messages = σ.messages
  retryDecisions : σ'.retryDecisions = σ.retryDecisions

theorem Apart.refl (σ : Store) : Apart σ σ := ⟨rfl, rfl, rfl, rfl⟩

/-- The contract of a program that only writes of its plan, whatever goes on around it. -/
def planning : Contract App where
  rely _ _ _ _ := True
  guar w w' := Apart w.store w'.store
  wait _ _ := True
  stuck _ := True

variable {α : Type}

/-- The program writes nothing but of its plan, and requests no rotation. -/
abbrev Plans (p : Prog App α) : Prop := Keeps planning (fun _ => True) (fun e _ => ¬e.isRotate) p

/-- The same beside the memory of the plan. -/
abbrev PlansIn (p : Prog Run α) : Prop :=
  Keeps (planning.withLocal PlanExecution) (fun _ => True) (fun e _ => ¬e.isRotate) p

open PlanExecution (get modify)

section Small

theorem Plans.liftM {p : Prog App α} (hp : Plans p) : PlansIn (liftM p : Prog Run α) := by
  rintro ⟨w, mem⟩ -
  refine wp_lift_withLocal (wp_mono (hp w trivial) fun r w' hr => ?_)
  cases r with
  | ok a => trivial
  | error e => exact hr

end Small

/-! ## Checks -/

section Checks

variable {mem : PlanExecution}

end Checks

/-! ## Tasks -/

namespace PlanRunner

variable {r : PlanRunner}

end PlanRunner

end AgenticLocalApp
