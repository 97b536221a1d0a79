import AgenticLocalApp.Orchestration.UndecidedPlans

/-!
# What becomes of a decision to rotate

The failure policy answers a context window that is exceeded with a rotation, whatever the operation.
The loop rotates when it reads; on a first call and on a post the decision leaves it as an exception.
-/

namespace AgenticLocalApp

open Prog

namespace SessionRun

variable {α : Type} {before : Store} {sid : String} {K : List RetryDecisionRecord → Prop}
  {o : ProtocolOrchestrator}

/-- The policy decides to rotate exactly when the context window was exceeded. -/
theorem wp_decide {fm : FailureManager} {error : NormalizedError} {attempt : Nat} {w : World}
    (hK : K (w.store.decisionsOf sid)) :
    wp (running before sid) (fm.decide error attempt)
      (after (fun d w' => (d.kind = .rotate ↔ error.errorType = .modelContextWindowError) ∧
          K (w'.store.decisionsOf sid))
        fun e w' => ¬e.isRotate ∧ K (w'.store.decisionsOf sid)) w := by
  unfold FailureManager.decide
  rw [wp_ite]
  refine ⟨fun hwindow => ⟨iff_of_true rfl hwindow, hK⟩, fun hother => ?_⟩
  have hpure {d : Decision} (hkind : d.kind ≠ .rotate) (w' : World)
      (h' : K (w'.store.decisionsOf sid)) :
      (d.kind = .rotate ↔ error.errorType = .modelContextWindowError) ∧
        K (w'.store.decisionsOf sid) := ⟨iff_of_false hkind hother, h'⟩
  rw [wp_ite]
  refine ⟨fun _ => hpure (by decide) w hK, fun _ => ?_⟩
  rw [wp_ite]
  refine ⟨fun _ => ?_, fun _ => ?_⟩
  · rw [wp_ite]
    refine ⟨fun _ => hpure (by decide) w hK, fun _ => ?_⟩
    refine undecided_breakerAllows.wp_bind hK (fun e s' he => he) fun allowed w' h' => ?_
    rw [wp_ite]
    exact ⟨fun _ => hpure (by simp) w' h', fun _ => hpure (by simp) w' h'⟩
  · rw [wp_ite]
    exact ⟨fun _ => hpure (by simp) w hK, fun _ => hpure (by simp) w hK⟩

end SessionRun

end AgenticLocalApp
