import AgenticLocalApp.Orchestration.HeedingRuns

/-!
# What becomes of a decision to rotate

However a run ends, every read that was answered with a decision to rotate has been followed by a
rotation, or the session has failed, and has kept its failure; unless a first call or a post was
answered with such a decision.
-/

namespace AgenticLocalApp

open Prog

namespace SessionRun

variable {α : Type} {before : Store} {sid cid : String} {but : String → Prop}
  {o : ProtocolOrchestrator} {s : World × SessionRun}

/-! ## Ends that owe nothing -/

/-- What is left of the records once the failure is known. -/
structure Falling (sid : String) (f : FailureRecord) (s : World × SessionRun) : Prop where
  own : s.2.sid = sid
  kept : f ∈ s.1.store.listFailures sid
  session : ∃ session, s.1.store.getSession sid = some session ∧ session.status = .running

/-- A write of a conversation or a cycle. -/
theorem Falling.congr {f : FailureRecord} {s' : World × SessionRun} (h : Falling sid f s)
    (hrun : s'.2.sid = s.2.sid) (hfailures : s'.1.store.failures = s.1.store.failures)
    (hsessions : s'.1.store.sessions = s.1.store.sessions) : Falling sid f s' where
  own := hrun.trans h.own
  kept := by
    have hkept := h.kept
    rwa [Store.listFailures, ← hfailures] at hkept
  session := by
    obtain ⟨session, hs, hrunning⟩ := h.session
    exact ⟨session, (congrArg (fun t => Table.find t sid) hsessions).trans hs, hrunning⟩

end SessionRun

end AgenticLocalApp
