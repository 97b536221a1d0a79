import AgenticLocalApp.Orchestration.StandingRuns

/-!
# Rotated or failed

A decision to rotate on a read is followed by a rotation, or by the failure of the session; nothing
else becomes of it.
-/

namespace AgenticLocalApp

open Prog

/-- Nothing is owed. -/
abbrev noOne (_ : String) : Prop := False

namespace SessionRun

variable {α : Type} {before : Store} {sid cid : String} {ready full : Prop}
  {o : ProtocolOrchestrator} {s : World × SessionRun}

/-! ## Remote calls -/

/-- What a remote call that raised leaves: a decision to rotate may be owed for its conversation. -/
def Owes (before : Store) (sid cid : String) (ready full : Prop) (e : Exc)
    (s : World × SessionRun) : Prop :=
  Ordered before sid cid ready full noOne s ∨
    e.isRotate ∧ Ordered before sid cid ready full (fun x => x = cid) s

/-- The exception ends the session as failed: `run` takes its own error for the failure, or one that
was recorded. -/
def FailsRun (sid : String) (σ : Store) : Exc → Prop
  | .loopFailed failure => failure.recorded → σ.listFailures sid ≠ []
  | .transport _ | .protocol _ | .rotationFailed _ | .budgetExceeded _ | .app _
  | .invalidTransition _ _ _ => True
  | _ => False

/-- What `run` finds when it is going to fail the session. -/
structure Failing (before : Store) (sid : String) (e : Exc) (s : World × SessionRun) : Prop where
  own : s.2.sid = sid
  fails : FailsRun sid s.1.store e
  session : ∃ session, s.1.store.getSession sid = some session ∧ session.status = .running
  parents : ∀ c, s.1.store.getConversation c.conversationId = some c →
    c.parentConversationId ≠ some c.conversationId

/-- How the body of a run may end with an exception: nothing is owed, or the session is going to
fail, or a first call or a post has asked for a rotation. -/
inductive Ends (before : Store) (sid : String) (e : Exc) (s : World × SessionRun) : Prop
  | answered (own : s.2.sid = sid) (h : TurnedAll before sid s.1.store)
  | failing (h : Failing before sid e s)
  | asked {but : String → Prop} (own : s.2.sid = sid) (turned : Turned before sid but s.1.store)
    (h : e.isRotate)

/-- The run is in some conversation, in order, and has sent what it may have to send again. -/
def Underway (before : Store) (sid : String) (s : World × SessionRun) : Prop :=
  ∃ cid, Ordered before sid cid True True noOne s

theorem Together.ends {e : Exc} (h : Ordered before sid cid ready full noOne s) :
    Ends before sid e s := .answered h.memory.sid h.records.turned

/-- From a run in order the program goes on in one, maybe in another conversation. -/
def GoesOn (before : Store) (sid cid : String) (ready full : Prop) (p : Prog Loop α) : Prop :=
  ∀ s, Ordered before sid cid ready full noOne s →
    wp (heedingLoop before sid) p (after (fun _ => Underway before sid) (Ends before sid)) s

theorem GoesOn.ite {c : Prop} [Decidable c] {p q : Prog Loop α}
    (hp : c → GoesOn before sid cid ready full p) (hq : ¬c → GoesOn before sid cid ready full q) :
    GoesOn before sid cid ready full (if c then p else q) := by
  split
  · exact hp ‹_›
  · exact hq ‹_›

theorem Together.owing (h : Ordered before sid cid ready full noOne s) :
    Ordered before sid cid ready full (fun x => x = cid) s := ⟨h.memory, h.records.owing⟩

theorem Owes.owing {e : Exc} (h : Owes before sid cid ready full e s) :
    Ordered before sid cid ready full (fun x => x = cid) s := h.elim (·.owing) (·.2)

end SessionRun

end AgenticLocalApp
