import AgenticLocalApp.Library.Invariant
import AgenticLocalApp.Orchestration.ProtocolLoop
import AgenticLocalApp.Orchestration.RecoveryPasses
import AgenticLocalApp.Protocol.AdapterErrors

/-!
# What decides on no failed call

Only the wrapper of the remote calls asks the failure policy.  Everything else leaves the decisions
that are stored alone and raises no request to rotate: the records, the plans and the rotation.
-/

namespace AgenticLocalApp

open Prog

/-- The exception that carries a decision to rotate. -/
def Exc.isRotate : Exc → Prop
  | .loopRotate _ => True
  | _ => False

/-- A new identifier was not in use when the run began. -/
def Op.Unused (before : Store) : (op : Op) → op.Ans → Prop
  | .newId kind, id => id ∉ before.ids kind
  | _, _ => True

/-- The decisions on the calls of a session. -/
def Store.decisionsOf (σ : Store) (sid : String) : List RetryDecisionRecord :=
  σ.retryDecisions.rows.filter fun d => d.sessionId = sid

/-- A run of the session `own` that began at `before`.  Whatever else goes on while it waits, nobody
else decides on its calls. -/
def running (before : Store) (own : String) : Contract App where
  rely op w a w' := op.Answers w.store a ∧ op.Unused before a ∧
    w'.store.decisionsOf own = w.store.decisionsOf own
  guar _ _ := True
  wait _ _ := True
  stuck _ := True

variable {α : Type} {before : Store} {own : String} {K : List RetryDecisionRecord → Prop}

/-- The program keeps what `K` says of the decisions, and requests no rotation. -/
def Undecided (before : Store) (own : String) (K : List RetryDecisionRecord → Prop)
    (p : Prog App α) : Prop :=
  Keeps (running before own) (fun w => K (w.store.decisionsOf own))
    (fun e w => ¬e.isRotate ∧ K (w.store.decisionsOf own)) p

/-- The same with local variables, of which `N` stays true. -/
def UndecidedIn {T : Type} (before : Store) (own : String) (K : List RetryDecisionRecord → Prop)
    (N : T → Prop) (p : Prog (App.withLocal T) α) : Prop :=
  Keeps ((running before own).withLocal T) (fun s => N s.2 ∧ K (s.1.store.decisionsOf own))
    (fun e s => N s.2 ∧ ¬e.isRotate ∧ K (s.1.store.decisionsOf own)) p

/-! ## Results computed apart -/

section Results

variable {β : Type}

end Results

/-! ## Small programs -/

section App

theorem undecided_pure (a : α) : Undecided before own K (pure a) := keeps_pure a

theorem undecided_query (op : Op) : Undecided before own K (.query (L := App) op) := by
  refine keeps_query (fun _ _ => trivial) ?_
  rintro w a w' hK ⟨-, -, hsame⟩
  rwa [hsame]

theorem undecided_monotonicMs : Undecided before own K monotonicMs := undecided_query _

theorem undecided_breakerAllows {fm : FailureManager} : Undecided before own K fm.breakerAllows := by
  unfold FailureManager.breakerAllows
  refine .bind undecided_monotonicMs fun nowMs => ?_
  refine .bind (p := Prog.read) (fun _ hK => hK) fun w => ?_
  exact .bind (p := Prog.update _) (fun _ hK => ⟨trivial, hK⟩) fun _ => undecided_pure _

end App

/-! ## Local variables -/

section Local

variable {T : Type} {N : T → Prop}

theorem Undecided.liftM {p : Prog App α} (hp : Undecided before own K p) :
    UndecidedIn before own K N (liftM p : Prog (App.withLocal T) α) := Keeps.lift hp

theorem UndecidedIn.attempt {p : Prog (App.withLocal T) α} (hp : UndecidedIn before own K N p) :
    UndecidedIn before own K N p.attempt := by
  intro s hs
  rw [wp_attempt]
  refine wp_mono (hp s hs) fun r s' hr => ?_
  cases r with
  | ok a => exact hr
  | error e => exact ⟨hr.1, hr.2.2⟩

end Local

/-! ## Rotations -/

namespace RotationCoordinator

variable {rc : RotationCoordinator} {session : SessionRecord} {source child : ConversationRecord}
  {pending : RotationRequest}

end RotationCoordinator

end AgenticLocalApp
