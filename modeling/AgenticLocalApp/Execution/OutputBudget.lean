import AgenticLocalApp.Execution.PayloadGuard

/-!
# The output budget

Each stream keeps its end.  A stream is sure of half of the budget, and takes what the other stream
leaves of its own half, the standard error first.
-/

namespace AgenticLocalApp

/-- `kept` is the end of `stream`, and `range` is where it lies in it. -/
structure KeepsEnd (stream kept : List UInt8) (range : Int × Int) : Prop where
  suffix : kept <:+ stream
  start : range.1 = (stream.length : Int) - kept.length
  stop : range.2 = stream.length
  slice : (stream.take range.2.toNat).drop range.1.toNat = kept

namespace PayloadGuard

theorem length_lastBytes {keep : Nat} {bytes : List UInt8} (h : keep ≤ bytes.length) :
    (lastBytes keep bytes).length = keep := by
  unfold lastBytes
  rw [List.length_drop]
  omega

theorem lastBytes_suffix (keep : Nat) (bytes : List UInt8) : lastBytes keep bytes <:+ bytes :=
  List.drop_suffix _ _

theorem keepsEnd_lastBytes {keep : Nat} {bytes : List UInt8} (h : keep ≤ bytes.length) :
    KeepsEnd bytes (lastBytes keep bytes)
      ((bytes.length : Int) - keep, (bytes.length : Int)) where
  suffix := lastBytes_suffix keep bytes
  start := by rw [length_lastBytes h]
  stop := rfl
  slice := by
    have hstart : ((bytes.length : Int) - keep).toNat = bytes.length - keep := by omega
    rw [hstart, Int.toNat_natCast, List.take_length]
    rfl

/-! ## How much of each stream -/

/-- Bytes kept of the standard error, by `apply`. -/
def stderrShare (stdoutTotal stderrTotal budget : Nat) : Nat :=
  let stderrKeep := min stderrTotal (budget / 2)
  let spare := budget - stderrKeep - min stdoutTotal (budget / 2)
  stderrKeep + min spare (stderrTotal - stderrKeep)

/-- Bytes kept of the standard output, by `apply`. -/
def stdoutShare (stdoutTotal stderrTotal budget : Nat) : Nat :=
  let stderrKeep := min stderrTotal (budget / 2)
  let stdoutKeep := min stdoutTotal (budget / 2)
  let spare := budget - stderrKeep - stdoutKeep
  stdoutKeep + min (spare - min spare (stderrTotal - stderrKeep)) (stdoutTotal - stdoutKeep)

variable (stdout stderr : List UInt8) (budget : Nat)

theorem stderrShare_le : stderrShare stdout.length stderr.length budget ≤ stderr.length := by
  unfold stderrShare
  dsimp only
  omega

theorem stdoutShare_le : stdoutShare stdout.length stderr.length budget ≤ stdout.length := by
  unfold stdoutShare
  dsimp only
  omega

theorem half_le_stderrShare :
    min stderr.length (budget / 2) ≤ stderrShare stdout.length stderr.length budget :=
  Nat.le_add_right _ _

theorem half_le_stdoutShare :
    min stdout.length (budget / 2) ≤ stdoutShare stdout.length stderr.length budget :=
  Nat.le_add_right _ _

/-- Nothing of the budget is wasted, and nothing is kept beyond it. -/
theorem shares_add :
    stdoutShare stdout.length stderr.length budget +
      stderrShare stdout.length stderr.length budget =
        min (stdout.length + stderr.length) budget := by
  unfold stdoutShare stderrShare
  dsimp only
  have hhalf : budget / 2 + budget / 2 ≤ budget := by omega
  omega

theorem applyBudget_eq :
    applyBudget stdout stderr budget =
      { stdoutKept := lastBytes (stdoutShare stdout.length stderr.length budget) stdout
        stderrKept := lastBytes (stderrShare stdout.length stderr.length budget) stderr
        truncated := stderrShare stdout.length stderr.length budget < stderr.length ||
          stdoutShare stdout.length stderr.length budget < stdout.length
        originalSizeBytes := stderr.length + stdout.length
        stdoutTotal := stdout.length
        stderrTotal := stderr.length
        stdoutRange := ((stdout.length : Int) - stdoutShare stdout.length stderr.length budget,
          stdout.length)
        stderrRange := ((stderr.length : Int) - stderrShare stdout.length stderr.length budget,
          stderr.length) } := rfl

theorem apply_eq : apply stdout stderr budget = .ok (applyBudget stdout stderr budget) := by
  unfold apply
  rw [if_neg (by omega), Int.toNat_natCast]

/-! ## What is kept -/

/-- What the budget promises of the two streams of a task. -/
structure KeptWithin (stdout stderr : List UInt8) (budget : Nat) (out : TruncatedOutput) : Prop where
  stdoutKept : KeepsEnd stdout out.stdoutKept out.stdoutRange
  stderrKept : KeepsEnd stderr out.stderrKept out.stderrRange
  total : out.stdoutKept.length + out.stderrKept.length =
    min (stdout.length + stderr.length) budget
  stdoutHalf : min stdout.length (budget / 2) ≤ out.stdoutKept.length
  stderrHalf : min stderr.length (budget / 2) ≤ out.stderrKept.length
  truncated : out.truncated = true ↔ out.stdoutKept ≠ stdout ∨ out.stderrKept ≠ stderr

theorem lastBytes_eq_self_iff {keep : Nat} {bytes : List UInt8} (h : keep ≤ bytes.length) :
    lastBytes keep bytes = bytes ↔ keep = bytes.length := by
  refine ⟨fun heq => ?_, fun heq => ?_⟩
  · rw [← length_lastBytes h, heq]
  · unfold lastBytes
    rw [heq, Nat.sub_self, List.drop_zero]

theorem keptWithin_applyBudget :
    KeptWithin stdout stderr budget (applyBudget stdout stderr budget) := by
  have hout := stdoutShare_le stdout stderr budget
  have herr := stderrShare_le stdout stderr budget
  rw [applyBudget_eq]
  refine ⟨keepsEnd_lastBytes hout, keepsEnd_lastBytes herr, ?total, ?stdoutHalf, ?stderrHalf,
    ?truncated⟩
  case total =>
    rw [length_lastBytes hout, length_lastBytes herr]
    exact shares_add stdout stderr budget
  case stdoutHalf =>
    rw [length_lastBytes hout]
    exact half_le_stdoutShare stdout stderr budget
  case stderrHalf =>
    rw [length_lastBytes herr]
    exact half_le_stderrShare stdout stderr budget
  case truncated =>
    rw [Ne, Ne, lastBytes_eq_self_iff hout, lastBytes_eq_self_iff herr, Bool.or_eq_true,
      decide_eq_true_iff, decide_eq_true_iff]
    omega

/-- Whatever a task wrote, the budget is spent on the ends of its two streams, each sure of its
half. -/
theorem apply_keeps_ends :
    ∃ out, apply stdout stderr budget = .ok out ∧ KeptWithin stdout stderr budget out :=
  ⟨_, apply_eq stdout stderr budget, keptWithin_applyBudget stdout stderr budget⟩

/-- An odd budget, and one short stream: the rest of the budget goes to the other. -/
example : (applyBudget [1, 2, 3, 4, 5, 6, 7, 8] [9, 10] 7).stdoutKept = [4, 5, 6, 7, 8] := by decide

end PayloadGuard

end AgenticLocalApp
