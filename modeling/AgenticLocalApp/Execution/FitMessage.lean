import AgenticLocalApp.Domain.JsonSize
import AgenticLocalApp.Execution.TextHalving

/-!
# Fitting a message

The loop of `fit_message` halves one text a round, until the message is within the limit or has no
text left.  It ends for every limit when every text vanishes under halving, as one does that is cut
between its characters only or that ends in ASCII; a text that ends in a character of more bytes
does not vanish, and leaves the loop no end but a message that fits on the way.
-/

namespace AgenticLocalApp

/-! ## Emptied texts -/

def TaskResult.emptied (r : TaskResult) : TaskResult := { r with stdout := "", stderr := "" }

/-- The content with every text emptied. -/
def ExecutionResultContent.emptied (c : ExecutionResultContent) : ExecutionResultContent :=
  { c with results := c.results.map TaskResult.emptied }

theorem encodeText_eq_nil {s : String} (h : (encodeText s).length = 0) : s = "" := by
  have hchars : s.toList = [] := by
    cases hs : s.toList with
    | nil => rfl
    | cons c cs =>
      unfold encodeText at h
      rw [hs, List.flatMap_cons, List.length_append, String.length_utf8EncodeChar] at h
      have := c.utf8Size_pos
      omega
  rw [← String.toList_inj, hchars]
  rfl

namespace PayloadGuard

theorem longestFrom_eq_none {stream : OutputStream} {index bestSize : Nat} {best : Option Nat}
    {results : List TaskResult} (h : longestFrom stream index best bestSize results = none) :
    best = none ∧ ∀ r ∈ results, streamSize stream r ≤ bestSize := by
  induction results generalizing index best bestSize with
  | nil => exact ⟨h, fun _ hr => (List.not_mem_nil hr).elim⟩
  | cons r rest ih =>
    unfold longestFrom at h
    split at h
    · cases (ih h).1
    · obtain ⟨hbest, hrest⟩ := ih h
      exact ⟨hbest, List.forall_mem_cons.2 ⟨by omega, hrest⟩⟩

theorem eq_emptied_of_shrink {results : List TaskResult} (h : shrink results = none) :
    results.map TaskResult.emptied = results := by
  have hempty : ∀ stream, longest results stream = none → ∀ r ∈ results,
      streamText stream r = "" := fun stream hlongest r hr =>
    encodeText_eq_nil (Nat.le_zero.1 ((longestFrom_eq_none hlongest).2 r hr))
  unfold shrink at h
  split at h
  · cases h
  · rename_i hstdout
    split at h
    · cases h
    · rename_i hstderr
      have hid : ∀ r ∈ results, r.emptied = r := by
        intro r hr
        have hout : r.stdout = "" := hempty .stdout hstdout r hr
        have herr : r.stderr = "" := hempty .stderr hstderr r hr
        cases r
        subst hout herr
        rfl
      rw [List.map_congr_left hid, List.map_id']

/-- What is fitted is below the limit, or has nothing left to cut. -/
theorem fitMessage_spec {limit rounds : Nat} {content fitted : ExecutionResultContent}
    (h : fitMessage limit rounds content = some fitted) :
    messageSize fitted ≤ limit ∨ fitted.emptied = fitted := by
  induction rounds generalizing content with
  | zero => cases h
  | succ rounds ih =>
    unfold fitMessage at h
    split at h
    · rename_i hsize
      cases h
      exact .inl hsize
    · split at h
      · rename_i hshrink
        cases h
        refine .inr ?_
        unfold ExecutionResultContent.emptied
        rw [eq_emptied_of_shrink hshrink]
      · exact ih h

theorem fitMessage_of_le {limit rounds : Nat} {content : ExecutionResultContent}
    (h : messageSize content ≤ limit) : fitMessage limit (rounds + 1) content = some content := by
  unfold fitMessage
  rw [if_pos h]

/-! ## One round -/

/-- The text that a round halves: its stream, and the place of its result. -/
def nextHalved (results : List TaskResult) : Option (OutputStream × Nat) :=
  match longest results .stdout with
  | some i => some (.stdout, i)
  | none => (longest results .stderr).map fun i => (.stderr, i)

theorem shrink_eq (results : List TaskResult) :
    shrink results =
      (nextHalved results).map fun p => results.modify p.2 fun r => halve r p.1 := by
  unfold shrink nextHalved
  cases longest results .stdout with
  | some i => rfl
  | none => cases longest results .stderr <;> rfl

theorem longestFrom_eq_some {stream : OutputStream} {index bestSize i : Nat} {best : Option Nat}
    {results : List TaskResult} (h : longestFrom stream index best bestSize results = some i) :
    best = some i ∨ ∃ j r, i = index + j ∧ results[j]? = some r ∧ 0 < streamSize stream r := by
  induction results generalizing index best bestSize with
  | nil => exact .inl h
  | cons r rest ih =>
    unfold longestFrom at h
    split at h
    · rename_i hsize
      obtain hbest | ⟨j, r', rfl, hr', hpos⟩ := ih h
      · cases hbest
        exact .inr ⟨0, r, rfl, rfl, by omega⟩
      · exact .inr ⟨j + 1, r', by omega, hr', hpos⟩
    · obtain hbest | ⟨j, r', rfl, hr', hpos⟩ := ih h
      · exact .inl hbest
      · exact .inr ⟨j + 1, r', by omega, hr', hpos⟩

/-- A round halves a text that is not empty. -/
theorem nextHalved_spec {results : List TaskResult} {stream : OutputStream} {i : Nat}
    (h : nextHalved results = some (stream, i)) :
    ∃ r, results[i]? = some r ∧ streamText stream r ≠ "" := by
  have hspec : longest results stream = some i := by
    unfold nextHalved at h
    split at h
    · rename_i j hj
      cases h
      exact hj
    · rw [Option.map_eq_some_iff] at h
      obtain ⟨j, hj, hpair⟩ := h
      cases hpair
      exact hj
  obtain hbest | ⟨j, r, rfl, hr, hpos⟩ := longestFrom_eq_some hspec
  · cases hbest
  · refine ⟨r, by rwa [Nat.zero_add], fun hempty => ?_⟩
    unfold streamSize at hpos
    rw [hempty] at hpos
    exact absurd hpos (Nat.lt_irrefl 0)

/-! ## Rounds -/

/-- Every text of the results is halved to nothing. -/
def AllVanish (results : List TaskResult) : Prop :=
  ∀ r ∈ results, Vanishes r.stdout ∧ Vanishes r.stderr

/-- No result has a text. -/
def AllEmpty (results : List TaskResult) : Prop :=
  ∀ r ∈ results, r.stdout = "" ∧ r.stderr = ""

theorem vanish_halve_iff (stream : OutputStream) (r : TaskResult) :
    Vanishes (halve r stream).stdout ∧ Vanishes (halve r stream).stderr ↔
      Vanishes r.stdout ∧ Vanishes r.stderr := by
  cases stream with
  | stdout => exact and_congr_left' vanishes_halveText
  | stderr => exact and_congr_right' vanishes_halveText

theorem allVanish_modify (results : List TaskResult) (stream : OutputStream) (i : Nat) :
    AllVanish (results.modify i fun r => halve r stream) ↔ AllVanish results := by
  unfold AllVanish
  induction results generalizing i with
  | nil => rw [List.modify_nil]
  | cons r rest ih =>
    cases i with
    | zero =>
      rw [List.modify_zero_cons, List.forall_mem_cons, List.forall_mem_cons, vanish_halve_iff]
    | succ i =>
      rw [List.modify_succ_cons, List.forall_mem_cons, List.forall_mem_cons, ih]

/-- Halving neither makes a text vanish nor keeps it from it. -/
theorem allVanish_shrink {results results' : List TaskResult} (h : shrink results = some results') :
    AllVanish results' ↔ AllVanish results := by
  rw [shrink_eq, Option.map_eq_some_iff] at h
  obtain ⟨p, -, rfl⟩ := h
  exact allVanish_modify results p.1 p.2

theorem AllEmpty.allVanish {results : List TaskResult} (h : AllEmpty results) :
    AllVanish results := by
  intro r hr
  obtain ⟨hout, herr⟩ := h r hr
  rw [hout, herr]
  exact ⟨vanishes_empty, vanishes_empty⟩

theorem sum_modify_lt {results : List TaskResult} {i : Nat} {r : TaskResult}
    {change : TaskResult → TaskResult} {weight : TaskResult → Nat} (hr : results[i]? = some r)
    (h : weight (change r) < weight r) :
    ((results.modify i change).map weight).sum < (results.map weight).sum := by
  induction results generalizing i with
  | nil => cases hr
  | cons d rest ih =>
    cases i with
    | zero =>
      cases hr
      rw [List.modify_zero_cons, List.map_cons, List.map_cons, List.sum_cons, List.sum_cons]
      omega
    | succ i =>
      have hrest := ih hr
      rw [List.modify_succ_cons, List.map_cons, List.map_cons, List.sum_cons, List.sum_cons]
      omega

/-! ## The end of the loop -/

/-- When every text vanishes, the halvings left before all are empty go down with each round. -/
theorem fitMessage_of_allVanish (limit : Nat) {content : ExecutionResultContent}
    (h : AllVanish content.results) :
    ∃ rounds fitted, fitMessage limit rounds content = some fitted := by
  obtain ⟨left, hleft⟩ := exists_halvings_left
  induction hn : (content.results.map fun r => left r.stdout + left r.stderr).sum using
    Nat.strong_induction_on generalizing content with
  | _ n ih =>
    by_cases hsize : messageSize content ≤ limit
    · exact ⟨1, content, fitMessage_of_le hsize⟩
    · cases hshrink : shrink content.results with
      | none =>
        refine ⟨1, content, ?_⟩
        unfold fitMessage
        rw [if_neg hsize, hshrink]
      | some results =>
        have hless : (results.map fun r => left r.stdout + left r.stderr).sum < n := by
          have hnext := hshrink
          rw [shrink_eq, Option.map_eq_some_iff] at hnext
          obtain ⟨⟨stream, i⟩, hp, rfl⟩ := hnext
          obtain ⟨r, hr, hne⟩ := nextHalved_spec hp
          rw [← hn]
          refine sum_modify_lt hr ?_
          obtain ⟨hout, herr⟩ := h r (List.mem_of_getElem? hr)
          cases stream with
          | stdout => exact Nat.add_lt_add_right (hleft _ hout hne) _
          | stderr => exact Nat.add_lt_add_left (hleft _ herr hne) _
        let next := { content with results := results }
        have hvanish : AllVanish next.results := (allVanish_shrink hshrink).2 h
        obtain ⟨rounds, fitted, hfit⟩ := ih _ hless hvanish rfl
        refine ⟨rounds + 1, fitted, ?_⟩
        unfold fitMessage
        rw [if_neg hsize, hshrink]
        exact hfit

theorem allVanish_of_fitMessage {limit rounds : Nat} {content fitted : ExecutionResultContent}
    (h : fitMessage limit rounds content = some fitted) :
    AllVanish fitted.results ↔ AllVanish content.results := by
  induction rounds generalizing content with
  | zero => cases h
  | succ rounds ih =>
    unfold fitMessage at h
    split at h
    · cases h
      rfl
    · split at h
      · cases h
        rfl
      · rename_i results hshrink
        exact (ih h).trans (allVanish_shrink hshrink)

theorem allEmpty_of_emptied {content : ExecutionResultContent} (h : content.emptied = content) :
    AllEmpty content.results := by
  intro r hr
  have hresults : content.results.map TaskResult.emptied = content.results :=
    congrArg ExecutionResultContent.results h
  rw [← hresults] at hr
  obtain ⟨r', -, rfl⟩ := List.mem_map.1 hr
  exact ⟨rfl, rfl⟩

/-- The loop ends, and with a message that fits or has no text left. -/
def Settles (limit : Nat) (content : ExecutionResultContent) : Prop :=
  ∃ rounds fitted, fitMessage limit rounds content = some fitted ∧
    (messageSize fitted ≤ limit ∨ AllEmpty fitted.results)

theorem settles_of_fitMessage {limit : Nat} {content : ExecutionResultContent}
    (h : ∃ rounds fitted, fitMessage limit rounds content = some fitted) :
    Settles limit content := by
  obtain ⟨rounds, fitted, hfit⟩ := h
  exact ⟨rounds, fitted, hfit, (fitMessage_spec hfit).imp_right allEmpty_of_emptied⟩

/-! ### A text that does not vanish -/

theorem one_lt_messageSize (content : ExecutionResultContent) : 1 < messageSize content := by
  unfold messageSize ExecutionResultContent.toJson
  rw [Json.sizeBytes_record_cons]
  have hfield : 0 < Json.fieldSize "plan_id" (.str content.planId) := by
    unfold Json.fieldSize
    omega
  omega

/-- A limit that no message is within leaves the loop no end but the empty texts. -/
theorem Settles.allVanish {content : ExecutionResultContent} (h : Settles 1 content) :
    AllVanish content.results := by
  obtain ⟨rounds, fitted, hfit, hsize | hempty⟩ := h
  · exact absurd hsize (Nat.not_le_of_gt (one_lt_messageSize fitted))
  · exact (allVanish_of_fitMessage hfit).1 hempty.allVanish

/-- The loop comes to its end on a content that fits, and for every limit when each text ends in
three ASCII characters or is cut between its characters only.  On a text that ends in a character of
more than one byte there is a limit for which it does not. -/
theorem fit_message_settles (content : ExecutionResultContent) :
    (∀ limit, messageSize content ≤ limit ∨
        (∀ r ∈ content.results, ∀ stream,
          CutsBetween (streamText stream r) ∨ NarrowEnd (streamText stream r)) →
      Settles limit content) ∧
    ((∃ r ∈ content.results, ∃ stream c,
        (streamText stream r).toList.getLast? = some c ∧ Wide c) →
      ∃ limit, ¬ Settles limit content) := by
  refine ⟨fun limit h => settles_of_fitMessage ?_, ?_⟩
  · obtain hsize | htexts := h
    · exact ⟨1, content, fitMessage_of_le hsize⟩
    · have hvanishes : ∀ r ∈ content.results, ∀ stream, Vanishes (streamText stream r) :=
        fun r hr stream => (htexts r hr stream).elim vanishes_of_cutsBetween vanishes_of_narrowEnd
      exact fitMessage_of_allVanish limit fun r hr =>
        ⟨hvanishes r hr .stdout, hvanishes r hr .stderr⟩
  · rintro ⟨r, hr, stream, c, hlast, hwide⟩
    refine ⟨1, fun hsettles => not_vanishes_of_wide hlast hwide ?_⟩
    obtain ⟨hout, herr⟩ := hsettles.allVanish r hr
    cases stream with
    | stdout => exact hout
    | stderr => exact herr

/-- One result, whose standard output ends in ASCII and whose standard error is halved between its
letters. -/
def summary : ExecutionResultContent where
  planId := "p"
  status := "completed"
  results := [{ taskId := "t", status := "completed", stdout := "résumé: ok", stderr := "déjà!!" }]

theorem fit_message_settles_summary : Settles 1 summary := by
  have hout : NarrowEnd "résumé: ok" := ⟨"résumé:".toList, [' ', 'o', 'k'],
    by decide +kernel, by decide, by simp [Wide]⟩
  have herr : CutsBetween "déjà!!" := fun
    | 0 => ⟨[], "déjà!!".toList, by decide +kernel⟩
    | 1 => ⟨"déj".toList, "à!!".toList, by decide +kernel⟩
    | 2 => ⟨"déjà".toList, "!!".toList, by decide +kernel⟩
    | 3 => ⟨"déjà!".toList, "!".toList, by decide +kernel⟩
    | k + 4 => ⟨"déjà!!".toList, [], rfl, (Nat.div_eq_of_lt (by
        have hpow := Nat.pow_le_pow_right (by decide : 0 < 2) (Nat.le_add_left 4 k)
        have hsize : (encodeText "déjà!!").length = 8 := by decide +kernel
        omega)).symm⟩
  refine (fit_message_settles summary).1 1 (.inr fun r hr stream => ?_)
  rw [List.mem_singleton.1 hr]
  cases stream with
  | stdout => exact .inr hout
  | stderr => exact .inl herr

/-- One result, whose standard output ends in a letter with an accent. -/
def accented : ExecutionResultContent where
  planId := "p"
  status := "completed"
  results := [{ taskId := "t", status := "completed", stdout := "é" }]

/-- Half of the two bytes of the letter is one continuation byte, which is read as a replacement
character of three bytes, and half of these is one continuation byte again. -/
theorem accented_never_settles : ¬ Settles 1 accented := by
  intro h
  have haccent : ("é".toList).getLast? = some 'é' := rfl
  exact not_vanishes_of_wide haccent (by decide) (h.allVanish _ List.mem_cons_self).1

end PayloadGuard

end AgenticLocalApp
