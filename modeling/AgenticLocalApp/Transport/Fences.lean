import AgenticLocalApp.Transport.JsonTextCodec

/-!
# The fences of a text

Three ticks are looked for from the left, the tag of a fence being skipped, so that where two texts
meet without ticks on both sides the fences of the whole are those of the parts.
-/

namespace AgenticLocalApp

namespace JsonTextCodec

def hasFence (cs : List Char) : Bool := (splitFence cs).isSome

/-- There is a fence, and another one after it. -/
def hasFencePair (cs : List Char) : Bool := (splitFence cs).any fun p => hasFence p.2

theorem splitFence_cons (c : Char) (cs : List Char) :
    splitFence (c :: cs) = if [tick, tick, tick].isPrefixOf (c :: cs) then some ([], cs.drop 2)
      else (splitFence cs).map fun p => (c :: p.1, p.2) := rfl

theorem splitFence_spec {cs before rest : List Char} (h : splitFence cs = some (before, rest)) :
    cs = before ++ [tick, tick, tick] ++ rest := by
  induction cs generalizing before with
  | nil => cases h
  | cons c cs ih =>
    unfold splitFence at h
    split at h
    · rename_i hstart
      obtain ⟨rfl, rfl⟩ := Prod.mk.inj (Option.some.inj h)
      obtain ⟨tail, htail⟩ := List.isPrefixOf_iff_prefix.1 hstart
      obtain ⟨rfl, rfl⟩ := List.cons.inj htail
      rfl
    · obtain ⟨⟨b, r⟩, hb, heq⟩ := Option.map_eq_some_iff.1 h
      obtain ⟨rfl, rfl⟩ := Prod.mk.inj heq
      rw [ih hb]
      rfl

theorem splitFence_of_no_tick {cs : List Char} (h : tick ∉ cs) : splitFence cs = none := by
  cases hs : splitFence cs with
  | none => rfl
  | some p =>
    refine absurd ?_ h
    rw [splitFence_spec hs]
    simp

/-- Three ticks begin a text or do not, whatever follows it, unless the text ends in ticks that go
on. -/
theorem isPrefixOf_ticks_append {c : Char} {cs y : List Char}
    (h : (c :: cs).getLast? ≠ some tick ∨ y.head? ≠ some tick) :
    [tick, tick, tick].isPrefixOf (c :: cs ++ y) = [tick, tick, tick].isPrefixOf (c :: cs) := by
  match cs with
  | a :: b :: cs => simp [List.isPrefixOf]
  | [a] =>
    cases y with
    | nil => simp
    | cons d y =>
      simp only [List.getLast?_cons_cons, List.getLast?_singleton, List.head?_cons, ne_eq,
        Option.some.injEq] at h
      simp only [List.cons_append, List.nil_append, List.isPrefixOf]
      rcases h with h | h
      · simp [Ne.symm h]
      · simp [Ne.symm h]
  | [] =>
    cases y with
    | nil => simp
    | cons d y =>
      simp only [List.getLast?_singleton, List.head?_cons, ne_eq, Option.some.injEq] at h
      cases y with
      | nil => simp [List.isPrefixOf]
      | cons e y =>
        simp only [List.cons_append, List.nil_append, List.isPrefixOf]
        rcases h with h | h
        · simp [Ne.symm h]
        · simp [Ne.symm h]

/-- The first fence of a text that no fence straddles. -/
theorem splitFence_append {x y : List Char}
    (h : x.getLast? ≠ some tick ∨ y.head? ≠ some tick) :
    splitFence (x ++ y) = match splitFence x with
      | some (before, rest) => some (before, rest ++ y)
      | none => (splitFence y).map fun p => (x ++ p.1, p.2) := by
  induction x with
  | nil =>
    cases hy : splitFence y <;> simp [splitFence, hy]
  | cons c x ih =>
    have hnext : x.getLast? ≠ some tick ∨ y.head? ≠ some tick := by
      cases x with
      | nil => exact .inl (by simp)
      | cons d x =>
        rw [List.getLast?_cons_cons] at h
        exact h
    have hstart := isPrefixOf_ticks_append h
    rw [List.cons_append] at hstart ⊢
    rw [splitFence_cons, splitFence_cons, hstart]
    split
    · rename_i hp
      obtain ⟨tail, htail⟩ := List.isPrefixOf_iff_prefix.1 hp
      obtain ⟨rfl, rfl⟩ := List.cons.inj htail
      rfl
    · rw [ih hnext]
      cases hx : splitFence x with
      | none => cases hy : splitFence y <;> simp
      | some p => simp

/-- What a fence may have for a tag, and the characters of the end of its line. -/
def isTagLine (c : Char) : Bool := isTagBlank c || isTagChar c || c = '\r' || c = '\n'

theorem dropWhile_append_cons {p : Char → Bool} {c : Char} (hc : p c = false) (r y : List Char) :
    (r ++ c :: y).dropWhile p = r.dropWhile p ++ c :: y := by
  induction r with
  | nil => simp [hc]
  | cons d r ih =>
    rw [List.cons_append, List.dropWhile_cons, List.dropWhile_cons]
    split
    · exact ih
    · rfl

theorem dropChar_append_cons {c d : Char} (hc : c ≠ d) (r y : List Char) :
    dropChar d (r ++ c :: y) = dropChar d r ++ c :: y := by
  cases r with
  | nil => simp [dropChar, hc]
  | cons e r =>
    rw [List.cons_append, dropChar, dropChar]
    split <;> rfl

/-- Where a character stands that is not of the first line of a fence, the body has begun. -/
theorem fenceBody_append {c : Char} (hc : isTagLine c = false) (r y : List Char) :
    fenceBody (r ++ c :: y) = fenceBody r ++ c :: y := by
  unfold isTagLine at hc
  simp only [Bool.or_eq_false_iff, decide_eq_false_iff_not] at hc
  unfold fenceBody
  rw [dropWhile_append_cons hc.1.1.1, dropWhile_append_cons hc.1.1.2, dropWhile_append_cons hc.1.1.1,
    dropChar_append_cons hc.1.2, dropChar_append_cons hc.2]

theorem dropWhile_split (p : Char → Bool) (hp : p tick = false) (cs : List Char) :
    ∃ d, cs = d ++ cs.dropWhile p ∧ tick ∉ d := by
  refine ⟨cs.takeWhile p, (List.takeWhile_append_dropWhile).symm, fun hmem => ?_⟩
  rw [List.all_eq_true.1 List.all_takeWhile tick hmem] at hp
  cases hp

theorem dropChar_split (c : Char) (hc : c ≠ tick) (cs : List Char) :
    ∃ d, cs = d ++ dropChar c cs ∧ tick ∉ d := by
  cases cs with
  | nil => exact ⟨[], rfl, by simp⟩
  | cons e cs =>
    by_cases he : e = c
    · refine ⟨[e], ?_, ?_⟩
      · simp [dropChar, he]
      · simp [he, Ne.symm hc]
    · exact ⟨[], by simp [dropChar, he], by simp⟩

/-- The first line of a fence has no ticks. -/
theorem fenceBody_split (cs : List Char) : ∃ d, cs = d ++ fenceBody cs ∧ tick ∉ d := by
  have happend : ∀ {a b c : List Char}, (∃ d, a = d ++ b ∧ tick ∉ d) →
      (∃ d, b = d ++ c ∧ tick ∉ d) → ∃ d, a = d ++ c ∧ tick ∉ d := by
    rintro a b c ⟨d, rfl, hd⟩ ⟨d', rfl, hd'⟩
    exact ⟨d ++ d', (List.append_assoc _ _ _).symm, by simp [hd, hd']⟩
  unfold fenceBody
  exact happend (happend (happend (happend (dropWhile_split isTagBlank (by decide) cs)
    (dropWhile_split isTagChar (by decide) _)) (dropWhile_split isTagBlank (by decide) _))
    (dropChar_split '\r' (by decide) _)) (dropChar_split '\n' (by decide) _)

theorem hasFence_fenceBody (cs : List Char) : hasFence (fenceBody cs) = hasFence cs := by
  obtain ⟨d, hd, htick⟩ := fenceBody_split cs
  have hsplit : splitFence cs = splitFence (d ++ fenceBody cs) := congrArg splitFence hd
  have hlast : d.getLast? ≠ some tick := fun h => htick (List.mem_of_getLast? h)
  rw [splitFence_append (.inl hlast), splitFence_of_no_tick htick] at hsplit
  unfold hasFence
  rw [hsplit]
  simp

theorem stripCodeFence_of_no_pair {text : List Char} (h : hasFencePair text = false) :
    stripCodeFence text = text := by
  unfold hasFencePair at h
  unfold stripCodeFence
  cases hs : splitFence text with
  | none => rfl
  | some p =>
    rw [hs, Option.any_some, ← hasFence_fenceBody] at h
    have hnone : splitFence (fenceBody p.2) = none := by simpa [hasFence] using h
    simp [hnone]

theorem stripCodeFence_of_pair {text before rest body after : List Char}
    (h : splitFence text = some (before, rest)) (hb : splitFence (fenceBody rest) = some (body, after)) :
    stripCodeFence text = body := by
  unfold stripCodeFence
  rw [h]
  dsimp only
  rw [hb]

end JsonTextCodec

end AgenticLocalApp
