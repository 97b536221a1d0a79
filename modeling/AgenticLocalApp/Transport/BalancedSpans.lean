import AgenticLocalApp.Transport.JsonSpans

/-!
# The spans are balanced

Whatever the text, the spans lie in it one behind the other.  Each opens with a bracket and closes
with the one that belongs to it, and the brackets between the two, but for those inside strings,
belong together in pairs.
-/

namespace AgenticLocalApp

namespace JsonTextCodec

/-! ## What is outside of strings -/

/-- Inside a string, and behind a backslash in it. -/
def quoteStep (q : Bool × Bool) (c : Char) : Bool × Bool :=
  if q.1 then
    if q.2 then (true, false)
    else if c = '\\' then (true, true)
    else (c ≠ '"', false)
  else (c = '"', false)

/-- The characters of a text that are not in a JSON string, the quotes of which go with it. -/
def outsideStrings : (q : Bool × Bool) → List Char → List Char
  | _, [] => []
  | q, c :: cs =>
    if q.1 ∨ c = '"' then outsideStrings (quoteStep q c) cs
    else c :: outsideStrings (quoteStep q c) cs

/-- The brackets of the text belong together in pairs. -/
inductive Balanced : List Char → Prop
  | nil : Balanced []
  | plain {c : Char} {cs : List Char} (hc : c ∉ ['{', '}', '[', ']']) :
    Balanced cs → Balanced (c :: cs)
  | nested {opener closer : Char} {a b : List Char} (h : closerOf opener = some closer) :
    Balanced a → Balanced b → Balanced (opener :: a ++ closer :: b)

/-- A span: an opening bracket, the bracket that closes it, and balanced text between the two. -/
def Spanned (t : List Char) : Prop :=
  ∃ opener inner closer, t = opener :: inner ++ [closer] ∧ closerOf opener = some closer ∧
    outsideStrings (false, false) t = opener :: outsideStrings (false, false) inner ++ [closer] ∧
    Balanced (outsideStrings (false, false) inner)

theorem outsideStrings_append (q : Bool × Bool) (a b : List Char) :
    outsideStrings q (a ++ b) =
      outsideStrings q a ++ outsideStrings (a.foldl quoteStep q) b := by
  induction a generalizing q with
  | nil => rfl
  | cons c a ih =>
    rw [List.cons_append, outsideStrings, outsideStrings, List.foldl_cons]
    split
    · exact ih _
    · rw [ih, List.cons_append]

theorem outsideStrings_concat (q : Bool × Bool) (a : List Char) (c : Char) :
    outsideStrings q (a ++ [c]) = outsideStrings q a ++
      if (a.foldl quoteStep q).1 = true ∨ c = '"' then [] else [c] := by
  rw [outsideStrings_append]
  rfl

theorem Balanced.append {a b : List Char} (ha : Balanced a) (hb : Balanced b) :
    Balanced (a ++ b) := by
  induction ha with
  | nil => exact hb
  | plain hc _ ih => exact .plain hc ih
  | nested h hinner _ _ ih =>
    rw [List.append_assoc, List.cons_append]
    exact .nested h hinner ih

/-! ## Open brackets -/

/-- A text with open brackets: what closes them, the last one first. -/
inductive Opened : List Char → List Char → Prop
  | first {opener closer : Char} {b : List Char} (h : closerOf opener = some closer) :
    Balanced b → Opened [closer] (opener :: b)
  | next {closers w : List Char} {opener closer : Char} {b : List Char}
    (h : closerOf opener = some closer) :
    Opened closers w → Balanced b → Opened (closer :: closers) (w ++ opener :: b)

variable {closers w b : List Char} {opener closer c : Char}

theorem Opened.ne_nil (h : Opened closers w) : closers ≠ [] := by
  cases h <;> exact List.cons_ne_nil _ _

theorem Opened.append (h : Opened closers w) (hb : Balanced b) : Opened closers (w ++ b) := by
  cases h with
  | first ho ha => exact .first ho (ha.append hb)
  | next ho hw ha =>
    rw [List.append_assoc, List.cons_append]
    exact .next ho hw (ha.append hb)

theorem Opened.close (h : Opened (closer :: closers) w) (hne : closers ≠ []) :
    Opened closers (w ++ [closer]) := by
  cases h with
  | first ho ha => exact absurd rfl hne
  | next ho hw ha =>
    rw [List.append_assoc]
    exact hw.append (.nested ho ha .nil)

theorem Opened.closed (h : Opened [closer] w) :
    ∃ opener b, w = opener :: b ∧ closerOf opener = some closer ∧ Balanced b := by
  cases h with
  | first ho ha => exact ⟨_, _, rfl, ho, ha⟩
  | next ho hw ha => exact absurd rfl hw.ne_nil

theorem closerOf_mem (h : closerOf c = some closer) : c ≠ '"' ∧ (closer = '}' ∨ closer = ']') := by
  unfold closerOf at h
  split at h
  · rename_i hc
    cases h
    exact ⟨by rw [hc]; decide, .inl rfl⟩
  · split at h
    · rename_i hc
      cases h
      exact ⟨by rw [hc]; decide, .inr rfl⟩
    · cases h

theorem not_bracket (h : closerOf c = none) (hc : ¬(c = '}' ∨ c = ']')) :
    c ∉ ['{', '}', '[', ']'] := by
  unfold closerOf at h
  rw [not_or] at hc
  split at h
  · cases h
  · rename_i h1
    split at h
    · cases h
    · rename_i h2
      simp [h1, h2, hc.1, hc.2]

/-! ## The scan -/

/-- What has been scanned since the first of the open brackets. -/
structure Since (s : Scan) (d : List Char) : Prop where
  head : ∃ c inner, d = c :: inner ∧ c ≠ '"'
  opened : Opened (s.stack.map Prod.fst) (outsideStrings (false, false) d)
  quotes : d.foldl quoteStep (false, false) = (s.inString, s.escaped)

/-- Where the text ends that the spans noted so far may take up. -/
def Scan.bound (s : Scan) : Nat := (s.stack.getLast?.map Prod.snd).getD s.position

/-- What the scan knows of the text that it has gone over. -/
structure Held (done : List Char) (s : Scan) : Prop where
  position : s.position = done.length
  idle : s.stack = [] → s.inString = false ∧ s.escaped = false
  since : ∀ e ∈ s.stack.getLast?, ∃ pre d, done = pre ++ d ∧ pre.length = e.2 ∧ Since s d
  within : ∀ span ∈ s.spans, span.1 < span.2 ∧ span.2 ≤ s.bound
  spanned : ∀ span ∈ s.spans, Spanned (slice done span)
  ordered : s.spans.Pairwise fun a b => a.2 ≤ b.1

theorem Held.bound_le {done : List Char} {s : Scan} (h : Held done s) : s.bound ≤ done.length := by
  unfold Scan.bound
  cases hlast : s.stack.getLast? with
  | none => exact h.position.le
  | some e =>
    obtain ⟨pre, d, rfl, hpre, -⟩ := h.since e hlast
    rw [Option.map_some, Option.getD_some, ← hpre, List.length_append]
    exact Nat.le_add_right _ _

theorem slice_append {done : List Char} {span : Nat × Nat} (h : span.2 ≤ done.length)
    (rest : List Char) : slice (done ++ rest) span = slice done span := by
  unfold slice
  by_cases hstart : span.1 ≤ done.length
  · rw [List.drop_append_of_le_length hstart, List.take_append_of_le_length]
    rw [List.length_drop]
    omega
  · rw [show span.2 - span.1 = 0 by omega, List.take_zero, List.take_zero]

theorem Held.spanned_append {done : List Char} {s : Scan} (h : Held done s) (rest : List Char) :
    ∀ span ∈ s.spans, Spanned (slice (done ++ rest) span) := by
  intro span hspan
  rw [slice_append ((h.within span hspan).2.trans h.bound_le)]
  exact h.spanned span hspan

theorem Held.init : Held [] {} where
  position := rfl
  idle _ := ⟨rfl, rfl⟩
  since _ h := by cases h
  within _ h := by cases h
  spanned _ h := by cases h
  ordered := .nil

/-- Outside of a string nothing is escaped. -/
theorem escaped_of_quotes {d : List Char} {q q' : Bool × Bool} (hq : q.1 = false → q.2 = false)
    (h : d.foldl quoteStep q = q') (hstring : q'.1 = false) : q'.2 = false := by
  induction d generalizing q with
  | nil =>
    rw [List.foldl_nil] at h
    subst h
    exact hq hstring
  | cons c d ih =>
    refine ih (fun hstep => ?_) h
    unfold quoteStep at hstep ⊢
    split
    · split
      · rfl
      · split
        · simp_all
        · rfl
    · rfl

theorem outsideStrings_cons {inner : List Char} (hc : c ≠ '"') :
    outsideStrings (false, false) (c :: inner) = c :: outsideStrings (false, false) inner := by
  rw [outsideStrings, if_neg (by simpa using hc)]
  simp [quoteStep, hc]

section Step

variable {done : List Char} {s s' : Scan}

/-- A character that no span ends with: the open brackets stay, or none are left. -/
theorem Held.keep (h : Held done s) (hposition : s'.position = s.position + 1)
    (hspans : s'.spans = s.spans) (hidle : s'.stack = [] → s'.inString = false ∧ s'.escaped = false)
    (hlast : ∀ e ∈ s'.stack.getLast?,
      ∃ pre d, done ++ [c] = pre ++ d ∧ pre.length = e.2 ∧ Since s' d)
    (hbound : s.bound ≤ s'.bound) : Held (done ++ [c]) s' where
  position := by rw [hposition, h.position, List.length_append, List.length_singleton]
  idle := hidle
  since := hlast
  within span hspan := by
    rw [hspans] at hspan
    obtain ⟨hlt, hle⟩ := h.within span hspan
    exact ⟨hlt, hle.trans hbound⟩
  spanned := by
    rw [hspans]
    exact h.spanned_append [c]
  ordered := hspans ▸ h.ordered

/-- A character among open brackets, none of which it closes for good. -/
theorem Held.grow (h : Held done s) (hposition : s'.position = s.position + 1)
    (hspans : s'.spans = s.spans) (hne : s'.stack ≠ [])
    (hlast : s'.stack.getLast?.map Prod.snd = s.stack.getLast?.map Prod.snd)
    (hquotes : (s'.inString, s'.escaped) = quoteStep (s.inString, s.escaped) c)
    (hopened : ∀ d, Since s d → Opened (s'.stack.map Prod.fst)
      (outsideStrings (false, false) d ++ if s.inString = true ∨ c = '"' then [] else [c])) :
    Held (done ++ [c]) s' := by
  refine h.keep hposition hspans (fun hnil => absurd hnil hne) (fun e he => ?_) ?_
  · rw [Option.mem_def.1 he, Option.map_some, eq_comm, Option.map_eq_some_iff] at hlast
    obtain ⟨e', he', hpos⟩ := hlast
    obtain ⟨pre, d, rfl, hpre, hsince⟩ := h.since e' he'
    refine ⟨pre, d ++ [c], by rw [List.append_assoc], hpre.trans hpos, ?_, ?_, ?_⟩
    · obtain ⟨opener, inner, rfl, hopener⟩ := hsince.head
      exact ⟨opener, inner ++ [c], rfl, hopener⟩
    · rw [outsideStrings_concat, hsince.quotes]
      exact hopened d hsince
    · rw [List.foldl_append, hsince.quotes, hquotes]
      rfl
  · unfold Scan.bound
    rw [hlast]
    cases hs : s.stack.getLast? with
    | none =>
      rw [hs, Option.map_none, Option.map_eq_none_iff, List.getLast?_eq_none_iff] at hlast
      exact absurd hlast hne
    | some e => rfl

theorem Held.of_stack_nil (h : Held done s) (hstack : s'.stack = [])
    (hposition : s'.position = s.position + 1) (hspans : s'.spans = s.spans)
    (hquotes : s'.inString = false ∧ s'.escaped = false) : Held (done ++ [c]) s' := by
  refine h.keep hposition hspans (fun _ => hquotes) (fun e he => ?_) ?_
  · rw [hstack] at he
    cases he
  · have hle := h.bound_le
    rw [← h.position] at hle
    unfold Scan.bound at hle ⊢
    rw [hstack, List.getLast?_nil, Option.map_none, Option.getD_none, hposition]
    exact hle.trans (Nat.le_succ _)

/-- The last open bracket is closed: what lies between it and its bracket is balanced. -/
theorem Held.close {start : Nat} {rest : List (Char × Nat)} (h : Held done s)
    (hstack : s.stack = (c, start) :: rest) (hc : c ≠ '"') (hrest : rest = [])
    (hstring : s.inString = false)
    (hs' : s' = { s with
      position := s.position + 1
      stack := []
      spans := s.spans ++ [(start, s.position + 1)] }) : Held (done ++ [c]) s' := by
  subst hrest hs'
  have hescaped : s.escaped = false := by
    obtain ⟨pre, d, -, -, hsince⟩ := h.since (c, start) (by rw [hstack]; rfl)
    exact escaped_of_quotes (fun _ => rfl) hsince.quotes hstring
  obtain ⟨pre, d, rfl, hpre, hsince⟩ := h.since (c, start) (by rw [hstack]; rfl)
  replace hpre : pre.length = start := hpre
  have hbound : s.bound = start := by
    unfold Scan.bound
    rw [hstack]
    rfl
  have hopened := hsince.opened
  rw [hstack] at hopened
  obtain ⟨opener, b, houtside, hopener, hb⟩ := hopened.closed
  have hlength : s.position + 1 = pre.length + (d ++ [c]).length := by
    rw [h.position, List.length_append, List.length_append, List.length_singleton, Nat.add_assoc]
  have hslice : slice (pre ++ d ++ [c]) (start, s.position + 1) = d ++ [c] := by
    unfold slice
    dsimp only
    rw [List.append_assoc, ← hpre, List.drop_left, hlength, Nat.add_sub_cancel_left,
      List.take_of_length_le le_rfl]
  have hspanned : Spanned (d ++ [c]) := by
    obtain ⟨opener', inner, rfl, hquote⟩ := hsince.head
    rw [outsideStrings_cons hquote] at houtside
    obtain ⟨rfl, rfl⟩ := List.cons.inj houtside
    refine ⟨opener', inner, c, rfl, hopener, ?_, hb⟩
    rw [outsideStrings_concat, hsince.quotes, hstring, if_neg (by simpa using hc),
      outsideStrings_cons hquote]
  refine ⟨?_, fun _ => ⟨hstring, hescaped⟩, fun e he => (by cases he), ?_, ?_, ?_⟩
  · dsimp only
    rw [hlength, List.append_assoc, ← List.length_append]
  · intro span hspan
    rcases List.mem_append.1 hspan with hspan | hspan
    · obtain ⟨hlt, hle⟩ := h.within span hspan
      refine ⟨hlt, hle.trans (h.bound_le.trans ?_)⟩
      rw [← h.position]
      exact Nat.le_succ _
    · obtain rfl := List.mem_singleton.1 hspan
      refine ⟨?_, le_rfl⟩
      dsimp only
      rw [hlength, hpre, List.length_append, List.length_singleton]
      omega
  · intro span hspan
    rcases List.mem_append.1 hspan with hspan | hspan
    · exact h.spanned_append [c] span hspan
    · obtain rfl := List.mem_singleton.1 hspan
      rw [hslice]
      exact hspanned
  · refine List.pairwise_append.2 ⟨h.ordered, List.pairwise_singleton _ _, fun a ha b hb => ?_⟩
    obtain rfl := List.mem_singleton.1 hb
    rw [← hbound]
    exact (h.within a ha).2

theorem Held.step (h : Held done s) (c : Char) : Held (done ++ [c]) (s.step c) := by
  have hidle : s.inString = true → s.stack ≠ [] := by
    intro hstring hnil
    rw [(h.idle hnil).1] at hstring
    cases hstring
  have hescaped : s.inString = false → s.escaped = false := by
    intro hstring
    cases hlast : s.stack.getLast? with
    | none => exact (h.idle (List.getLast?_eq_none_iff.1 hlast)).2
    | some e =>
      obtain ⟨pre, d, -, -, hsince⟩ := h.since e hlast
      exact escaped_of_quotes (fun _ => rfl) hsince.quotes hstring
  have hinert : ∀ d, Since s d → s.inString = true ∨ c = '"' → Opened (s.stack.map Prod.fst)
      (outsideStrings (false, false) d ++ if s.inString = true ∨ c = '"' then [] else [c]) := by
    intro d hsince hquoted
    rw [if_pos hquoted, List.append_nil]
    exact hsince.opened
  unfold Scan.step
  by_cases hstring : s.inString = true
  · -- inside a string, which only a quote ends that is not escaped
    rw [if_pos hstring]
    split
    · rename_i hback
      refine h.grow rfl rfl (hidle hstring) rfl ?_ fun d hd => hinert d hd (.inl hstring)
      simp [quoteStep, hstring, hback]
    · rename_i hback
      split
      · rename_i hc
        refine h.grow rfl rfl (hidle hstring) rfl ?_ fun d hd => hinert d hd (.inl hstring)
        simp [quoteStep, hstring, hback, hc]
      · rename_i hslash
        split
        · rename_i hc
          refine h.grow rfl rfl (hidle hstring) rfl ?_ fun d hd => hinert d hd (.inl hstring)
          simp [quoteStep, hstring, hback, hc]
        · rename_i hc
          refine h.grow rfl rfl (hidle hstring) rfl ?_ fun d hd => hinert d hd (.inl hstring)
          simp [quoteStep, hstring, hback, hc, hslash]
  · rw [if_neg hstring]
    have hstring' : s.inString = false := Bool.not_eq_true _ ▸ hstring
    have hplain : c ≠ '"' → (s.inString, s.escaped) = quoteStep (s.inString, s.escaped) c := by
      intro hc
      simp [quoteStep, hstring', hescaped hstring', hc]
    split
    · rename_i hc
      by_cases hnil : s.stack = []
      · exact h.of_stack_nil hnil rfl rfl ⟨by simp [hnil], hescaped hstring'⟩
      · refine h.grow rfl rfl hnil rfl ?_ fun d hd => hinert d hd (.inr hc)
        simp [quoteStep, hstring', hescaped hstring', hc, hnil]
    rename_i hquote
    split
    · -- an opening bracket
      rename_i closer hcloser
      by_cases hnil : s.stack = []
      · refine h.keep rfl rfl (fun hne => absurd hne (List.cons_ne_nil _ _)) (fun e he => ?_) ?_
        · rw [hnil] at he
          cases he
          refine ⟨done, [c], rfl, h.position.symm, ⟨c, [], rfl, hquote⟩, ?_, ?_⟩
          · simp only [hnil, List.map_cons, List.map_nil, outsideStrings, hquote, if_false,
              Bool.false_eq_true, or_self]
            exact .first hcloser .nil
          · simp [quoteStep, hquote, hstring', hescaped hstring']
        · unfold Scan.bound
          rw [hnil]
          exact le_rfl
      · refine h.grow rfl rfl (List.cons_ne_nil _ _) ?_ (hplain hquote) fun d hd => ?_
        · rw [List.getLast?_cons, List.getLast?_eq_some_getLast hnil]
          rfl
        · rw [if_neg (by simp [hstring', hquote])]
          exact .next hcloser hd.opened .nil
    · rename_i hnone
      split
      · rename_i hclose
        split
        · rename_i hnil
          exact h.of_stack_nil hnil rfl rfl ⟨hstring', hescaped hstring'⟩
        · rename_i closer start rest hstack
          split
          · exact h.of_stack_nil rfl rfl rfl ⟨hstring', hescaped hstring'⟩
          · rename_i hsame
            obtain rfl := not_not.1 hsame
            split
            · rename_i hempty
              exact h.close hstack hquote (List.isEmpty_iff.1 hempty) hstring' rfl
            · rename_i hempty
              have hne : rest ≠ [] := fun hnil => hempty (List.isEmpty_iff.2 hnil)
              refine h.grow rfl rfl hne ?_ (hplain hquote) fun d hd => ?_
              · rw [hstack, List.getLast?_cons, List.getLast?_eq_some_getLast hne]
                rfl
              · rw [if_neg (by simp [hstring', hquote])]
                have hopened := hd.opened
                rw [hstack] at hopened
                exact hopened.close (by simpa using hne)
      · rename_i hclose
        by_cases hnil : s.stack = []
        · exact h.of_stack_nil hnil rfl rfl ⟨hstring', hescaped hstring'⟩
        · refine h.grow rfl rfl hnil rfl (hplain hquote) fun d hd => ?_
          rw [if_neg (by simp [hstring', hquote])]
          exact hd.opened.append (.plain (not_bracket hnone hclose) .nil)

theorem Held.run (h : Held done s) (cs : List Char) :
    Held (done ++ cs) (cs.foldl Scan.step s) := by
  induction cs generalizing done s with
  | nil => rwa [List.append_nil]
  | cons c cs ih =>
    have hnext := ih (h.step c)
    rw [List.append_assoc] at hnext
    exact hnext

end Step

/-- The spans of a text are in it, one behind the other, and each is balanced. -/
theorem findJsonSpans_held (text : List Char) :
    (∀ span ∈ findJsonSpans text, span.1 < span.2 ∧ span.2 ≤ text.length) ∧
      (findJsonSpans text).Pairwise (fun a b => a.2 ≤ b.1) ∧
        ∀ span ∈ findJsonSpans text, Spanned (slice text span) := by
  have h := Held.init.run text
  rw [List.nil_append] at h
  refine ⟨fun span hspan => ?_, h.ordered, h.spanned⟩
  obtain ⟨hlt, hle⟩ := h.within span hspan
  exact ⟨hlt, hle.trans h.bound_le⟩

end JsonTextCodec

end AgenticLocalApp
