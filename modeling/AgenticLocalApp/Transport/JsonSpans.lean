import AgenticLocalApp.Transport.JsonTextCodec

/-!
# The spans of a text

Inside brackets the scan goes over the text of a JSON value as if it were not there, and every span
that it notes opens and closes with a bracket.
-/

namespace AgenticLocalApp

namespace JsonTextCodec

/-! ## Texts of JSON -/

/-- A character of JSON outside of a string that is no bracket. -/
def isPlain (c : Char) : Bool := c ∉ ['"', '\\', '{', '}', '[', ']']

theorem isPlain_iff {c : Char} : isPlain c = true ↔
    c ≠ '"' ∧ c ≠ '\\' ∧ c ≠ '{' ∧ c ≠ '}' ∧ c ≠ '[' ∧ c ≠ ']' := by
  unfold isPlain
  simp only [List.mem_cons, List.not_mem_nil, or_false, not_or, ne_eq, decide_eq_true_eq]

theorem isPlain_of_isNumberChar {c : Char} (h : Json.isNumberChar c = true) : isPlain c = true := by
  refine isPlain_iff.2 ⟨?_, ?_, ?_, ?_, ?_, ?_⟩ <;> rintro rfl <;> revert h <;> decide

/-- A property of the pieces that a JSON text is made of. -/
structure Pieces (M : List Char → Prop) : Prop where
  nil : M []
  append : ∀ a b, M a → M b → M (a ++ b)
  plain : ∀ c, isPlain c = true → M [c]
  string : ∀ s, M (Json.quote s)
  array : ∀ a, M a → M ('[' :: a ++ [']'])
  object : ∀ a, M a → M ('{' :: a ++ ['}'])

namespace Pieces

variable {M : List Char → Prop} (h : Pieces M)

include h

theorem of_plain {cs : List Char} (hcs : ∀ c ∈ cs, isPlain c = true) : M cs := by
  induction cs with
  | nil => exact h.nil
  | cons c cs ih =>
    exact h.append [c] cs (h.plain c (hcs c List.mem_cons_self))
      (ih fun d hd => hcs d (List.mem_cons_of_mem c hd))

theorem of_commas {texts : List (List Char)} (htexts : ∀ t ∈ texts, M t) :
    M (Json.commas texts) := by
  match texts with
  | [] => exact h.nil
  | [x] => exact htexts x List.mem_cons_self
  | x :: y :: rest =>
    refine h.append x (',' :: Json.commas (y :: rest)) (htexts x List.mem_cons_self) ?_
    refine h.append [','] (Json.commas (y :: rest)) (h.plain ',' (by decide)) ?_
    exact of_commas fun t ht => htexts t (List.mem_cons_of_mem x ht)

omit h

mutual

/-- What holds of the pieces of a JSON text holds of the text. -/
theorem of_render (h : Pieces M) : ∀ j : Json, j.Valid → M (Json.render j)
  | .null, _ => h.of_plain (List.all_eq_true.1 (by decide : "null".toList.all isPlain = true))
  | .bool true, _ => h.of_plain (List.all_eq_true.1 (by decide : "true".toList.all isPlain = true))
  | .bool false, _ => h.of_plain (List.all_eq_true.1 (by decide : "false".toList.all isPlain = true))
  | .int n, _ => h.of_plain fun c hc => isPlain_of_isNumberChar (Json.isNumberChar_ofInt n c hc)
  | .float _, hv => h.of_plain fun c hc => isPlain_of_isNumberChar (hv.1 c hc)
  | .str s, _ => h.string s
  | .arr items, hv => h.array _ (h.of_commas (of_renderItems h items hv))
  | .obj fields, hv => h.object _ (h.of_commas (of_renderFields h fields hv))

theorem of_renderItems (h : Pieces M) : ∀ items : List Json, Json.ValidItems items →
    ∀ t ∈ Json.renderItems items, M t
  | [], _ => fun _ ht => (List.not_mem_nil ht).elim
  | x :: xs, hv => fun t ht => by
    rcases List.mem_cons.1 ht with rfl | ht
    · exact of_render h x hv.1
    · exact of_renderItems h xs hv.2 t ht

theorem of_renderFields (h : Pieces M) : ∀ fields : List (String × Json),
    Json.ValidFields fields → ∀ t ∈ Json.renderFields fields, M t
  | [], _ => fun _ ht => (List.not_mem_nil ht).elim
  | (k, v) :: rest, hv => fun t ht => by
    rcases List.mem_cons.1 ht with rfl | ht
    · refine h.append (Json.quote k) (':' :: Json.render v) (h.string k) ?_
      exact h.append [':'] (Json.render v) (h.plain ':' (by decide)) (of_render h v hv.1)
    · exact of_renderFields h rest hv.2 t ht

end

/-- The text of an object is its brackets and what they hold. -/
theorem of_object (h : Pieces M) {fields : List (String × Json)} (hv : Json.ValidFields fields) :
    ∃ inner, (Json.obj fields).canonical = '{' :: inner ++ ['}'] ∧ M inner := by
  refine ⟨Json.commas (Json.renderFields (Json.sortFields (Json.sortedFields fields))), ?_, ?_⟩
  · rw [← Json.render_sorted, Json.sorted, Json.render]
  · have hsorted : Json.ValidFields (Json.sortFields (Json.sortedFields fields)) :=
      Json.Valid.sorted (j := .obj fields) hv
    exact h.of_commas (of_renderFields h _ hsorted)

end Pieces

/-! ## What the scan makes of them -/

/-- Some characters further on. -/
def Scan.skip (s : Scan) (n : Nat) : Scan := { s with position := s.position + n }

theorem Scan.skip_skip (s : Scan) (m n : Nat) : (s.skip m).skip n = s.skip (m + n) := by
  simp [Scan.skip, Nat.add_assoc]

/-- Inside brackets the scan goes over the text as if it were not there. -/
def Passes (cs : List Char) : Prop :=
  ∀ s : Scan, s.stack ≠ [] → s.inString = false → s.escaped = false →
    cs.foldl Scan.step s = s.skip cs.length

theorem Passes.nil : Passes [] := fun _ _ _ _ => rfl

theorem Passes.append (a b : List Char) (ha : Passes a) (hb : Passes b) : Passes (a ++ b) := by
  intro s hstack hstring hescaped
  rw [List.foldl_append, ha s hstack hstring hescaped, hb (s.skip _) hstack hstring hescaped,
    Scan.skip_skip, List.length_append]

theorem Passes.plain (c : Char) (hc : isPlain c = true) : Passes [c] := by
  obtain ⟨h1, -, h3, h4, h5, h6⟩ := isPlain_iff.1 hc
  intro s _ hstring _
  simp [Scan.step, Scan.skip, closerOf, hstring, h1, h3, h4, h5, h6]

theorem hexDigit_plain : ∀ n < 16, Json.hexDigit n ≠ '\\' ∧ Json.hexDigit n ≠ '"' := by decide

theorem step_in_string {s : Scan} {c : Char} (hstring : s.inString = true)
    (hescaped : s.escaped = false) (h1 : c ≠ '\\') (h2 : c ≠ '"') : s.step c = s.skip 1 := by
  simp [Scan.step, Scan.skip, hstring, hescaped, h1, h2]

/-- Inside a string, so does it with an escaped character. -/
theorem step_escapeChar (c : Char) (s : Scan) (hstring : s.inString = true)
    (hescaped : s.escaped = false) :
    (Json.escapeChar c).foldl Scan.step s = s.skip (Json.escapeChar c).length := by
  have hpair : ∀ d : Char, [d].foldl Scan.step (Scan.step s '\\') = s.skip 2 := by
    intro d
    simp [Scan.step, Scan.skip, hstring, hescaped]
  unfold Json.escapeChar
  split
  · exact hpair _
  split
  · exact hpair _
  split
  · exact hpair _
  split
  · exact hpair _
  split
  · exact hpair _
  split
  · exact hpair _
  split
  · exact hpair _
  split
  · have h1 := hexDigit_plain (c.toNat / 16) (by omega)
    have h2 := hexDigit_plain (c.toNat % 16) (by omega)
    have hu : Scan.step (Scan.step s '\\') 'u' = s.skip 2 := hpair 'u'
    simp only [List.foldl_cons, List.foldl_nil, hu]
    rw [step_in_string (s := s.skip 2) hstring hescaped (by decide) (by decide), Scan.skip_skip,
      step_in_string (s := s.skip _) hstring hescaped (by decide) (by decide), Scan.skip_skip,
      step_in_string (s := s.skip _) hstring hescaped h1.1 h1.2, Scan.skip_skip,
      step_in_string (s := s.skip _) hstring hescaped h2.1 h2.2, Scan.skip_skip]
    rfl
  · rename_i hquote hslash _ _ _ _ _ _
    exact step_in_string hstring hescaped hslash hquote

theorem step_escaped (cs : List Char) (s : Scan) (hstring : s.inString = true)
    (hescaped : s.escaped = false) : (cs.flatMap Json.escapeChar).foldl Scan.step s =
      s.skip (cs.flatMap Json.escapeChar).length := by
  induction cs generalizing s with
  | nil => rfl
  | cons c cs ih =>
    rw [List.flatMap_cons, List.foldl_append, step_escapeChar c s hstring hescaped,
      ih (s.skip _) hstring hescaped, Scan.skip_skip, List.length_append]

theorem Passes.string (t : String) : Passes (Json.quote t) := by
  intro s hstack hstring hescaped
  have hopen : s.step '"' = { s.skip 1 with inString := true } := by
    simp [Scan.step, Scan.skip, hstring, hstack]
  have hclose : ∀ n, Scan.step (Scan.skip { s.skip 1 with inString := true } n) '"' =
      s.skip (1 + n + 1) := by
    intro n
    simp [Scan.step, Scan.skip, hescaped, hstring, Nat.add_assoc]
  unfold Json.quote
  rw [List.cons_append, List.foldl_cons, hopen, List.foldl_append,
    step_escaped _ { s.skip 1 with inString := true } rfl hescaped, List.foldl_cons, hclose,
    List.foldl_nil]
  congr 1
  simp
  omega

/-- Brackets inside brackets. -/
theorem Passes.array (a : List Char) (ha : Passes a) : Passes ('[' :: a ++ [']']) := by
  intro s hstack hstring hescaped
  have hopen : s.step '[' = { s.skip 1 with stack := (']', s.position) :: s.stack } := by
    simp [Scan.step, Scan.skip, closerOf, hstring]
  have hclose : ∀ n, Scan.step (Scan.skip { s.skip 1 with stack := (']', s.position) :: s.stack } n)
      ']' = s.skip (1 + n + 1) := by
    intro n
    simp [Scan.step, Scan.skip, closerOf, hstring, hstack, Nat.add_assoc]
  rw [List.cons_append, List.foldl_cons, hopen, List.foldl_append,
    ha { s.skip 1 with stack := (']', s.position) :: s.stack } (by simp) hstring hescaped,
    List.foldl_cons, hclose, List.foldl_nil]
  congr 1
  simp
  omega

theorem Passes.object (a : List Char) (ha : Passes a) : Passes ('{' :: a ++ ['}']) := by
  intro s hstack hstring hescaped
  have hopen : s.step '{' = { s.skip 1 with stack := ('}', s.position) :: s.stack } := by
    simp [Scan.step, Scan.skip, closerOf, hstring]
  have hclose : ∀ n, Scan.step (Scan.skip { s.skip 1 with stack := ('}', s.position) :: s.stack } n)
      '}' = s.skip (1 + n + 1) := by
    intro n
    simp [Scan.step, Scan.skip, closerOf, hstring, hstack, Nat.add_assoc]
  rw [List.cons_append, List.foldl_cons, hopen, List.foldl_append,
    ha { s.skip 1 with stack := ('}', s.position) :: s.stack } (by simp) hstring hescaped,
    List.foldl_cons, hclose, List.foldl_nil]
  congr 1
  simp
  omega

/-- Prose has no brackets. -/
def NoBrackets (cs : List Char) : Prop := ∀ c ∈ cs, c ∉ ['{', '}', '[', ']']

instance (cs : List Char) : Decidable (NoBrackets cs) :=
  List.decidableBAll (fun c => c ∉ ['{', '}', '[', ']']) cs

/-- Outside of brackets the scan goes over prose. -/
theorem scan_prose {cs : List Char} (h : NoBrackets cs) (s : Scan) (hstack : s.stack = [])
    (hstring : s.inString = false) : cs.foldl Scan.step s = s.skip cs.length := by
  induction cs generalizing s with
  | nil => rfl
  | cons c cs ih =>
    have hc := h c List.mem_cons_self
    simp only [List.mem_cons, List.not_mem_nil, or_false, not_or] at hc
    obtain ⟨h1, h2, h3, h4⟩ := hc
    have hstep : s.step c = s.skip 1 := by
      by_cases hq : c = '"' <;> simp [Scan.step, Scan.skip, closerOf, hstring, hstack, h1, h2, h3, h4, hq]
    rw [List.foldl_cons, hstep, ih (fun d hd => h d (List.mem_cons_of_mem c hd)) (s.skip 1) hstack
      hstring, Scan.skip_skip, List.length_cons, Nat.add_comm]

/-- The one span of an object among prose. -/
theorem findJsonSpans_object {before after fields : List Char} (hb : NoBrackets before)
    (ha : NoBrackets after) (hf : Passes fields) :
    findJsonSpans (before ++ ('{' :: fields ++ ['}']) ++ after) =
      [(before.length, before.length + ('{' :: fields ++ ['}']).length)] := by
  have hopen : Scan.step (Scan.skip {} before.length) '{' =
      { stack := [('}', before.length)], position := before.length + 1 } := by
    simp [Scan.step, Scan.skip, closerOf]
  have hclose : ∀ n, Scan.step
      (Scan.skip { stack := [('}', before.length)], position := before.length + 1 } n) '}' =
      { position := before.length + 1 + n + 1
        spans := [(before.length, before.length + 1 + n + 1)] } := by
    intro n
    simp [Scan.step, Scan.skip, closerOf]
  unfold findJsonSpans
  rw [List.foldl_append, List.foldl_append, scan_prose hb {} rfl rfl, List.cons_append,
    List.foldl_cons, hopen, List.foldl_append, hf _ (by simp) rfl rfl, List.foldl_cons, hclose,
    List.foldl_nil, scan_prose ha _ rfl rfl]
  simp [Scan.skip]
  omega

theorem findJsonSpans_prose {cs : List Char} (h : NoBrackets cs) : findJsonSpans cs = [] := by
  unfold findJsonSpans
  rw [scan_prose h {} rfl rfl]
  rfl

theorem passes : Pieces Passes :=
  ⟨.nil, Passes.append, Passes.plain, Passes.string, Passes.array, Passes.object⟩

/-! ## The spans -/

/-- A text that opens and closes with a bracket. -/
def Bracketed (t : List Char) : Prop :=
  (∃ c ∈ t.head?, c ∈ ['{', '[']) ∧ ∃ c ∈ t.getLast?, c ∈ ['}', ']']

/-- What the scan has noted of the text that it has gone over. -/
structure Scanned (done : List Char) (s : Scan) : Prop where
  position : s.position = done.length
  stack : ∀ e ∈ s.stack, ∃ c rest, done.drop e.2 = c :: rest ∧ c ∈ ['{', '[']
  spans : ∀ e ∈ s.spans, ∃ pre t post, done = pre ++ t ++ post ∧ Bracketed t ∧
    e = (pre.length, pre.length + t.length)

theorem Scanned.init : Scanned [] {} :=
  ⟨rfl, fun _ h => (List.not_mem_nil h).elim, fun _ h => (List.not_mem_nil h).elim⟩

theorem Scanned.step {done : List Char} {s : Scan} (h : Scanned done s) (c : Char) :
    Scanned (done ++ [c]) (s.step c) := by
  have hstack : ∀ e : Char × Nat, (∃ d rest, done.drop e.2 = d :: rest ∧ d ∈ ['{', '[']) →
      ∃ d rest, (done ++ [c]).drop e.2 = d :: rest ∧ d ∈ ['{', '['] := by
    rintro e ⟨d, rest, hdrop, hd⟩
    have hlt : e.2 ≤ done.length := by
      by_contra hgt
      rw [List.drop_eq_nil_of_le (by omega)] at hdrop
      cases hdrop
    exact ⟨d, rest ++ [c], by rw [List.drop_append_of_le_length hlt, hdrop]; rfl, hd⟩
  have hspans : ∀ e : Nat × Nat, (∃ pre t post, done = pre ++ t ++ post ∧ Bracketed t ∧
      e = (pre.length, pre.length + t.length)) → ∃ pre t post, done ++ [c] = pre ++ t ++ post ∧
      Bracketed t ∧ e = (pre.length, pre.length + t.length) := by
    rintro e ⟨pre, t, post, hdone, ht, he⟩
    exact ⟨pre, t, post ++ [c], by rw [hdone]; simp, ht, he⟩
  have hmoved : ∀ s' : Scan, s'.position = s.position + 1 → (∀ e ∈ s'.stack, e ∈ s.stack) →
      (∀ e ∈ s'.spans, e ∈ s.spans) → Scanned (done ++ [c]) s' := by
    intro s' hp hs hsp
    refine ⟨by rw [hp, h.position, List.length_append]; rfl, fun e he => ?_, fun e he => ?_⟩
    · exact hstack e (h.stack e (hs e he))
    · exact hspans e (h.spans e (hsp e he))
  unfold Scan.step
  split
  · split
    · exact hmoved _ rfl (fun e he => he) fun e he => he
    · split
      · exact hmoved _ rfl (fun e he => he) fun e he => he
      · split
        · exact hmoved _ rfl (fun e he => he) fun e he => he
        · exact hmoved _ rfl (fun e he => he) fun e he => he
  split
  · exact hmoved _ rfl (fun e he => he) fun e he => he
  split
  · -- an opening bracket
    rename_i closer hcloser
    have hopen : c ∈ ['{', '['] := by
      unfold closerOf at hcloser
      split at hcloser
      · rename_i hc
        simp [hc]
      · split at hcloser
        · rename_i hc
          simp [hc]
        · cases hcloser
    refine ⟨by simp [h.position], fun e he => ?_, fun e he => hspans e (h.spans e he)⟩
    rcases List.mem_cons.1 he with rfl | he
    · refine ⟨c, [], ?_, hopen⟩
      rw [h.position, List.drop_left']
      rfl
    · exact hstack e (h.stack e he)
  · split
    · rename_i hclose
      split
      · exact hmoved _ rfl (fun e he => he) fun e he => he
      · rename_i closer start rest hs
        split
        · exact hmoved _ rfl (fun e he => by cases he) fun e he => he
        split
        · -- the last bracket is closed
          refine ⟨by simp [h.position], fun e he => (by cases he), fun e he => ?_⟩
          rcases List.mem_append.1 he with he | he
          · exact hspans e (h.spans e he)
          · obtain rfl := List.mem_singleton.1 he
            obtain ⟨d, tail, hdrop, hd⟩ := h.stack (closer, start) (by rw [hs]; exact List.mem_cons_self)
            have hle : start ≤ done.length := by
              by_contra hgt
              rw [List.drop_eq_nil_of_le (by simp; omega)] at hdrop
              cases hdrop
            have hlen := congrArg List.length hdrop
            rw [List.length_drop, List.length_cons] at hlen
            refine ⟨done.take start, done.drop start ++ [c], [], ?_, ⟨?_, ?_⟩, ?_⟩
            · rw [List.append_nil, ← List.append_assoc, List.take_append_drop]
            · rw [show done.drop start = d :: tail from hdrop]
              exact ⟨d, rfl, hd⟩
            · rw [List.getLast?_concat]
              refine ⟨c, rfl, ?_⟩
              rcases hclose with rfl | rfl <;> simp
            · rw [List.length_take, List.length_append, List.length_drop, h.position]
              simp
              omega
        · refine hmoved _ rfl (fun e he => ?_) fun e he => he
          rw [hs]
          exact List.mem_cons_of_mem _ he
    · exact hmoved _ rfl (fun e he => he) fun e he => he

theorem Scanned.run {done : List Char} {s : Scan} (h : Scanned done s) (cs : List Char) :
    Scanned (done ++ cs) (cs.foldl Scan.step s) := by
  induction cs generalizing done s with
  | nil => simpa using h
  | cons c cs ih =>
    have hnext := ih (h.step c)
    rw [List.append_assoc] at hnext
    exact hnext

/-- A span is a part of the text that opens and closes with a bracket. -/
theorem slice_bracketed {text : List Char} {span : Nat × Nat} (h : span ∈ findJsonSpans text) :
    ∃ pre post, text = pre ++ slice text span ++ post ∧ Bracketed (slice text span) := by
  have hscan := Scanned.init.run text
  rw [List.nil_append] at hscan
  obtain ⟨pre, t, post, htext, ht, hspan⟩ := hscan.spans span h
  have hslice : slice text span = t := by
    rw [hspan, htext]
    unfold slice
    rw [List.append_assoc, List.drop_left' rfl, Nat.add_sub_cancel_left, List.take_left' rfl]
  exact ⟨pre, post, by rw [hslice]; exact htext, hslice ▸ ht⟩

end JsonTextCodec

end AgenticLocalApp
