import AgenticLocalApp.Transport.BalancedSpans

/-!
# The first document of a text

A serialisation of a JSON value may leave blanks between its tokens and escape any character of a
string.  Inside brackets the scan goes over all of it as if it were not there, so that the first
document of a text is found behind prose without brackets, whatever follows it.
-/

namespace AgenticLocalApp

namespace JsonTextCodec

/-! ## Serialisations -/

def IsJsonBlank (cs : List Char) : Prop := ∀ c ∈ cs, c ∈ [' ', '\t', '\n', '\r']

/-- The letters that stand behind a backslash for a character. -/
def shortEscapes : List (Char × Char) :=
  [('"', '"'), ('\\', '\\'), ('/', '/'), ('b', Char.ofNat 8), ('f', Char.ofNat 12), ('n', '\n'),
    ('r', '\r'), ('t', '\t')]

/-- The value of a hexadecimal digit, in either case. -/
def hexOf (c : Char) : Option Nat :=
  if '0' ≤ c ∧ c ≤ '9' then some (c.toNat - '0'.toNat)
  else if 'a' ≤ c ∧ c ≤ 'f' then some (c.toNat - 'a'.toNat + 10)
  else if 'A' ≤ c ∧ c ≤ 'F' then some (c.toNat - 'A'.toNat + 10)
  else none

/-- The code of four hexadecimal digits. -/
def codeOf (digits : List Char) : Option Nat :=
  if digits.length = 4 ∧ digits.all (fun c => (hexOf c).isSome) then
    some (digits.foldl (fun n c => n * 16 + (hexOf c).getD 0) 0)
  else none

/-- What may stand between the quotes of a string for its characters. -/
inductive StringText : List Char → List Char → Prop
  | nil : StringText [] []
  | plain {c : Char} {cs t : List Char} (hquote : c ≠ '"') (hslash : c ≠ '\\')
    (hcontrol : 32 ≤ c.toNat) : StringText cs t → StringText (c :: cs) (c :: t)
  | short {e c : Char} {cs t : List Char} (h : (e, c) ∈ shortEscapes) :
    StringText cs t → StringText (c :: cs) ('\\' :: e :: t)
  | code {digits cs t : List Char} {n : Nat} (hdigits : codeOf digits = some n)
    (hvalid : n.isValidChar) :
    StringText cs t → StringText (Char.ofNat n :: cs) ('\\' :: 'u' :: digits ++ t)
  | pair {high low cs t : List Char} {m n : Nat} (hhigh : codeOf high = some m)
    (hlow : codeOf low = some n) (hm : 0xD800 ≤ m ∧ m < 0xDC00) (hn : 0xDC00 ≤ n ∧ n < 0xE000) :
    StringText cs t →
    StringText (Char.ofNat (0x10000 + (m - 0xD800) * 0x400 + (n - 0xDC00)) :: cs)
      ('\\' :: 'u' :: high ++ '\\' :: 'u' :: low ++ t)

/-- A text of JSON for a string. -/
def QuotedText (s : String) (t : List Char) : Prop :=
  ∃ inner, StringText s.toList inner ∧ t = '"' :: inner ++ ['"']

/-- A character that `float.__repr__` writes, `NaN` and `Infinity` with it. -/
def isFloatChar (c : Char) : Bool := c.isAlphanum || c ∈ ['+', '-', '.']

mutual

/-- The texts of JSON for a value, without blanks around them. -/
def Serialises : Json → List Char → Prop
  | .null, t => t = "null".toList
  | .bool b, t => t = if b then "true".toList else "false".toList
  | .int n, t => t = Json.ofInt n
  | .float repr, t => t = repr.toList ∧ ∀ c ∈ t, isFloatChar c = true
  | .str s, t => QuotedText s t
  | .arr items, t => (items = [] ∧ ∃ blank, IsJsonBlank blank ∧ t = '[' :: blank ++ [']']) ∨
      ∃ texts, SerialisesItems items texts ∧ t = '[' :: Json.commas texts ++ [']']
  | .obj fields, t => (fields = [] ∧ ∃ blank, IsJsonBlank blank ∧ t = '{' :: blank ++ ['}']) ∨
      ∃ texts, SerialisesFields fields texts ∧ t = '{' :: Json.commas texts ++ ['}']

def SerialisesItems : List Json → List (List Char) → Prop
  | [], texts => texts = []
  | x :: xs, texts => ∃ before t after rest, IsJsonBlank before ∧ Serialises x t ∧
      IsJsonBlank after ∧ SerialisesItems xs rest ∧ texts = (before ++ t ++ after) :: rest

def SerialisesFields : List (String × Json) → List (List Char) → Prop
  | [], texts => texts = []
  | (k, v) :: fields, texts => ∃ before key colon value t after rest, IsJsonBlank before ∧
      QuotedText k key ∧ IsJsonBlank colon ∧ IsJsonBlank value ∧ Serialises v t ∧
      IsJsonBlank after ∧ SerialisesFields fields rest ∧
      texts = (before ++ key ++ colon ++ ':' :: value ++ t ++ after) :: rest

end

def isContainer : Json → Bool
  | .arr _ | .obj _ => true
  | _ => false

/-! ## The scan goes over them -/

theorem hexOf_plain {c : Char} {n : Nat} (h : hexOf c = some n) : c ≠ '"' ∧ c ≠ '\\' := by
  refine ⟨?_, ?_⟩ <;> rintro rfl <;> revert h <;> decide +revert

theorem codeOf_plain {digits : List Char} {n : Nat} (h : codeOf digits = some n) :
    ∀ c ∈ digits, c ≠ '"' ∧ c ≠ '\\' := by
  unfold codeOf at h
  split at h
  · rename_i hall
    intro c hc
    obtain ⟨v, hv⟩ := Option.isSome_iff_exists.1 (List.all_eq_true.1 hall.2 c hc)
    exact hexOf_plain hv
  · cases h

/-- Inside a string the scan goes over characters that are no quotes and no backslashes. -/
theorem foldl_in_string {cs : List Char} (hcs : ∀ c ∈ cs, c ≠ '"' ∧ c ≠ '\\') {s : Scan}
    (hstring : s.inString = true) (hescaped : s.escaped = false) :
    cs.foldl Scan.step s = s.skip cs.length := by
  induction cs generalizing s with
  | nil => rfl
  | cons c cs ih =>
    rw [List.forall_mem_cons] at hcs
    rw [List.foldl_cons, step_in_string hstring hescaped hcs.1.2 hcs.1.1,
      ih hcs.2 (s := s.skip 1) hstring hescaped, Scan.skip_skip, List.length_cons, Nat.add_comm]

theorem step_backslash (e : Char) {s : Scan} (hstring : s.inString = true)
    (hescaped : s.escaped = false) : (s.step '\\').step e = s.skip 2 := by
  simp [Scan.step, Scan.skip, hstring, hescaped]

theorem StringText.passes {cs t : List Char} (h : StringText cs t) {s : Scan}
    (hstring : s.inString = true) (hescaped : s.escaped = false) :
    t.foldl Scan.step s = s.skip t.length := by
  induction h generalizing s with
  | nil => rfl
  | @plain c cs t hquote hslash _ _ ih =>
    rw [List.foldl_cons, step_in_string hstring hescaped hslash hquote,
      ih (s := s.skip 1) hstring hescaped, Scan.skip_skip, List.length_cons, Nat.add_comm]
  | @short e c cs t _ _ ih =>
    rw [List.foldl_cons, List.foldl_cons, step_backslash e hstring hescaped,
      ih (s := s.skip 2) hstring hescaped, Scan.skip_skip, List.length_cons, List.length_cons,
      Nat.add_comm]
  | @code digits cs t n hdigits _ _ ih =>
    rw [List.cons_append, List.cons_append, List.foldl_cons, List.foldl_cons,
      step_backslash 'u' hstring hescaped, List.foldl_append,
      foldl_in_string (s := s.skip 2) (codeOf_plain hdigits) hstring hescaped, Scan.skip_skip,
      ih (s := s.skip _) hstring hescaped, Scan.skip_skip]
    congr 1
    simp only [List.length_cons, List.length_append]
    omega
  | @pair high low cs t m n hhigh hlow _ _ _ ih =>
    rw [List.append_assoc, List.cons_append, List.cons_append, List.foldl_cons, List.foldl_cons,
      step_backslash 'u' hstring hescaped, List.foldl_append,
      foldl_in_string (s := s.skip 2) (codeOf_plain hhigh) hstring hescaped, Scan.skip_skip,
      List.cons_append, List.cons_append, List.foldl_cons, List.foldl_cons,
      step_backslash 'u' (s := s.skip _) hstring hescaped, Scan.skip_skip, List.foldl_append,
      foldl_in_string (s := s.skip _) (codeOf_plain hlow) hstring hescaped, Scan.skip_skip,
      ih (s := s.skip _) hstring hescaped, Scan.skip_skip]
    congr 1
    simp only [List.length_cons, List.length_append]
    omega

theorem QuotedText.passes {k : String} {t : List Char} (h : QuotedText k t) : Passes t := by
  obtain ⟨inner, hinner, rfl⟩ := h
  intro s hstack hstring hescaped
  have hopen : s.step '"' = { s.skip 1 with inString := true } := by
    simp [Scan.step, Scan.skip, hstring, hstack]
  have hclose : ∀ n, Scan.step (Scan.skip { s.skip 1 with inString := true } n) '"' =
      s.skip (1 + n + 1) := by
    intro n
    simp [Scan.step, Scan.skip, hescaped, hstring, Nat.add_assoc]
  rw [List.cons_append, List.foldl_cons, hopen, List.foldl_append,
    hinner.passes (s := { s.skip 1 with inString := true }) rfl hescaped, List.foldl_cons, hclose,
    List.foldl_nil]
  congr 1
  simp
  omega

theorem IsJsonBlank.passes {cs : List Char} (h : IsJsonBlank cs) : Passes cs := by
  refine JsonTextCodec.passes.of_plain fun c hc => ?_
  have hmem := h c hc
  simp only [List.mem_cons, List.not_mem_nil, or_false] at hmem
  obtain rfl | rfl | rfl | rfl := hmem <;> decide

theorem isPlain_of_isFloatChar {c : Char} (h : isFloatChar c = true) : isPlain c = true := by
  refine isPlain_iff.2 ⟨?_, ?_, ?_, ?_, ?_, ?_⟩ <;> rintro rfl <;> revert h <;> decide

mutual

/-- The scan goes over the serialisation of a value that stands in brackets. -/
theorem Serialises.passes : ∀ (j : Json) (t : List Char), Serialises j t → Passes t
  | .null, _, h => h ▸ JsonTextCodec.passes.of_plain (List.all_eq_true.1 (by decide))
  | .bool true, _, h => h ▸ JsonTextCodec.passes.of_plain (List.all_eq_true.1 (by decide))
  | .bool false, _, h => h ▸ JsonTextCodec.passes.of_plain (List.all_eq_true.1 (by decide))
  | .int n, _, h =>
    h ▸ JsonTextCodec.passes.of_plain fun c hc =>
      isPlain_of_isNumberChar (Json.isNumberChar_ofInt n c hc)
  | .float _, _, h => JsonTextCodec.passes.of_plain fun c hc => isPlain_of_isFloatChar (h.2 c hc)
  | .str _, _, h => QuotedText.passes h
  | .arr items, t, h => by
    obtain ⟨-, blank, hblank, rfl⟩ | ⟨texts, htexts, rfl⟩ := h
    · exact Passes.array _ hblank.passes
    · exact Passes.array _
        (JsonTextCodec.passes.of_commas (SerialisesItems.passes items texts htexts))
  | .obj fields, t, h => by
    obtain ⟨-, blank, hblank, rfl⟩ | ⟨texts, htexts, rfl⟩ := h
    · exact Passes.object _ hblank.passes
    · exact Passes.object _
        (JsonTextCodec.passes.of_commas (SerialisesFields.passes fields texts htexts))

theorem SerialisesItems.passes : ∀ (items : List Json) (texts : List (List Char)),
    SerialisesItems items texts → ∀ t ∈ texts, Passes t
  | [], _, h => by
    rw [h]
    exact fun _ ht => absurd ht List.not_mem_nil
  | x :: xs, _, ⟨before, t, after, rest, hbefore, ht, hafter, hrest, h⟩ => by
    rw [h, List.forall_mem_cons]
    refine ⟨?_, SerialisesItems.passes xs rest hrest⟩
    exact .append _ _ (.append _ _ hbefore.passes (Serialises.passes x t ht)) hafter.passes

theorem SerialisesFields.passes : ∀ (fields : List (String × Json)) (texts : List (List Char)),
    SerialisesFields fields texts → ∀ t ∈ texts, Passes t
  | [], _, h => by
    rw [h]
    exact fun _ ht => absurd ht List.not_mem_nil
  | (k, v) :: fields, _, ⟨before, key, colon, value, t, after, rest, hbefore, hkey, hcolon, hvalue,
      ht, hafter, hrest, h⟩ => by
    rw [h, List.forall_mem_cons]
    refine ⟨?_, SerialisesFields.passes fields rest hrest⟩
    have hname : Passes (before ++ key ++ colon) :=
      .append _ _ (.append _ _ hbefore.passes hkey.passes) hcolon.passes
    have hrest : Passes (':' :: value ++ t ++ after) :=
      .append _ _ (.append (':' :: value) _ (.append [':'] _ (.plain ':' (by decide)) hvalue.passes)
        (Serialises.passes v t ht)) hafter.passes
    have heq : before ++ key ++ colon ++ ':' :: value ++ t ++ after =
        (before ++ key ++ colon) ++ (':' :: value ++ t ++ after) := by
      simp only [List.append_assoc, List.cons_append]
    rw [heq]
    exact .append _ _ hname hrest

end

/-- The text of an object or a list is a pair of brackets and what the scan goes over. -/
theorem Serialises.bracketed {document : Json} {t : List Char} (h : Serialises document t)
    (hcontainer : isContainer document = true) : ∃ opener inner closer,
      closerOf opener = some closer ∧ t = opener :: inner ++ [closer] ∧ Passes inner := by
  cases document with
  | arr items =>
    obtain ⟨-, blank, hblank, rfl⟩ | ⟨texts, htexts, rfl⟩ := h
    · exact ⟨'[', blank, ']', rfl, rfl, hblank.passes⟩
    · exact ⟨'[', _, ']', rfl, rfl,
        JsonTextCodec.passes.of_commas (SerialisesItems.passes items texts htexts)⟩
  | obj fields =>
    obtain ⟨-, blank, hblank, rfl⟩ | ⟨texts, htexts, rfl⟩ := h
    · exact ⟨'{', blank, '}', rfl, rfl, hblank.passes⟩
    · exact ⟨'{', _, '}', rfl, rfl,
        JsonTextCodec.passes.of_commas (SerialisesFields.passes fields texts htexts)⟩
  | null | bool _ | int _ | float _ | str _ => cases hcontainer

/-! ## The canonical text is one of them -/

theorem codeOf_control : ∀ n < 32,
    codeOf ['0', '0', Json.hexDigit (n / 16), Json.hexDigit (n % 16)] = some n := by decide

theorem stringText_escapeChar (c : Char) {cs t : List Char} (h : StringText cs t) :
    StringText (c :: cs) (Json.escapeChar c ++ t) := by
  have hcode : ∀ n, c.toNat = n → c = Char.ofNat n := by
    rintro n rfl
    exact (Char.ofNat_toNat c).symm
  unfold Json.escapeChar
  split
  · rename_i hc
    subst hc
    exact .short (by decide) h
  split
  · rename_i hc
    subst hc
    exact .short (by decide) h
  split
  · rename_i hc
    subst hc
    exact .short (by decide) h
  split
  · rename_i hc
    subst hc
    exact .short (by decide) h
  split
  · rename_i hc
    subst hc
    exact .short (by decide) h
  split
  · rename_i hc
    rw [hcode 8 hc]
    exact .short (by decide) h
  split
  · rename_i hc
    rw [hcode 12 hc]
    exact .short (by decide) h
  split
  · rename_i hc
    have htext := StringText.code (codeOf_control c.toNat hc) c.valid h
    rwa [Char.ofNat_toNat] at htext
  · rename_i hquote hslash _ _ _ _ _ hcontrol
    exact .plain hquote hslash (not_lt.1 hcontrol) h

theorem quotedText_quote (s : String) : QuotedText s (Json.quote s) := by
  refine ⟨_, ?_, rfl⟩
  induction s.toList with
  | nil => exact .nil
  | cons c cs ih =>
    rw [List.flatMap_cons]
    exact stringText_escapeChar c ih

theorem isFloatChar_of_isNumberChar {c : Char} (h : Json.isNumberChar c = true) :
    isFloatChar c = true := by
  unfold Json.isNumberChar at h
  simp only [List.mem_cons, List.not_mem_nil, or_false, Bool.or_eq_true, decide_eq_true_eq] at h
  rcases h with h | rfl | rfl | rfl | rfl | rfl
  · simp [isFloatChar, Char.isAlphanum, h]
  all_goals decide

theorem isJsonBlank_nil : IsJsonBlank [] := fun _ h => absurd h List.not_mem_nil

mutual

theorem serialises_render : ∀ j : Json, j.Valid → Serialises j (Json.render j)
  | .null, _ => rfl
  | .bool true, _ => rfl
  | .bool false, _ => rfl
  | .int _, _ => rfl
  | .float _, hv => ⟨rfl, fun c hc => isFloatChar_of_isNumberChar (hv.1 c hc)⟩
  | .str s, _ => quotedText_quote s
  | .arr items, hv => .inr ⟨_, serialises_renderItems items hv, rfl⟩
  | .obj fields, hv => .inr ⟨_, serialises_renderFields fields hv, rfl⟩

theorem serialises_renderItems : ∀ items : List Json, Json.ValidItems items →
    SerialisesItems items (Json.renderItems items)
  | [], _ => rfl
  | x :: xs, hv => ⟨[], _, [], _, isJsonBlank_nil, serialises_render x hv.1, isJsonBlank_nil,
      serialises_renderItems xs hv.2, by rw [List.nil_append, List.append_nil, Json.renderItems]⟩

theorem serialises_renderFields : ∀ fields : List (String × Json), Json.ValidFields fields →
    SerialisesFields fields (Json.renderFields fields)
  | [], _ => rfl
  | (k, v) :: rest, hv => ⟨[], _, [], [], _, [], _, isJsonBlank_nil, quotedText_quote k,
      isJsonBlank_nil, isJsonBlank_nil, serialises_render v hv.1, isJsonBlank_nil,
      serialises_renderFields rest hv.2, by simp [Json.renderFields]⟩

end

/-! ## The first span -/

theorem step_spans (s : Scan) (c : Char) : s.spans <+: (s.step c).spans := by
  unfold Scan.step
  split
  · split
    · exact List.prefix_rfl
    · split
      · exact List.prefix_rfl
      · split <;> exact List.prefix_rfl
  split
  · exact List.prefix_rfl
  split
  · exact List.prefix_rfl
  split
  · split
    · exact List.prefix_rfl
    · split
      · exact List.prefix_rfl
      · split
        · exact List.prefix_append _ _
        · exact List.prefix_rfl
  · exact List.prefix_rfl

/-- A span that is noted stays. -/
theorem foldl_spans (cs : List Char) (s : Scan) : s.spans <+: (cs.foldl Scan.step s).spans := by
  induction cs generalizing s with
  | nil => exact List.prefix_rfl
  | cons c cs ih => exact (step_spans s c).trans (ih (s.step c))

/-- Behind prose, brackets and what the scan goes over are the first span. -/
theorem findJsonSpans_first {prose inner suffix : List Char} {opener closer : Char}
    (hprose : NoBrackets prose) (hopener : closerOf opener = some closer) (hinner : Passes inner) :
    ∃ spans, findJsonSpans (prose ++ (opener :: inner ++ [closer]) ++ suffix) =
      (prose.length, prose.length + (opener :: inner ++ [closer]).length) :: spans := by
  obtain ⟨hquote, hcloser⟩ := closerOf_mem hopener
  have hopen : Scan.step (Scan.skip {} prose.length) opener =
      { stack := [(closer, prose.length)], position := prose.length + 1 } := by
    simp [Scan.step, Scan.skip, hopener, hquote]
  have hclose : ∀ n, Scan.step
      (Scan.skip { stack := [(closer, prose.length)], position := prose.length + 1 } n) closer =
      { position := prose.length + 1 + n + 1
        spans := [(prose.length, prose.length + 1 + n + 1)] } := by
    intro n
    rcases hcloser with rfl | rfl <;> simp [Scan.step, Scan.skip, closerOf]
  obtain ⟨spans, hspans⟩ := foldl_spans suffix
    { position := prose.length + 1 + inner.length + 1
      spans := [(prose.length, prose.length + 1 + inner.length + 1)] }
  refine ⟨spans, ?_⟩
  unfold findJsonSpans
  rw [List.foldl_append, List.foldl_append, scan_prose hprose {} rfl rfl, List.cons_append,
    List.foldl_cons, hopen, List.foldl_append, hinner _ (by simp) rfl rfl, List.foldl_cons, hclose,
    List.foldl_nil, ← hspans]
  simp
  omega

/-- The first document of a text is what `json.loads` reads of its serialisation. -/
theorem extractFirstJson_first {loads : List Char → Except String Json}
    {prose t suffix : List Char} {document : Json} (hprose : NoBrackets prose)
    (ht : Serialises document t) (hcontainer : isContainer document = true)
    (hloads : loads t = .ok document) :
    extractFirstJson loads (prose ++ t ++ suffix) = .ok document := by
  obtain ⟨opener, inner, closer, hopener, rfl, hinner⟩ := ht.bracketed hcontainer
  obtain ⟨spans, hspans⟩ := @findJsonSpans_first _ _ suffix _ _ hprose hopener hinner
  have hslice : slice (prose ++ (opener :: inner ++ [closer]) ++ suffix)
      (prose.length, prose.length + (opener :: inner ++ [closer]).length) =
      opener :: inner ++ [closer] := by
    unfold slice
    rw [List.append_assoc, List.drop_left' rfl, Nat.add_sub_cancel_left, List.take_left' rfl]
  unfold extractFirstJson
  rw [hspans]
  change firstLoaded loads _ (_ :: _) none = _
  unfold firstLoaded
  rw [hslice, hloads]

/-- The first document of a text is read behind prose without brackets, whatever follows it, and the
spans of any text lie in it one behind the other, each balanced between its brackets. -/
theorem extractFirstJson_spec (loads : List Char → Except String Json) :
    (∀ (document : Json) (prose t suffix : List Char), NoBrackets prose → Serialises document t →
      isContainer document = true → loads t = .ok document →
      extractFirstJson loads (prose ++ t ++ suffix) = .ok document) ∧
    ∀ text, (∀ span ∈ findJsonSpans text, span.1 < span.2 ∧ span.2 ≤ text.length) ∧
      (findJsonSpans text).Pairwise (fun a b => a.2 ≤ b.1) ∧
        ∀ span ∈ findJsonSpans text, Spanned (slice text span) :=
  ⟨fun _ _ _ _ hprose ht hcontainer hloads => extractFirstJson_first hprose ht hcontainer hloads,
    findJsonSpans_held⟩

/-- A document as it is dumped with blanks behind its commas and colons. -/
def dumpedSample : List Char := "\x7b\"a\": [1, \"]\\\"\"]\x7d".toList

def documentSample : Json := .obj [("a", .arr [.int 1, .str "]\""])]

theorem serialises_sample : Serialises documentSample dumpedSample := by
  have hkey : QuotedText "a" "\"a\"".toList := quotedText_quote "a"
  have hitem : QuotedText "]\"" "\"]\\\"\"".toList := quotedText_quote "]\""
  have hblank : IsJsonBlank [' '] := fun c hc =>
    List.mem_singleton.1 hc ▸ List.mem_cons_self
  refine .inr ⟨_, ⟨[], _, [], [' '], _, [], _, isJsonBlank_nil, hkey, isJsonBlank_nil, hblank,
    .inr ⟨_, ⟨[], _, [], _, isJsonBlank_nil, rfl, isJsonBlank_nil,
      ⟨[' '], _, [], _, hblank, hitem, isJsonBlank_nil, rfl, rfl⟩, rfl⟩, rfl⟩,
    isJsonBlank_nil, rfl, rfl⟩, ?_⟩
  rfl

theorem extractFirstJson_sample :
    extractFirstJson (fun cs => if cs = dumpedSample then .ok documentSample else .error "")
      ("He said \"hi: ".toList ++ dumpedSample ++ "\x7d [1]".toList) = .ok documentSample := by
  refine (extractFirstJson_spec _).1 documentSample _ dumpedSample _ ?_ serialises_sample rfl ?_
  · decide
  · exact if_pos rfl

end JsonTextCodec

end AgenticLocalApp
