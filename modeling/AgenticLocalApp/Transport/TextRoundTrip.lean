import AgenticLocalApp.Transport.Fences
import AgenticLocalApp.Transport.JsonSpans

/-!
# What the text codec reads back

The text of an envelope is read back from among prose, and from a fence, as long as no fence cuts
it: the fences are looked for before the strings of the JSON are known.  When one does, what is left
of the text has fewer ticks than the envelope, and no escapes that stand for one.
-/

namespace AgenticLocalApp

namespace JsonTextCodec

/-! ## Ticks -/

/-- No tick is written as `\u0060`; `odd` says that an odd number of backslashes comes before. -/
def escapesNoTick : (odd : Bool) → List Char → Bool
  | _, [] => true
  | odd, c :: cs =>
    if c = '\\' then escapesNoTick (!odd) cs
    else !(odd && ['u', '0', '0', '6', '0'].isPrefixOf (c :: cs)) && escapesNoTick false cs

/-- The text leaves what comes after it as it is. -/
def TickPlain (cs : List Char) : Prop :=
  ∀ rest, escapesNoTick false (cs ++ rest) = escapesNoTick false rest

theorem tickPlain_cons {c : Char} (hc : c ≠ '\\') {cs : List Char} (h : TickPlain cs) :
    TickPlain (c :: cs) := by
  intro rest
  rw [List.cons_append, escapesNoTick, if_neg hc, h rest]
  rfl

theorem TickPlain.append (a b : List Char) (ha : TickPlain a) (hb : TickPlain b) :
    TickPlain (a ++ b) := by
  intro rest
  rw [List.append_assoc, ha, hb]

theorem hexDigit_low : ∀ n < 2, Json.hexDigit n ≠ '6' := by decide

theorem tickPlain_escapeChar (c : Char) : TickPlain (Json.escapeChar c) := by
  have hpair : ∀ d : Char, d ≠ '\\' → d ≠ 'u' → TickPlain ['\\', d] := by
    intro d h1 h2 rest
    simp [escapesNoTick, h1, List.isPrefixOf, Ne.symm h2]
  unfold Json.escapeChar
  split
  · exact hpair _ (by decide) (by decide)
  split
  · intro rest
    simp [escapesNoTick]
  split
  · exact hpair _ (by decide) (by decide)
  split
  · exact hpair _ (by decide) (by decide)
  split
  · exact hpair _ (by decide) (by decide)
  split
  · exact hpair _ (by decide) (by decide)
  split
  · exact hpair _ (by decide) (by decide)
  split
  · intro rest
    have h1 := hexDigit_plain (c.toNat / 16) (by omega)
    have h2 := hexDigit_plain (c.toNat % 16) (by omega)
    have h6 := hexDigit_low (c.toNat / 16) (by omega)
    simp [escapesNoTick, List.isPrefixOf, h1.1, h2.1, Ne.symm h6]
  · rename_i hslash _ _ _ _ _ _
    exact tickPlain_cons hslash fun _ => rfl

theorem TickPlain.string (t : String) : TickPlain (Json.quote t) := by
  have hescaped : ∀ cs : List Char, TickPlain (cs.flatMap Json.escapeChar) := by
    intro cs
    induction cs with
    | nil => exact fun _ => rfl
    | cons c cs ih => exact TickPlain.append _ _ (tickPlain_escapeChar c) ih
  exact tickPlain_cons (by decide)
    (TickPlain.append _ _ (hescaped _) (tickPlain_cons (by decide) fun _ => rfl))

theorem TickPlain.brackets {o c : Char} (ho : o ≠ '\\') (hc : c ≠ '\\') (a : List Char)
    (ha : TickPlain a) : TickPlain (o :: a ++ [c]) :=
  TickPlain.append (o :: a) [c] (tickPlain_cons ho ha) (tickPlain_cons hc fun _ => rfl)

theorem tickPlain : Pieces TickPlain where
  nil _ := rfl
  append := TickPlain.append
  plain _ hc := tickPlain_cons (isPlain_iff.1 hc).2.1 fun _ => rfl
  string := TickPlain.string
  array := TickPlain.brackets (by decide) (by decide)
  object := TickPlain.brackets (by decide) (by decide)

theorem escapesNoTick_left {odd : Bool} {a b : List Char}
    (h : escapesNoTick odd (a ++ b) = true) : escapesNoTick odd a = true := by
  induction a generalizing odd with
  | nil => rfl
  | cons c a ih =>
    rw [List.cons_append, escapesNoTick] at h
    rw [escapesNoTick]
    split at h
    · rw [if_pos ‹_›]
      exact ih h
    · rw [if_neg ‹_›]
      rw [Bool.and_eq_true, Bool.not_eq_true'] at h ⊢
      refine ⟨?_, ih h.2⟩
      rw [Bool.and_eq_false_iff] at h ⊢
      refine h.1.imp id fun hp => ?_
      by_contra hyes
      rw [Bool.not_eq_false, List.isPrefixOf_iff_prefix] at hyes
      have hlong := hyes.trans (List.prefix_append (c :: a) b)
      rw [List.cons_append] at hlong
      rw [List.isPrefixOf_iff_prefix.2 hlong] at hp
      cases hp

theorem escapesNoTick_right {odd : Bool} {a b : List Char} {c : Char} (hc : c ∈ ['{', '['])
    (h : escapesNoTick odd (a ++ c :: b) = true) : escapesNoTick false (c :: b) = true := by
  have hslash : c ≠ '\\' := by
    rintro rfl
    revert hc
    decide
  induction a generalizing odd with
  | nil =>
    rw [List.nil_append, escapesNoTick, if_neg hslash, Bool.and_eq_true] at h
    rw [escapesNoTick, if_neg hslash, h.2]
    rfl
  | cons d a ih =>
    rw [List.cons_append, escapesNoTick] at h
    split at h
    · exact ih h
    · rw [Bool.and_eq_true] at h
      exact ih h.2

/-! ## Reading an envelope back -/

/-- What `json.loads` makes of the canonical text of an envelope, and that what it reads has no more
ticks than the text, unless the text escapes some. -/
structure Reads (loads : List Char → Except String Json) (fields : Envelope) : Prop where
  reads : loads (Json.obj fields).canonical = .ok (Json.obj fields).sorted
  ticks : ∀ t j, loads t = .ok j → escapesNoTick false t = true →
    j.canonical.count tick ≤ t.count tick

/-- The text is decoded, with the default options, to the one envelope, its keys in order. -/
def Decodes (loads : List Char → Except String Json) (text : List Char) (fields : Envelope) : Prop :=
  decodeInbound loads {} [.str (.ofList text)] = .ok [Json.sortFields (Json.sortedFields fields)]

variable {loads : List Char → Except String Json} {text : List Char} {fields : Envelope}

theorem completeItems_default (index : Nat) (raw : Json) (element : Nat) (items : List Json)
    (envelopes : List Envelope) :
    completeItems {} index raw element items = .ok envelopes ↔ items = envelopes.map .obj := by
  induction items generalizing element envelopes with
  | nil =>
    cases envelopes <;> simp [completeItems]
  | cons item items ih =>
    cases item with
    | obj envelope =>
      have hfirst : completeEnvelope {} index raw envelope = .ok envelope := by
        simp [completeEnvelope, completeMessageId, bind, Except.bind]
      rw [completeItems, hfirst]
      cases hrest : completeItems {} index raw (element + 1) items with
      | error e =>
        have hno := fun envs => (ih (element + 1) envs).not.1 (by rw [hrest]; simp)
        cases envelopes with
        | nil => simp [bind, Except.bind]
        | cons first rest => simp [bind, Except.bind, hno rest]
      | ok rest =>
        have hyes := (ih (element + 1) rest).1 hrest
        cases envelopes with
        | nil => simp [bind, Except.bind, pure, Except.pure]
        | cons first rest' =>
          simp only [bind, Except.bind, pure, Except.pure, Except.ok.injEq, List.cons.injEq,
            List.map_cons, Json.obj.injEq]
          refine and_congr_right fun _ => ?_
          rw [hyes]
          exact (List.map_injective_iff.2 fun a b h => Json.obj.inj h).eq_iff.symm
    | null | bool b | int n | float r | str s | arr xs =>
      cases envelopes <;> simp [completeItems]

theorem decodes_iff : Decodes loads text fields ↔
    ∃ document, extractFirstJson loads (stripCodeFence text) = .ok document ∧
      (document = (Json.obj fields).sorted ∨ document = .arr [(Json.obj fields).sorted]) := by
  have hone : decodeInbound loads {} [.str (.ofList text)] =
      decodeOne loads {} 0 (.str (.ofList text)) := by
    unfold decodeInbound decodeFrom decodeFrom
    cases decodeOne loads {} 0 (.str (.ofList text)) <;>
      simp [bind, Except.bind, pure, Except.pure]
  unfold Decodes
  rw [hone]
  unfold decodeOne textOf jsonOf
  simp only [bind, Except.bind, String.toList_ofList, if_true]
  cases extractFirstJson loads (stripCodeFence text) with
  | error e => simp [Except.mapError]
  | ok document =>
    simp only [Except.mapError, Except.ok.injEq, exists_eq_left']
    have hitems := fun items => completeItems_default 0 (.str (.ofList text)) 0 items
      [Json.sortFields (Json.sortedFields fields)]
    cases document with
    | obj envelope =>
      rw [envelopesOf, hitems, Json.sorted]
      simp
    | arr items =>
      rw [envelopesOf, hitems, Json.sorted]
      simp
    | null | bool b | int n | float r | str s => simp [envelopesOf, Json.sorted]

theorem firstLoaded_ok {spans : List (Nat × Nat)} {firstError : Option String} {document : Json}
    (h : firstLoaded loads text spans firstError = .ok document) :
    ∃ span ∈ spans, loads (slice text span) = .ok document := by
  induction spans generalizing firstError with
  | nil => cases h
  | cons span spans ih =>
    unfold firstLoaded at h
    split at h
    · rename_i found hfound
      cases h
      exact ⟨span, List.mem_cons_self, hfound⟩
    · obtain ⟨other, hmem, hother⟩ := ih h
      exact ⟨other, List.mem_cons_of_mem span hmem, hother⟩

/-- What is read is one of the spans. -/
theorem extractFirstJson_ok {document : Json} (h : extractFirstJson loads text = .ok document) :
    ∃ pre t post, text = pre ++ t ++ post ∧ Bracketed t ∧ loads t = .ok document := by
  unfold extractFirstJson at h
  split at h
  · split at h <;> cases h
  · obtain ⟨span, hmem, hspan⟩ := firstLoaded_ok h
    obtain ⟨pre, post, htext, hb⟩ := slice_bracketed (List.mem_of_mem_take hmem)
    exact ⟨pre, _, post, htext, hb, hspan⟩

/-- From prose nothing is read. -/
theorem not_decodes_prose (h : NoBrackets (stripCodeFence text)) : ¬ Decodes loads text fields := by
  rw [decodes_iff]
  rintro ⟨document, hdocument, -⟩
  unfold extractFirstJson at hdocument
  rw [findJsonSpans_prose h] at hdocument
  simp only [List.isEmpty_nil, if_true] at hdocument
  split at hdocument <;> cases hdocument

/-- An envelope is read from among prose. -/
theorem decodes_of_intact (hv : Json.ValidFields fields) (hl : Reads loads fields)
    (before after : List Char) (hb : NoBrackets before) (ha : NoBrackets after)
    (hstrip : stripCodeFence text = before ++ (Json.obj fields).canonical ++ after) :
    Decodes loads text fields := by
  obtain ⟨inner, hcanonical, hinner⟩ := passes.of_object hv
  have hslice : slice (stripCodeFence text)
      (before.length, before.length + (Json.obj fields).canonical.length) =
      (Json.obj fields).canonical := by
    rw [hstrip]
    unfold slice
    rw [List.append_assoc, List.drop_left' rfl, Nat.add_sub_cancel_left, List.take_left' rfl]
  have hspans : findJsonSpans (stripCodeFence text) =
      [(before.length, before.length + (Json.obj fields).canonical.length)] := by
    rw [hstrip, hcanonical]
    exact findJsonSpans_object hb ha hinner
  refine decodes_iff.2 ⟨_, ?_, .inl rfl⟩
  unfold extractFirstJson
  rw [hspans]
  show firstLoaded loads _ [_] none = _
  unfold firstLoaded
  rw [hslice, hl.reads]

/-- What is read has all the ticks of the envelope. -/
theorem Decodes.ticks (hl : Reads loads fields) (h : Decodes loads text fields) :
    ∃ pre t post, stripCodeFence text = pre ++ t ++ post ∧ Bracketed t ∧
      (escapesNoTick false t = true →
        (Json.obj fields).canonical.count tick ≤ t.count tick) := by
  obtain ⟨document, hdocument, hsame⟩ := decodes_iff.1 h
  obtain ⟨pre, t, post, htext, ht, hload⟩ := extractFirstJson_ok hdocument
  refine ⟨pre, t, post, htext, ht, fun hclean => ?_⟩
  have hcount := hl.ticks t document hload hclean
  rcases hsame with rfl | rfl
  · rwa [Json.canonical_sorted] at hcount
  · have harr : (Json.arr [(Json.obj fields).sorted]).canonical =
        '[' :: (Json.obj fields).canonical ++ [']'] := by
      rw [Json.canonical, Json.canonicalItems, Json.canonicalItems, Json.commas,
        Json.canonical_sorted]
    rw [harr] at hcount
    have hne1 : ('[' == tick) = false := by decide
    have hne2 : (']' == tick) = false := by decide
    simpa [List.count_cons, hne1, hne2] using hcount

/-- Nothing is read of an envelope whose text is cut at some ticks. -/
theorem not_decodes_of_cut (hv : Json.ValidFields fields) (hl : Reads loads fields)
    (hcut : ∀ pre t post, stripCodeFence text = pre ++ t ++ post → Bracketed t →
      ∃ u v, (Json.obj fields).canonical = u ++ t ++ v ∧ (tick ∈ u ∨ tick ∈ v)) :
    ¬ Decodes loads text fields := by
  intro h
  obtain ⟨pre, t, post, htext, ht, hcount⟩ := h.ticks hl
  obtain ⟨u, v, hc, htick⟩ := hcut pre t post htext ht
  obtain ⟨⟨c, hc', hopen⟩, -⟩ := ht
  obtain ⟨rest, rfl⟩ : ∃ rest, t = c :: rest := by
    cases t with
    | nil => cases hc'
    | cons d rest =>
      obtain rfl := Option.some.inj hc'
      exact ⟨rest, rfl⟩
  have hclean : escapesNoTick false ((Json.obj fields).canonical ++ []) = true := by
    rw [← Json.render_sorted, tickPlain.of_render _ (Json.Valid.sorted (j := .obj fields) hv)]
    rfl
  rw [List.append_nil, hc] at hclean
  have hle := hcount (escapesNoTick_right hopen (escapesNoTick_left hclean))
  rw [hc, List.count_append, List.count_append] at hle
  have hpos : 0 < u.count tick + v.count tick := by
    rcases htick with h | h
    · have := List.count_pos_iff.2 h
      omega
    · have := List.count_pos_iff.2 h
      omega
  omega

/-- What opens and closes with a bracket lies between the prose. -/
theorem between_prose {before json after pre t post : List Char} (hb : NoBrackets before)
    (ha : NoBrackets after) (ht : Bracketed t)
    (h : before ++ json ++ after = pre ++ t ++ post) :
    ∃ u v, pre = before ++ u ∧ post = v ++ after ∧ json = u ++ t ++ v := by
  obtain ⟨⟨o, ho, hopen⟩, ⟨c, hc, hclose⟩⟩ := ht
  have hleft : ∃ u, pre = before ++ u ∧ json ++ after = u ++ (t ++ post) := by
    rw [List.append_assoc, List.append_assoc] at h
    rcases List.append_eq_append_iff.1 h with ⟨u, hpre, hrest⟩ | ⟨u, hbefore, hrest⟩
    · exact ⟨u, hpre, hrest⟩
    · cases u with
      | nil => exact ⟨[], by simpa using hbefore.symm, by simpa using hrest.symm⟩
      | cons d u =>
        -- the opening bracket would be in the prose
        cases t with
        | nil => cases ho
        | cons e t =>
          obtain rfl := Option.some.inj ho
          obtain rfl := (List.cons.inj hrest).1
          refine absurd ?_ (hb e (by rw [hbefore]; simp))
          simp only [List.mem_cons, List.not_mem_nil, or_false] at hopen ⊢
          tauto
  obtain ⟨u, hpre, hrest⟩ := hleft
  rw [← List.append_assoc] at hrest
  rcases List.append_eq_append_iff.1 hrest with ⟨v, hut, hafter⟩ | ⟨v, hjson, hpost⟩
  · obtain rfl | ⟨v, d, rfl⟩ := v.eq_nil_or_concat'
    · rw [List.append_nil] at hut
      exact ⟨u, [], hpre, by simpa using hafter.symm, by rw [List.append_nil]; exact hut.symm⟩
    · -- the closing bracket would be in the prose
      have hlast : t.getLast? = some d := by
        have hne : t ≠ [] := by
          rintro rfl
          cases hc
        have hend := congrArg List.getLast? hut
        rw [List.getLast?_append_of_ne_nil _ hne, ← List.append_assoc, List.getLast?_concat] at hend
        exact hend
      rw [hlast] at hc
      obtain rfl := Option.some.inj hc
      refine absurd ?_ (ha d (by rw [hafter]; simp))
      simp only [List.mem_cons, List.not_mem_nil, or_false] at hclose ⊢
      tauto
  · exact ⟨u, v, hpre, hpost, hjson⟩

theorem NoBrackets.of_subset {a b : List Char} (h : NoBrackets b) (hab : ∀ c ∈ a, c ∈ b) :
    NoBrackets a := fun c hc => h c (hab c hc)

/-- A JSON object opens and closes with a brace. -/
theorem canonical_object (fields : Envelope) :
    ∃ inner, (Json.obj fields).canonical = '{' :: inner ++ ['}'] := ⟨_, rfl⟩

theorem splitFence_before (before after : List Char) (fields : Envelope) :
    splitFence (before ++ ((Json.obj fields).canonical ++ after)) = match splitFence before with
      | some (b, rest) => some (b, rest ++ ((Json.obj fields).canonical ++ after))
      | none => (splitFence ((Json.obj fields).canonical ++ after)).map
          fun p => (before ++ p.1, p.2) := by
  obtain ⟨inner, hc⟩ := canonical_object fields
  refine splitFence_append (.inr ?_)
  rw [hc]
  simp [show ('{' : Char) ≠ tick by decide]

theorem splitFence_after (after : List Char) (fields : Envelope) :
    splitFence ((Json.obj fields).canonical ++ after) =
      match splitFence (Json.obj fields).canonical with
      | some (b, rest) => some (b, rest ++ after)
      | none => (splitFence after).map fun p => ((Json.obj fields).canonical ++ p.1, p.2) := by
  obtain ⟨inner, hc⟩ := canonical_object fields
  refine splitFence_append (.inl ?_)
  rw [hc, List.getLast?_concat]
  simp [show ('}' : Char) ≠ tick by decide]

theorem fenceBody_before (rest after : List Char) (fields : Envelope) :
    fenceBody (rest ++ ((Json.obj fields).canonical ++ after)) =
      fenceBody rest ++ ((Json.obj fields).canonical ++ after) := by
  obtain ⟨inner, hc⟩ := canonical_object fields
  rw [hc]
  exact fenceBody_append (by decide) _ _

theorem mem_fenceBody {c : Char} {cs : List Char} (h : c ∈ fenceBody cs) : c ∈ cs := by
  obtain ⟨d, hd, -⟩ := fenceBody_split cs
  rw [hd]
  exact List.mem_append_right d h

theorem mem_of_splitFence {cs b r : List Char} (h : splitFence cs = some (b, r)) :
    (∀ c ∈ b, c ∈ cs) ∧ ∀ c ∈ r, c ∈ cs := by
  rw [splitFence_spec h]
  exact ⟨fun c hc => by simp [hc], fun c hc => by simp [hc]⟩

/-- An envelope among prose can be read: no two fences are found, or they are both in the prose, one
before the envelope and one after it. -/
def BareReadable (before json after : List Char) : Prop :=
  hasFencePair (before ++ json ++ after) = false ∨
    hasFence before = true ∧ hasFencePair before = false ∧ hasFence json = false ∧
      hasFence after = true

theorem hasFencePair_eq {cs b rest : List Char} (h : splitFence cs = some (b, rest)) :
    hasFencePair cs = hasFence rest := by
  unfold hasFencePair
  rw [h, Option.any_some]

theorem exists_body {rest : List Char} (h : hasFence rest = true) :
    ∃ body after, splitFence (fenceBody rest) = some (body, after) := by
  rw [← hasFence_fenceBody] at h
  obtain ⟨⟨body, after⟩, hbody⟩ := Option.isSome_iff_exists.1 h
  exact ⟨body, after, hbody⟩

theorem splitFence_eq_none {cs : List Char} (h : hasFence cs = false) : splitFence cs = none := by
  simpa [hasFence] using h

section Bare

variable {before after : List Char}

/-- The first fence is in the prose before the envelope. -/
theorem decodes_fence_before (hv : Json.ValidFields fields) (hl : Reads loads fields)
    (hb : NoBrackets before) (ha : NoBrackets after) {b rest : List Char}
    (hbefore : splitFence before = some (b, rest))
    (hpair : hasFencePair (before ++ (Json.obj fields).canonical ++ after) = true) :
    Decodes loads (before ++ (Json.obj fields).canonical ++ after) fields ↔
      hasFence rest = false ∧ hasFence (Json.obj fields).canonical = false := by
  have htext := splitFence_before before after fields
  rw [← List.append_assoc, hbefore] at htext
  have hrest : ∀ c ∈ fenceBody rest, c ∈ before := fun c hc =>
    (mem_of_splitFence hbefore).2 c (mem_fenceBody hc)
  have hsplit := splitFence_before (fenceBody rest) after fields
  rw [← fenceBody_before] at hsplit
  cases hclose : hasFence rest with
  | true =>
    -- so is the second one
    obtain ⟨body, r, hbody⟩ := exists_body hclose
    rw [hbody] at hsplit
    refine iff_of_false (not_decodes_prose ?_) fun h => by cases h.1
    rw [stripCodeFence_of_pair htext hsplit]
    exact hb.of_subset fun c hc => hrest c ((mem_of_splitFence hbody).1 c hc)
  | false =>
    rw [splitFence_eq_none ((hasFence_fenceBody rest).trans hclose), splitFence_after] at hsplit
    cases hjson : splitFence (Json.obj fields).canonical with
    | some q =>
      -- the second one is in the envelope
      obtain ⟨front, back⟩ := q
      rw [hjson] at hsplit
      refine iff_of_false ?_ (by simp [hasFence, hjson])
      refine not_decodes_of_cut hv hl fun pre t post hpre ht => ?_
      rw [stripCodeFence_of_pair htext hsplit] at hpre
      have hnil : NoBrackets [] := fun c hc => (List.not_mem_nil hc).elim
      obtain ⟨u, v, -, -, hfront⟩ := between_prose (hb.of_subset hrest) hnil ht
        ((List.append_nil _).trans hpre)
      refine ⟨u, v ++ [tick, tick, tick] ++ back, ?_, .inr (by simp)⟩
      rw [splitFence_spec hjson, show front = u ++ t ++ v from hfront]
      simp
    | none =>
      -- the envelope is in the fence
      rw [hjson] at hsplit
      refine iff_of_true ?_ ⟨rfl, by simp [hasFence, hjson]⟩
      rw [hasFencePair_eq htext] at hpair
      obtain ⟨body, r, hbody⟩ := exists_body hpair
      rw [hbody] at hsplit
      obtain ⟨⟨front, back⟩, hfront, hsame⟩ := Option.map_eq_some_iff.1 hsplit.symm
      obtain ⟨q, hq, hqfront⟩ := Option.map_eq_some_iff.1 hfront
      obtain ⟨rfl, rfl⟩ := Prod.mk.inj hqfront
      obtain ⟨rfl, rfl⟩ := Prod.mk.inj hsame
      refine decodes_of_intact hv hl _ _ (hb.of_subset hrest)
        (ha.of_subset (mem_of_splitFence hq).1) ?_
      rw [stripCodeFence_of_pair htext hbody, List.append_assoc]

/-- The first fence is in the envelope. -/
theorem not_decodes_fence_inside (hv : Json.ValidFields fields) (hl : Reads loads fields)
    (hb : NoBrackets before) (ha : NoBrackets after) (hbefore : splitFence before = none)
    {front back : List Char} (hjson : splitFence (Json.obj fields).canonical = some (front, back))
    (hpair : hasFencePair (before ++ (Json.obj fields).canonical ++ after) = true) :
    ¬ Decodes loads (before ++ (Json.obj fields).canonical ++ after) fields := by
  have htext := splitFence_before before after fields
  rw [← List.append_assoc, hbefore, splitFence_after, hjson] at htext
  rw [hasFencePair_eq htext] at hpair
  obtain ⟨body, r, hbody⟩ := exists_body hpair
  refine not_decodes_of_cut hv hl fun pre t post hpre ht => ?_
  rw [stripCodeFence_of_pair htext hbody] at hpre
  obtain ⟨d, hd, -⟩ := fenceBody_split (back ++ after)
  have hwhole : before ++ (Json.obj fields).canonical ++ after =
      (before ++ front ++ [tick, tick, tick] ++ d ++ pre) ++ t ++
        (post ++ [tick, tick, tick] ++ r) := by
    rw [splitFence_spec hbody, hpre] at hd
    rw [splitFence_spec hjson]
    simp only [List.append_assoc] at hd ⊢
    rw [hd]
  obtain ⟨u, v, hu, -, hc⟩ := between_prose hb ha ht hwhole
  refine ⟨u, v, hc, .inl ?_⟩
  simp only [List.append_assoc, List.append_cancel_left_eq] at hu
  rw [← hu]
  simp

/-- Both fences are in the prose after the envelope. -/
theorem not_decodes_fence_after (ha : NoBrackets after) (hbefore : splitFence before = none)
    (hjson : splitFence (Json.obj fields).canonical = none)
    (hpair : hasFencePair (before ++ (Json.obj fields).canonical ++ after) = true) :
    ¬ Decodes loads (before ++ (Json.obj fields).canonical ++ after) fields := by
  have htext := splitFence_before before after fields
  rw [← List.append_assoc, hbefore, splitFence_after, hjson] at htext
  cases hlast : splitFence after with
  | none =>
    rw [hlast] at htext
    unfold hasFencePair at hpair
    rw [htext] at hpair
    cases hpair
  | some q =>
    obtain ⟨front, back⟩ := q
    rw [hlast] at htext
    rw [hasFencePair_eq htext] at hpair
    obtain ⟨body, r, hbody⟩ := exists_body hpair
    refine not_decodes_prose ?_
    rw [stripCodeFence_of_pair htext hbody]
    exact ha.of_subset fun c hc => (mem_of_splitFence hlast).2 c
      (mem_fenceBody ((mem_of_splitFence hbody).1 c hc))

/-- The envelope among prose is read back just when it is not cut. -/
theorem decodes_bare (hv : Json.ValidFields fields) (hl : Reads loads fields)
    (hb : NoBrackets before) (ha : NoBrackets after) :
    Decodes loads (before ++ (Json.obj fields).canonical ++ after) fields ↔
      BareReadable before (Json.obj fields).canonical after := by
  cases hpair : hasFencePair (before ++ (Json.obj fields).canonical ++ after) with
  | false =>
    refine iff_of_true ?_ (.inl hpair)
    exact decodes_of_intact hv hl _ _ hb ha (stripCodeFence_of_no_pair hpair)
  | true =>
    cases hbefore : splitFence before with
    | some p =>
      rw [decodes_fence_before hv hl hb ha hbefore hpair]
      unfold BareReadable
      rw [hpair, hasFencePair_eq hbefore]
      have hfence : hasFence before = true := by simp [hasFence, hbefore]
      rw [hfence]
      simp only [Bool.true_eq_false, true_and, false_or]
      refine ⟨fun hopen => ?_, fun hopen => ⟨hopen.1, hopen.2.1⟩⟩
      obtain ⟨hrest, hjson⟩ := hopen
      refine ⟨hrest, hjson, ?_⟩
      obtain ⟨b, rest⟩ := p
      have htext := splitFence_before before after fields
      rw [← List.append_assoc, hbefore] at htext
      rw [hasFencePair_eq htext] at hpair
      unfold hasFence at hpair ⊢
      rw [splitFence_before, splitFence_eq_none hrest, splitFence_after,
        splitFence_eq_none hjson] at hpair
      simpa using hpair
    | none =>
      have hno : hasFence before = false := by simp [hasFence, hbefore]
      refine iff_of_false ?_ ?_
      · cases hjson : splitFence (Json.obj fields).canonical with
        | some q => exact not_decodes_fence_inside hv hl hb ha hbefore hjson hpair
        | none => exact not_decodes_fence_after ha hbefore hjson hpair
      · unfold BareReadable
        rw [hpair, hno]
        simp

end Bare

/-! ## In a fence -/

/-- The envelope in a JSON fence. -/
def fencedText (before json after : List Char) : List Char :=
  before ++ ("```json\n".toList ++ (json ++ ("\n```".toList ++ after)))

/-- A fence stands at the start of a line. -/
def AtLineStart (before : List Char) : Prop := ∀ c ∈ before.getLast?, c = '\n'

instance (before : List Char) : Decidable (AtLineStart before) :=
  Option.decidableForallMem (p := fun c => c = '\n') _

section Fenced

variable {before after : List Char}

theorem AtLineStart.no_tick (h : AtLineStart before) : before.getLast? ≠ some tick := fun hlast =>
  absurd (h tick hlast) (by decide)

/-- The fence of the prose before the envelope is closed by the one that opens the envelope's. -/
theorem not_decodes_fenced_prose (hb : NoBrackets before) (hline : AtLineStart before)
    {b rest : List Char} (hbefore : splitFence before = some (b, rest)) :
    ¬ Decodes loads (fencedText before (Json.obj fields).canonical after) fields := by
  have htext : splitFence (fencedText before (Json.obj fields).canonical after) = _ :=
    splitFence_append (.inl hline.no_tick)
  rw [hbefore] at htext
  have hbody : fenceBody (rest ++ ("```json\n".toList ++ ((Json.obj fields).canonical ++
      ("\n```".toList ++ after)))) = fenceBody rest ++ ("```json\n".toList ++
        ((Json.obj fields).canonical ++ ("\n```".toList ++ after))) :=
    fenceBody_append (by decide : isTagLine tick = false) _ _
  have hlast : (fenceBody rest).getLast? ≠ some tick := by
    intro hlast
    obtain ⟨d, hd, -⟩ := fenceBody_split rest
    refine hline.no_tick ?_
    rw [splitFence_spec hbefore, hd, ← List.append_assoc,
      List.getLast?_append_of_ne_nil _ (by rintro h; rw [h] at hlast; cases hlast)]
    exact hlast
  have hsplit := splitFence_append (y := "```json\n".toList ++ ((Json.obj fields).canonical ++
    ("\n```".toList ++ after))) (.inl hlast)
  rw [← hbody] at hsplit
  have hrest : ∀ c ∈ fenceBody rest, c ∈ before := fun c hc =>
    (mem_of_splitFence hbefore).2 c (mem_fenceBody hc)
  refine not_decodes_prose ?_
  cases hclose : splitFence (fenceBody rest) with
  | some q =>
    obtain ⟨body, r⟩ := q
    rw [hclose] at hsplit
    rw [stripCodeFence_of_pair htext hsplit]
    exact hb.of_subset fun c hc => hrest c ((mem_of_splitFence hclose).1 c hc)
  | none =>
    rw [hclose] at hsplit
    have hopen : splitFence ("```json\n".toList ++ ((Json.obj fields).canonical ++
        ("\n```".toList ++ after))) = some ([], "json\n".toList ++ ((Json.obj fields).canonical ++
          ("\n```".toList ++ after))) := rfl
    rw [hopen] at hsplit
    rw [stripCodeFence_of_pair htext hsplit]
    exact hb.of_subset fun c hc => hrest c (by simpa using hc)

theorem decodes_fenced (hv : Json.ValidFields fields) (hl : Reads loads fields)
    (hb : NoBrackets before) (hline : AtLineStart before) :
    Decodes loads (fencedText before (Json.obj fields).canonical after) fields ↔
      hasFence before = false ∧ hasFence (Json.obj fields).canonical = false := by
  cases hbefore : splitFence before with
  | some p =>
    obtain ⟨b, rest⟩ := p
    exact iff_of_false (not_decodes_fenced_prose hb hline hbefore) (by simp [hasFence, hbefore])
  | none =>
    have htext : splitFence (fencedText before (Json.obj fields).canonical after) = _ :=
      splitFence_append (.inl hline.no_tick)
    have hopen : splitFence ("```json\n".toList ++ ((Json.obj fields).canonical ++
        ("\n```".toList ++ after))) = some ([], "json\n".toList ++ ((Json.obj fields).canonical ++
          ("\n```".toList ++ after))) := rfl
    rw [hbefore, hopen] at htext
    have hbody : fenceBody ("json\n".toList ++ ((Json.obj fields).canonical ++
        ("\n```".toList ++ after))) = (Json.obj fields).canonical ++ ("\n```".toList ++ after) := by
      obtain ⟨inner, hc⟩ := canonical_object fields
      rw [hc]
      rfl
    have hno : hasFence before = false := by simp [hasFence, hbefore]
    have hsplit := splitFence_after ("\n```".toList ++ after) fields
    rw [← hbody] at hsplit
    cases hjson : splitFence (Json.obj fields).canonical with
    | some q =>
      -- the envelope closes the fence
      obtain ⟨front, back⟩ := q
      rw [hjson] at hsplit
      refine iff_of_false ?_ (by simp [hasFence, hjson])
      refine not_decodes_of_cut hv hl fun pre t post hpre ht => ?_
      rw [stripCodeFence_of_pair htext hsplit] at hpre
      refine ⟨pre, post ++ [tick, tick, tick] ++ back, ?_, .inr (by simp)⟩
      rw [splitFence_spec hjson, show front = pre ++ t ++ post from hpre]
      simp
    | none =>
      rw [hjson] at hsplit
      have hclose : splitFence ("\n```".toList ++ after) = some (['\n'], after) := rfl
      rw [hclose] at hsplit
      refine iff_of_true ?_ ⟨hno, by simp [hasFence, hjson]⟩
      refine decodes_of_intact hv hl [] ['\n'] ?_ ?_ ?_
      · exact fun c hc => (List.not_mem_nil hc).elim
      · intro c hc
        rw [List.mem_singleton.1 hc]
        decide
      · rw [stripCodeFence_of_pair htext hsplit]
        rfl

end Fenced

/-- The text of an envelope, among prose or in a JSON fence among prose, is read back just when no
fence cuts it. -/
theorem decodes_text (hv : Json.ValidFields fields) (hl : Reads loads fields)
    {before after : List Char} (hb : NoBrackets before) (ha : NoBrackets after) :
    (Decodes loads (before ++ (Json.obj fields).canonical ++ after) fields ↔
      BareReadable before (Json.obj fields).canonical after) ∧
    (AtLineStart before →
      (Decodes loads (fencedText before (Json.obj fields).canonical after) fields ↔
        hasFence before = false ∧ hasFence (Json.obj fields).canonical = false)) :=
  ⟨decodes_bare hv hl hb ha, fun hline => decodes_fenced hv hl hb hline⟩

/-! ### Sample envelopes -/

/-- A reader that knows the text of one envelope. -/
def loadsOnly (fields : Envelope) (cs : List Char) : Except String Json :=
  if cs = (Json.obj fields).canonical then .ok (Json.obj fields).sorted
  else .error "Expecting value: line 1 column 1 (char 0)"

theorem reads_loadsOnly (fields : Envelope) : Reads (loadsOnly fields) fields where
  reads := if_pos rfl
  ticks := by
    intro t j ht _
    unfold loadsOnly at ht
    split at ht
    · rename_i h
      obtain rfl := Except.ok.inj ht
      rw [Json.canonical_sorted, h]
    · cases ht

def plainSample : Envelope := [("message_id", .str "msg_1"), ("content", .str "done")]

theorem decodes_text_sample :
    Decodes (loadsOnly plainSample)
      ("Here it is: ".toList ++ (Json.obj plainSample).canonical ++ " Bye".toList) plainSample ∧
    Decodes (loadsOnly plainSample)
      (fencedText "Here it is:\n".toList (Json.obj plainSample).canonical "\nBye".toList)
      plainSample := by
  have hvalid : Json.ValidFields plainSample := by simp [plainSample, Json.ValidFields, Json.Valid]
  constructor
  · exact (decodes_text hvalid (reads_loadsOnly _) (by decide) (by decide)).1.2
      (.inl (by decide +kernel))
  · exact ((decodes_text hvalid (reads_loadsOnly _) (by decide) (by decide)).2 (by decide)).2
      ⟨by decide +kernel, by decide +kernel⟩

/-- A message that shows a command in a fence. -/
def fencedSample : Envelope := [("content", .str "```\nls\n```")]

/-- A message that names the fence. -/
def namedSample : Envelope := [("content", .str "end it with ```")]

/-- Alone, an envelope that has a fenced block in a string is cut; in a fence it is by one fence. -/
theorem not_decodes_fenced_string :
    ¬ Decodes (loadsOnly fencedSample) (Json.obj fencedSample).canonical fencedSample ∧
    ¬ Decodes (loadsOnly namedSample) (fencedText [] (Json.obj namedSample).canonical [])
      namedSample := by
  constructor
  · have hvalid : Json.ValidFields fencedSample := by
      simp [fencedSample, Json.ValidFields, Json.Valid]
    have hcut : ¬ BareReadable [] (Json.obj fencedSample).canonical [] := by
      unfold BareReadable
      decide +kernel
    have hbare : Decodes (loadsOnly fencedSample) ([] ++ (Json.obj fencedSample).canonical ++ [])
        fencedSample ↔ BareReadable [] (Json.obj fencedSample).canonical [] :=
      decodes_bare hvalid (reads_loadsOnly fencedSample) (by decide) (by decide)
    rw [List.nil_append, List.append_nil] at hbare
    exact fun h => hcut (hbare.1 h)
  · have hvalid : Json.ValidFields namedSample := by
      simp [namedSample, Json.ValidFields, Json.Valid]
    intro h
    have hno := (decodes_fenced hvalid (reads_loadsOnly namedSample) (by decide) (by decide)).1 h
    revert hno
    decide +kernel

end JsonTextCodec

end AgenticLocalApp
