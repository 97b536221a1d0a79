import AgenticLocalApp.Shell.Commands

/-!
# The entries of the verdict programs

An entry is normalised when it is configured and once more when the set is built, and a command line
is reduced by a rule of its own.  The three agree on the entries whose reduced program is left as it
is by each of them.
-/

namespace AgenticLocalApp

namespace Commands

/-- The characters that have no case and are the lower case of no other. -/
def isCaseless (c : Char) : Bool := isBlankChar c || isQuote c || isSeparator c || c == '-'

end Commands

/-- What the Unicode database says of lower case: it does not move what has no case, it leaves what
is in lower case as it is, and the sign of an assignment cuts a text in two. -/
structure UnicodeTable.Lowers (u : UnicodeTable) : Prop where
  ascii : ∀ text : Text, (∀ c ∈ text, c.toNat < 128) → u.lower text = text.map Char.toLower
  mem_iff : ∀ (text : Text) (c : Char), Commands.isCaseless c = true →
    (c ∈ u.lower text ↔ c ∈ text)
  head_iff : ∀ (text : Text) (c : Char), Commands.isCaseless c = true →
    ((u.lower text).head? = some c ↔ text.head? = some c)
  getLast_iff : ∀ (text : Text) (c : Char), Commands.isCaseless c = true →
    ((u.lower text).getLast? = some c ↔ text.getLast? = some c)
  part : ∀ text part : Text, part <:+: u.lower text → u.lower part = part
  cut : ∀ before after : Text,
    u.lower (before ++ '=' :: after) = u.lower before ++ '=' :: u.lower after

namespace Commands

theorem isCaseless_of_blank (c : Char) (h : isBlankChar c = true) : isCaseless c = true := by
  simp [isCaseless, h]

theorem isCaseless_of_quote (c : Char) (h : isQuote c = true) : isCaseless c = true := by
  simp [isCaseless, h]

theorem isCaseless_of_separator (c : Char) (h : isSeparator c = true) : isCaseless c = true := by
  simp [isCaseless, h]

/-- Two places that agree on the characters without case agree on what they exclude of them. -/
theorem forall_iff_of_caseless {p : Char → Bool} (hp : ∀ c, p c = true → isCaseless c = true)
    {S T : Char → Prop} (h : ∀ c, isCaseless c = true → (S c ↔ T c)) :
    (∀ c, S c → p c = false) ↔ ∀ c, T c → p c = false := by
  constructor
  · intro hS c hT
    refine Bool.eq_false_iff.2 fun hc => ?_
    exact Bool.eq_false_iff.1 (hS c ((h c (hp c hc)).2 hT)) hc
  · intro hT c hS
    refine Bool.eq_false_iff.2 fun hc => ?_
    exact Bool.eq_false_iff.1 (hT c ((h c (hp c hc)).1 hS)) hc

theorem isNameChar_bounds {c : Char} (h : isNameChar c = true) : c.toNat < 128 := by
  obtain h | h := Bool.or_eq_true_iff.1 h
  · have := isAlphanum_bounds h
    omega
  · rw [beq_iff_eq.1 h]
    decide

/-- A property of ASCII characters is checked character by character. -/
theorem forall_ascii {P : Char → Prop} (hall : ∀ n < 128, P (Char.ofNat n)) {c : Char}
    (hc : c.toNat < 128) : P c := by
  rw [← Char.ofNat_toNat c]
  exact hall c.toNat hc

section Lower

variable {u : UnicodeTable} (hu : u.Lowers)
include hu

theorem lower_nil : u.lower [] = [] := hu.ascii [] (List.forall_mem_nil _)

theorem blank_lower_iff (text : Text) :
    (∀ c ∈ u.lower text, isBlankChar c = false) ↔ ∀ c ∈ text, isBlankChar c = false :=
  forall_iff_of_caseless isCaseless_of_blank (hu.mem_iff text)

theorem separator_lower_iff (text : Text) :
    (∀ c ∈ u.lower text, isSeparator c = false) ↔ ∀ c ∈ text, isSeparator c = false :=
  forall_iff_of_caseless isCaseless_of_separator (hu.mem_iff text)

theorem quote_head_lower_iff (text : Text) :
    (∀ c, (u.lower text).head? = some c → isQuote c = false) ↔
      ∀ c, text.head? = some c → isQuote c = false :=
  forall_iff_of_caseless isCaseless_of_quote (hu.head_iff text)

theorem quote_last_lower_iff (text : Text) :
    (∀ c, (u.lower text).getLast? = some c → isQuote c = false) ↔
      ∀ c, text.getLast? = some c → isQuote c = false :=
  forall_iff_of_caseless isCaseless_of_quote (hu.getLast_iff text)

/-- The lower case of an assignment is an assignment. -/
theorem isAssignment_lower {text : Text} (h : isAssignment text = true) :
    isAssignment (u.lower text) = true := by
  obtain ⟨name, value, rfl, hstart, hname⟩ := isAssignment_iff.1 h
  have hascii : ∀ c ∈ name, c.toNat < 128 := fun c hc => isNameChar_bounds (hname c hc)
  rw [hu.cut, hu.ascii name hascii]
  refine isAssignment_iff.2 ⟨_, _, rfl, ?_, ?_⟩
  · cases name with
    | nil => cases hstart
    | cons c name =>
      exact forall_ascii (P := fun c => isNameStart c = true → isNameStart c.toLower = true)
        (by decide) (hascii c List.mem_cons_self) hstart
  · intro c hc
    obtain ⟨d, hd, rfl⟩ := List.mem_map.1 hc
    exact forall_ascii (P := fun c => isNameChar c = true → isNameChar c.toLower = true)
      (by decide) (hascii d hd) (hname d hd)

end Lower

/-! ## What an entry names -/

section Entry

variable (u : UnicodeTable) (repr : Text → String) (entry : Text)

/-- The first word of an entry. -/
def entryWord : Text := (split entry).headD []

/-- The file name of the first word. -/
def entryName : Text := fileName u (entryWord entry)

/-- The program that an entry names. -/
def entryProgram : Text := programName u (entryWord entry)

/-- The sub-command that an entry names, if it does. -/
def entryArguments : List Text := (split entry).tail.map fun word => u.lower (bare word)

variable {u} {repr} {entry} {normal : Text}

/-- An entry that is accepted, and what it is reduced to. -/
theorem normalise_cases (h : normaliseProgramEntry u repr entry = .ok normal) :
    entryProgram u entry ≠ [] ∧
      ((split entry = [entryWord entry] ∧ normal = entryProgram u entry) ∨
        ∃ second, split entry = [entryWord entry, second] ∧
          (∀ c ∈ second, isBlankChar c = false) ∧ u.lower (bare second) ≠ [] ∧
          normal = entryProgram u entry ++ ' ' :: u.lower (bare second)) := by
  unfold normaliseProgramEntry at h
  unfold entryProgram entryWord
  split at h
  · cases h
  · rename_i word hwords
    rw [hwords]
    split at h
    · cases h
    · rename_i hne
      exact ⟨hne, .inl ⟨rfl, (Except.ok.inj h).symm⟩⟩
  · rename_i word second hwords
    rw [hwords]
    split at h
    · cases h
    · rename_i hne
      split at h
      · cases h
      · rename_i hargument
        have hmem : second ∈ split entry :=
          hwords ▸ List.mem_cons_of_mem word (List.mem_singleton_self second)
        exact ⟨hne, .inr ⟨second, rfl, (mem_split hmem).2, hargument, (Except.ok.inj h).symm⟩⟩
  · cases h

/-- The entries that are left as they are by each of the rules: neither the first word nor its file
name is an assignment, the program that is left of the file name has no quote at its ends and no
suffix of its own, and the sub-command is no option. -/
structure Usable (u : UnicodeTable) (entry : Text) : Prop where
  word : isAssignment (entryWord entry) = false
  name : isAssignment (entryName u entry) = false
  head : ∀ c, (entryName u entry).head? = some c → isQuote c = false
  quote : ∀ stem c, ∀ suffix ∈ programSuffixes, entryName u entry = stem ++ c :: suffix →
    isQuote c = false
  suffix : ∀ stem, ∀ suffix ∈ programSuffixes, ∀ suffix' ∈ programSuffixes,
    entryName u entry = stem ++ suffix ++ suffix' → stem = []
  option : ∀ second ∈ (split entry).tail, (bare second).head? ≠ some '-'

/-- A program that is reduced no further. -/
structure Reduced (program : Text) : Prop where
  name : isAssignment program = false
  head : ∀ c, program.head? = some c → isQuote c = false
  last : ∀ c, program.getLast? = some c → isQuote c = false
  suffix : withoutSuffix program = program

section Lower

variable {u : UnicodeTable} (hu : u.Lowers) {entry : Text}

theorem entryWord_not_blank {c : Char} (h : c ∈ entryWord entry) : isBlankChar c = false := by
  unfold entryWord at h
  cases hwords : split entry with
  | nil =>
    rw [hwords] at h
    exact absurd h List.not_mem_nil
  | cons word words =>
    rw [hwords] at h
    exact (mem_split (hwords ▸ List.mem_cons_self)).2 c h

theorem program_start (u : UnicodeTable) (entry : Text) :
    entryProgram u entry <+: entryName u entry := withoutSuffix_start _

include hu

theorem name_last : ∀ c, (entryName u entry).getLast? = some c → isQuote c = false := by
  refine (quote_last_lower_iff hu _).2 fun c hc => ?_
  obtain ⟨before, hbefore⟩ := lastPiece_suffix (bare (entryWord entry))
  have hbare : (bare (entryWord entry)).getLast? = some c := by
    rw [← hbefore, List.getLast?_append, hc, Option.some_or]
  exact getLast?_stripChars hbare

theorem program_not_blank : ∀ c ∈ entryProgram u entry, isBlankChar c = false := by
  have hname : ∀ c ∈ entryName u entry, isBlankChar c = false :=
    (blank_lower_iff hu _).2 fun c hc =>
      entryWord_not_blank ((bare_part _).subset ((lastPiece_suffix _).subset hc))
  exact fun c hc => hname c ((program_start u entry).subset hc)

theorem program_not_separator : ∀ c ∈ entryProgram u entry, isSeparator c = false := by
  have hname : ∀ c ∈ entryName u entry, isSeparator c = false :=
    (separator_lower_iff hu _).2 fun c hc => not_mem_lastPiece hc
  exact fun c hc => hname c ((program_start u entry).subset hc)

theorem lower_program : u.lower (entryProgram u entry) = entryProgram u entry :=
  hu.part _ _ (program_start u entry).isInfix

/-- What is usable is what is reduced no further. -/
theorem usable_iff : Usable u entry ↔ isAssignment (entryWord entry) = false ∧
    Reduced (entryProgram u entry) ∧
      ∀ second ∈ (split entry).tail, (bare second).head? ≠ some '-' := by
  have hlast := @name_last u hu entry
  have hprogram : entryProgram u entry = withoutSuffix (entryName u entry) := rfl
  obtain ⟨stem, hne, suffix, hsuffix, hname, hstem⟩ | hwhole :=
    withoutSuffix_cases (entryName u entry)
  · rw [hprogram, hstem]
    have hassignment : isAssignment stem = isAssignment (entryName u entry) := by
      rw [hname, Bool.eq_iff_iff]
      exact ⟨isAssignment_append suffix,
        isAssignment_append_suffix (List.mem_cons_of_mem _ hsuffix)⟩
    have hhead : (entryName u entry).head? = stem.head? := by
      rw [hname, List.head?_append_of_ne_nil stem hne]
    constructor
    · intro h
      refine ⟨h.word, ⟨hassignment.trans h.name, fun c hc => h.head c (hhead.trans hc), ?_, ?_⟩,
        h.option⟩
      · intro c hc
        obtain ⟨before, rfl⟩ := List.getLast?_eq_some_iff.1 hc
        refine h.quote before c suffix hsuffix ?_
        rw [hname, List.append_assoc]
        rfl
      · obtain ⟨before, hbefore, suffix', hsuffix', rfl, -⟩ | hsame := withoutSuffix_cases stem
        · exact absurd (h.suffix before suffix' hsuffix' suffix hsuffix hname) hbefore
        · exact hsame
    · rintro ⟨hword, hreduced, hoption⟩
      refine ⟨hword, hassignment.symm.trans hreduced.name,
        fun c hc => hreduced.head c (hhead.symm.trans hc), ?_, ?_, hoption⟩
      · intro before c suffix' hsuffix' heq
        have hsame : suffix' = suffix :=
          @suffix_unique suffix' suffix hsuffix' hsuffix (entryName u entry)
          (heq ▸ (List.suffix_append (before ++ [c]) suffix').trans (by simp))
          (hname ▸ List.suffix_append stem suffix)
        rw [hname, hsame] at heq
        refine hreduced.last c ?_
        have hstem : stem = before ++ [c] :=
          List.append_cancel_right (heq.trans (List.append_cons before c suffix))
        rw [hstem, List.getLast?_concat]
      · intro before suffix' hsuffix' last hlast heq
        have hsame : last = suffix := @suffix_unique last suffix hlast hsuffix (entryName u entry)
          (heq ▸ List.suffix_append _ last) (hname ▸ List.suffix_append stem suffix)
        rw [hname, hsame] at heq
        have hstem : stem = before ++ suffix' := List.append_cancel_right heq
        by_contra hbefore
        have hdropped := hreduced.suffix
        rw [hstem, withoutSuffix_append hbefore hsuffix'] at hdropped
        exact ne_nil_of_suffix hsuffix' (List.self_eq_append_right.1 hdropped)
  · rw [hprogram, hwhole]
    have hcontra : ∀ before ≠ [], ∀ suffix ∈ programSuffixes,
        entryName u entry ≠ before ++ suffix := by
      intro before hbefore suffix hsuffix heq
      rw [heq, withoutSuffix_append hbefore hsuffix] at hwhole
      exact ne_nil_of_suffix hsuffix (List.self_eq_append_right.1 hwhole)
    constructor
    · intro h
      exact ⟨h.word, ⟨h.name, h.head, hlast, hwhole⟩, h.option⟩
    · rintro ⟨hword, hreduced, hoption⟩
      refine ⟨hword, hreduced.name, hreduced.head, ?_, ?_, hoption⟩
      · intro before c suffix hsuffix heq
        refine absurd ?_ (hcontra (before ++ [c]) (by simp) suffix hsuffix)
        rw [heq, List.append_assoc]
        rfl
      · intro before suffix hsuffix suffix' hsuffix' heq
        refine absurd heq (hcontra (before ++ suffix) ?_ suffix' hsuffix')
        exact List.append_ne_nil_of_right_ne_nil before (ne_nil_of_suffix hsuffix)

end Lower

end Entry

end Commands

end AgenticLocalApp
