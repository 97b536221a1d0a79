import AgenticLocalApp.Shell.CountTexts
import AgenticLocalApp.Shell.ProgramEntries

/-!
# The commands that an entry is for

An entry is used as a command when its program is the first word of a command line that is no
assignment, in any case, with a directory before it and a suffix after it, and its sub-command
follows.  Exactly the usable entries are recognised in all of these commands.
-/

namespace AgenticLocalApp

namespace Commands

/-! ## Command lines -/

structure IsPlain (word : Text) : Prop where
  ne_nil : word ≠ []
  blank : ∀ c ∈ word, isShlexBlank c = false
  head : ∀ c, word.head? = some c → isQuote c = false

/-- A command line and the words that are written in it: plain ones, and ones between two quotes. -/
inductive Written : Text → List Text → Prop
  | nil : Written [] []
  | blank {c : Char} {line : Text} {words : List Text} (hc : isShlexBlank c = true) :
    Written line words → Written (c :: line) words
  | last {word : Text} (h : IsPlain word) : Written word [word]
  | plain {word line : Text} {words : List Text} {c : Char} (h : IsPlain word)
    (hc : isShlexBlank c = true) : Written line words → Written (word ++ c :: line) (word :: words)
  | quoted {quote : Char} {text line : Text} {words : List Text} (hquote : isQuote quote = true)
    (h : quote ∉ text) (hline : ∀ c, line.head? = some c → isShlexBlank c = true) :
    Written line words →
      Written (quote :: (text ++ quote :: line)) ((quote :: text ++ [quote]) :: words)

theorem lex_inside {word : Text} (h : ∀ c ∈ word, isShlexBlank c = false) (token rest : Text) :
    lex (.inside token) (word ++ rest) = lex (.inside (token ++ word)) rest := by
  induction word generalizing token with
  | nil => rw [List.nil_append, List.append_nil]
  | cons c word ih =>
    rw [List.cons_append, lex, h c List.mem_cons_self, if_neg Bool.false_ne_true,
      ih fun d hd => h d (List.mem_cons_of_mem c hd), List.append_assoc]
    rfl

theorem lex_quoted {text : Text} {quote : Char} (h : quote ∉ text) (token rest : Text) :
    lex (.quoted quote token) (text ++ rest) = lex (.quoted quote (token ++ text)) rest := by
  induction text generalizing token with
  | nil => rw [List.nil_append, List.append_nil]
  | cons c text ih =>
    have hc : c ≠ quote := fun heq => h (heq ▸ List.mem_cons_self)
    rw [List.cons_append, lex, if_neg hc, ih fun hmem => h (List.mem_cons_of_mem c hmem),
      List.append_assoc]
    rfl

theorem lex_plain {word : Text} (h : IsPlain word) (rest : Text) :
    lex .between (word ++ rest) = lex (.inside word) rest := by
  obtain ⟨c, cs, rfl⟩ := List.exists_cons_of_ne_nil h.ne_nil
  have hblank := h.blank c List.mem_cons_self
  have hquote := h.head c rfl
  rw [List.cons_append, lex, hblank, hquote, if_neg Bool.false_ne_true, if_neg Bool.false_ne_true,
    lex_inside fun d hd => h.blank d (List.mem_cons_of_mem c hd)]
  rfl

theorem isShlexBlank_isBlankChar {c : Char} (h : isShlexBlank c = true) : isBlankChar c = true := by
  have hall : [' ', '\t', '\r', '\n'].all isBlankChar = true := by decide
  exact List.all_eq_true.1 hall c (of_decide_eq_true h)

theorem quote_not_blank {c : Char} (h : isQuote c = true) : isBlankChar c = false := by
  have hall : ['"', '\''].all (fun c => !isBlankChar c) = true := by decide
  have hmem : c ∈ ['"', '\''] := by simpa [isQuote] using h
  simpa using List.all_eq_true.1 hall c hmem

theorem quote_not_shlexBlank {c : Char} (h : isQuote c = true) : isShlexBlank c = false := by
  by_contra hblank
  rw [Bool.not_eq_false] at hblank
  have hnot := quote_not_blank h
  rw [isShlexBlank_isBlankChar hblank] at hnot
  cases hnot

theorem not_assignment_quote {quote : Char} (h : isQuote quote = true) (text : Text) :
    isAssignment (quote :: text) = false := by
  have hall : ['"', '\''].all (fun c => !isNameStart c) = true := by decide
  have hmem : quote ∈ ['"', '\''] := by simpa [isQuote] using h
  have hstart : isNameStart quote = false := by simpa using List.all_eq_true.1 hall quote hmem
  unfold isAssignment
  rw [List.head?_cons, Option.any_some, hstart, Bool.false_and]

/-- The words that are written in a line are the ones that are read. -/
theorem lex_written {line : Text} {words : List Text} (h : Written line words) :
    lex .between line = some words := by
  induction h with
  | nil => rfl
  | blank hc _ ih => rw [lex, if_pos hc, ih]
  | @last word h =>
    have hread := lex_plain h []
    rw [List.append_nil] at hread
    rw [hread, lex]
  | plain h hc _ ih => rw [lex_plain h, lex, if_pos hc, ih, Option.map_some]
  | quoted hquote h _ _ ih =>
    rw [lex, quote_not_shlexBlank hquote, if_neg Bool.false_ne_true, if_pos hquote, lex_quoted h,
      lex, if_pos rfl, ih, Option.map_some, List.singleton_append]

theorem tokens_written {line : Text} {words : List Text} (h : Written line words) :
    tokens line = words := by
  unfold tokens
  rw [lex_written h, Option.getD_some]

/-! ## Ways to write a program -/

/-- A text, or the text between quotes. -/
inductive MayQuote (text : Text) : Text → Prop
  | bare : MayQuote text text
  | quoted {quote : Char} (h : isQuote quote = true) : MayQuote text (quote :: text ++ [quote])

/-- What can stand before the name of a program. -/
structure IsDirectory (directory : Text) : Prop where
  ends : directory = [] ∨ ∃ c, directory.getLast? = some c ∧ isSeparator c = true
  not_assignment : isAssignment directory = false

/-- A word that stands for the program of an entry: the word of the entry itself, or the program in
any case, with a directory and a suffix. -/
inductive Names (u : UnicodeTable) (entry : Text) : Text → Prop
  | own : Names u entry (entryWord entry)
  | spelled {directory name suffix word : Text} (hdirectory : IsDirectory directory)
    (hsuffix : suffix ∈ [] :: programSuffixes)
    (hname : u.lower name = entryProgram u entry ++ suffix)
    (hword : MayQuote (directory ++ name) word) : Names u entry word

/-- A word that stands for a sub-command. -/
inductive Means (u : UnicodeTable) (second : Text) : Text → Prop
  | own : Means u second second
  | spelled {text word : Text} (h : u.lower text = u.lower (bare second))
    (hword : MayQuote text word) : Means u second word

/-- A command line that uses an entry. -/
def Invokes (u : UnicodeTable) (entry line : Text) : Prop :=
  ∃ assignments word arguments, Written line (assignments ++ word :: arguments) ∧
    (∀ a ∈ assignments, isAssignment a = true) ∧ Names u entry word ∧
      List.Forall₂ (Means u) (split entry).tail arguments

/-- What is promised of an entry that is reduced to `normal`. -/
structure Recognised (u : UnicodeTable) (repr : Text → String) (entry normal : Text) : Prop where
  again : normaliseProgramEntry u repr normal = .ok normal
  recognised : ∃ v, VerdictPrograms.ofEntries u repr [entry] = .ok v ∧
    ∀ line, Invokes u entry line → v.matchesCmd u (some line) = true

theorem dropWhile_isQuote_cons {quote : Char} (h : isQuote quote = true) (text : Text) :
    (quote :: text).dropWhile isQuote = text.dropWhile isQuote :=
  List.dropWhile_cons_of_pos h

/-- What is bare of a word is the end of its directory and its name. -/
theorem bare_mayQuote {directory name word : Text} (hword : MayQuote (directory ++ name) word)
    (hne : name ≠ []) (hblank : ∀ c ∈ name, isBlankChar c = false)
    (hhead : ∀ c, name.head? = some c → isQuote c = false)
    (hlast : ∀ c, name.getLast? = some c → isQuote c = false) :
    ∃ rest, rest <:+ directory ∧ bare word = rest ++ name := by
  cases hword with
  | bare =>
    have hstrip := @stripChars_append isBlankChar directory name [] hne
      (fun c hc => hblank c (List.mem_of_getLast? hc)) (List.forall_mem_nil _)
      (.inr fun c hc => hblank c (List.mem_of_head? hc))
    have hquotes := @stripChars_append isQuote (directory.dropWhile isBlankChar) name [] hne hlast
      (List.forall_mem_nil _) (.inr hhead)
    rw [List.append_nil] at hstrip hquotes
    unfold bare
    rw [hstrip, hquotes]
    exact ⟨_, (List.dropWhile_suffix _).trans (List.dropWhile_suffix _), rfl⟩
  | @quoted quote hquote =>
    have hstrip : stripChars isBlankChar (quote :: (directory ++ name) ++ [quote]) =
        quote :: (directory ++ name) ++ [quote] := by
      refine stripChars_self ?_ ?_
      · intro c hc
        rw [← Option.some.inj hc]
        exact quote_not_blank hquote
      · intro c hc
        rw [List.getLast?_concat] at hc
        rw [← Option.some.inj hc]
        exact quote_not_blank hquote
    have hquotes := @stripChars_append isQuote (quote :: directory) name [quote] hne hlast
      (fun c hc => List.mem_singleton.1 hc ▸ hquote) (.inr hhead)
    rw [List.cons_append] at hquotes
    unfold bare
    rw [hstrip, hquotes, dropWhile_isQuote_cons hquote]
    exact ⟨_, List.dropWhile_suffix _, rfl⟩

/-! ## The set that is built from an entry -/

section Built

variable {u : UnicodeTable} {repr : Text → String} {entry normal : Text}

theorem addNormal_program {program : Text} (v : VerdictPrograms) (h : ' ' ∉ program) :
    v.addNormal program = { v with programs := program :: v.programs } := by
  have hkeep : ∀ c ∈ program, decide (c ≠ ' ') = true := fun c hc =>
    decide_eq_true fun heq => h (heq ▸ hc)
  unfold VerdictPrograms.addNormal
  rw [List.takeWhile_eq_self_iff.2 hkeep, List.dropWhile_eq_nil_iff.2 hkeep]
  rfl

theorem cut_space {program : Text} (argument : Text) (h : ' ' ∉ program) :
    (program ++ ' ' :: argument).takeWhile (· ≠ ' ') = program ∧
      (program ++ ' ' :: argument).dropWhile (· ≠ ' ') = ' ' :: argument := by
  have hkeep : ∀ c ∈ program, decide (c ≠ ' ') = true := fun c hc =>
    decide_eq_true fun heq => h (heq ▸ hc)
  rw [List.takeWhile_append_of_pos hkeep, List.dropWhile_append_of_pos hkeep]
  exact ⟨List.append_nil program, rfl⟩

theorem addNormal_pair {program argument : Text} (v : VerdictPrograms) (h : ' ' ∉ program)
    (hne : argument ≠ []) :
    v.addNormal (program ++ ' ' :: argument) =
      { v with pairs := (program, argument) :: v.pairs } := by
  obtain ⟨htake, hdrop⟩ := cut_space argument h
  unfold VerdictPrograms.addNormal
  dsimp only
  rw [htake, hdrop]
  exact if_neg hne

theorem ofEntries_singleton (h : normaliseProgramEntry u repr entry = .ok normal) :
    VerdictPrograms.ofEntries u repr [entry] = .ok (VerdictPrograms.addNormal ⟨[], []⟩ normal) := by
  unfold VerdictPrograms.ofEntries
  rw [List.foldlM_cons, h]
  rfl

/-- What is recognised, once the first word that is no assignment is known. -/
theorem invoked_written {line : Text} {assignments words : List Text} {word : Text}
    (h : Written line (assignments ++ word :: words))
    (hassignments : ∀ a ∈ assignments, isAssignment a = true) (hword : isAssignment word = false) :
    invoked u (some line) =
      (programName u word, ((words.map bare).find? isArgument).map u.lower) := by
  unfold invoked
  rw [Option.getD_some, tokens_written h, List.dropWhile_append_of_pos hassignments,
    List.dropWhile_cons_of_neg (by rw [hword]; exact Bool.false_ne_true)]

end Built

section Reading

variable {u : UnicodeTable} (hu : u.Lowers) {repr : Text → String} {entry normal : Text}

/-! ## The program and the sub-command that are read -/

include hu

theorem programName_names {word : Text} (hne : entryProgram u entry ≠ [])
    (hreduced : Reduced (entryProgram u entry)) (h : Names u entry word) :
    programName u word = entryProgram u entry := by
  cases h with
  | own => rfl
  | @spelled directory name suffix _ hdirectory hsuffix hname hword =>
    have hparts : (∀ c ∈ suffix, isBlankChar c = false ∧ isSeparator c = false) ∧
        ∀ c, suffix.getLast? = some c → isQuote c = false := by
      have hall : ([] :: programSuffixes).all (fun s =>
          s.all (fun c => !isBlankChar c && !isSeparator c) && s.getLast?.all fun c => !isQuote c) =
          true := by decide
      have hsuffix := List.all_eq_true.1 hall suffix hsuffix
      rw [Bool.and_eq_true, List.all_eq_true] at hsuffix
      refine ⟨fun c hc => by simpa using hsuffix.1 c hc, fun c hc => ?_⟩
      have hlast := hsuffix.2
      rw [hc] at hlast
      simpa using hlast
    have hblank : ∀ c ∈ name, isBlankChar c = false := by
      rw [← blank_lower_iff hu, hname]
      intro c hc
      obtain hc | hc := List.mem_append.1 hc
      · exact program_not_blank hu c hc
      · exact (hparts.1 c hc).1
    have hseparator : ∀ c ∈ name, isSeparator c = false := by
      rw [← separator_lower_iff hu, hname]
      intro c hc
      obtain hc | hc := List.mem_append.1 hc
      · exact program_not_separator hu c hc
      · exact (hparts.1 c hc).2
    have hhead : ∀ c, name.head? = some c → isQuote c = false := by
      rw [← quote_head_lower_iff hu, hname, List.head?_append_of_ne_nil _ hne]
      exact hreduced.head
    have hlast : ∀ c, name.getLast? = some c → isQuote c = false := by
      rw [← quote_last_lower_iff hu, hname, List.getLast?_append]
      intro c hc
      cases hend : suffix.getLast? with
      | none =>
        rw [hend, Option.none_or] at hc
        exact hreduced.last c hc
      | some d =>
        rw [hend, Option.some_or] at hc
        exact Option.some.inj hc ▸ hparts.2 d hend
    have hnil : name ≠ [] := by
      rintro rfl
      rw [lower_nil hu] at hname
      exact List.append_ne_nil_of_left_ne_nil hne suffix hname.symm
    obtain ⟨rest, ⟨before, hrest⟩, hbare⟩ := bare_mayQuote hword hnil hblank hhead hlast
    have hends : rest = [] ∨ ∃ c, rest.getLast? = some c ∧ isSeparator c = true := by
      by_cases hempty : rest = []
      · exact .inl hempty
      · obtain heq | ⟨c, hc, hsep⟩ := hdirectory.ends
        · rw [heq] at hrest
          exact absurd (List.append_eq_nil_iff.1 hrest).2 hempty
        · rw [← hrest, List.getLast?_append_of_ne_nil _ hempty] at hc
          exact .inr ⟨c, hc, hsep⟩
    unfold programName fileName
    rw [hbare, lastPiece_append hends hseparator, hname]
    obtain rfl | hsuffix := List.mem_cons.1 hsuffix
    · rw [List.append_nil]
      exact hreduced.suffix
    · exact withoutSuffix_append hne hsuffix

theorem not_assignment_names {word : Text} (hword : isAssignment (entryWord entry) = false)
    (hreduced : Reduced (entryProgram u entry)) (h : Names u entry word) :
    isAssignment word = false := by
  cases h with
  | own => exact hword
  | @spelled directory name suffix _ hdirectory hsuffix hname hquote =>
    by_contra hassignment
    rw [Bool.not_eq_false] at hassignment
    cases hquote with
    | bare =>
      obtain rfl | ⟨c, hc, hseparator⟩ := hdirectory.ends
      · have hlower := isAssignment_lower hu hassignment
        rw [List.nil_append, hname] at hlower
        have hprogram := isAssignment_append_suffix hsuffix hlower
        rw [hreduced.name] at hprogram
        cases hprogram
      · have hpath := isAssignment_path hc hseparator hassignment
        rw [hdirectory.not_assignment] at hpath
        cases hpath
    | quoted hquote =>
      rw [List.cons_append, not_assignment_quote hquote] at hassignment
      cases hassignment

/-- A sub-command has neither blanks nor quotes at its ends. -/
theorem lower_bare_plain {second : Text} (hblank : ∀ c ∈ second, isBlankChar c = false) :
    (∀ c ∈ u.lower (bare second), isBlankChar c = false) ∧
      (∀ c, (u.lower (bare second)).head? = some c → isQuote c = false) ∧
      ∀ c, (u.lower (bare second)).getLast? = some c → isQuote c = false := by
  refine ⟨(blank_lower_iff hu _).2 ?_, (quote_head_lower_iff hu _).2 ?_,
    (quote_last_lower_iff hu _).2 ?_⟩
  · exact fun c hc => hblank c ((bare_part _).subset hc)
  · exact fun c hc => head?_stripChars hc
  · exact fun c hc => getLast?_stripChars hc

/-- A sub-command that is no option is the first argument that is read. -/
theorem argument_means {second word : Text} (hblank : ∀ c ∈ second, isBlankChar c = false)
    (hne : u.lower (bare second) ≠ []) (hoption : (bare second).head? ≠ some '-')
    (h : Means u second word) :
    isArgument (bare word) = true ∧ u.lower (bare word) = u.lower (bare second) := by
  have hbare : bare second ≠ [] := by
    intro hnil
    rw [hnil, lower_nil hu] at hne
    exact hne rfl
  cases h with
  | own =>
    refine ⟨?_, rfl⟩
    unfold isArgument
    rw [decide_eq_true hbare, Bool.true_and]
    simpa using hoption
  | @spelled text word hlower hword =>
    have htext : text ≠ [] := by
      rintro rfl
      rw [lower_nil hu] at hlower
      exact hne hlower.symm
    have hwhole : bare word = text := by
      obtain ⟨hplain, hfirst, hend⟩ := lower_bare_plain hu hblank
      rw [← hlower] at hplain hfirst hend
      obtain ⟨rest, hrest, heq⟩ := @bare_mayQuote [] text word hword htext
        ((blank_lower_iff hu text).1 hplain) ((quote_head_lower_iff hu text).1 hfirst)
        ((quote_last_lower_iff hu text).1 hend)
      rw [heq, List.suffix_nil.1 hrest, List.nil_append]
    rw [hwhole]
    refine ⟨?_, hlower⟩
    unfold isArgument
    rw [decide_eq_true htext, Bool.true_and]
    refine decide_eq_true fun hdash => hoption ?_
    have hcaseless : isCaseless '-' = true := by decide
    refine (hu.head_iff _ '-' hcaseless).1 ?_
    rw [← hlower]
    exact (hu.head_iff _ '-' hcaseless).2 hdash

theorem space_not_mem_program : ' ' ∉ entryProgram u entry := fun h => by
  have hblank := program_not_blank hu ' ' h
  rw [show isBlankChar ' ' = true by decide] at hblank
  cases hblank

/-! ## Normalising again -/

theorem programName_reduced (hreduced : Reduced (entryProgram u entry)) :
    programName u (entryProgram u entry) = entryProgram u entry := by
  have hblank := @program_not_blank u hu entry
  have hbare : bare (entryProgram u entry) = entryProgram u entry := by
    unfold bare
    rw [stripChars_self (fun c hc => hblank c (List.mem_of_head? hc))
      (fun c hc => hblank c (List.mem_of_getLast? hc)),
      stripChars_self hreduced.head hreduced.last]
  have hpiece := @lastPiece_append [] _ (.inl rfl) (@program_not_separator u hu entry)
  rw [List.nil_append] at hpiece
  unfold programName fileName
  rw [hbare, hpiece, lower_program hu, hreduced.suffix]

/-- A program that is its own program is reduced no further. -/
theorem ends_of_programName (h : programName u (entryProgram u entry) = entryProgram u entry) :
    (∀ c, (entryProgram u entry).head? = some c → isQuote c = false) ∧
      (∀ c, (entryProgram u entry).getLast? = some c → isQuote c = false) ∧
      withoutSuffix (entryProgram u entry) = entryProgram u entry := by
  have hpart : lastPiece (bare (entryProgram u entry)) <:+: entryProgram u entry :=
    (lastPiece_suffix _).isInfix.trans (bare_part _)
  have hlower : u.lower (lastPiece (bare (entryProgram u entry))) =
      lastPiece (bare (entryProgram u entry)) := by
    refine hu.part (entryProgram u entry) _ ?_
    rw [lower_program hu]
    exact hpart
  have hfile : programName u (entryProgram u entry) =
      withoutSuffix (lastPiece (bare (entryProgram u entry))) := by
    unfold programName fileName
    rw [hlower]
  rw [h] at hfile
  have hstart := withoutSuffix_start (lastPiece (bare (entryProgram u entry)))
  rw [← hfile] at hstart
  have hpiece := hpart.eq_of_length_le hstart.length_le
  have hbare := (bare_part (entryProgram u entry)).eq_of_length_le
    (hstart.length_le.trans (lastPiece_suffix _).length_le)
  rw [hpiece] at hfile
  refine ⟨fun c hc => ?_, fun c hc => ?_, hfile.symm⟩
  · rw [← hbare] at hc
    exact head?_stripChars hc
  · rw [← hbare] at hc
    exact getLast?_stripChars hc

theorem bare_lower {second : Text} (hblank : ∀ c ∈ second, isBlankChar c = false) :
    bare (u.lower (bare second)) = u.lower (bare second) := by
  obtain ⟨hplain, hhead, hlast⟩ := lower_bare_plain hu hblank
  have hblanks : stripChars isBlankChar (u.lower (bare second)) = u.lower (bare second) :=
    stripChars_self (fun c hc => hplain c (List.mem_of_head? hc))
      fun c hc => hplain c (List.mem_of_getLast? hc)
  exact (congrArg (stripChars isQuote) hblanks).trans (stripChars_self hhead hlast)

/-- An entry is left as it is if and only if its program is. -/
theorem again_iff (h : normaliseProgramEntry u repr entry = .ok normal) :
    normaliseProgramEntry u repr normal = .ok normal ↔
      programName u (entryProgram u entry) = entryProgram u entry := by
  obtain ⟨hne, ⟨-, rfl⟩ | ⟨second, hwords, hsecond, hargument, rfl⟩⟩ := normalise_cases h
  · unfold normaliseProgramEntry
    rw [split_word hne (program_not_blank hu)]
    dsimp only
    constructor
    · intro hagain
      split at hagain
      · cases hagain
      · exact Except.ok.inj hagain
    · intro hsame
      rw [hsame, if_neg hne]
  · have hlower : u.lower (u.lower (bare second)) = u.lower (bare second) :=
      hu.part _ _ List.infix_rfl
    unfold normaliseProgramEntry
    rw [split_two hne hargument (program_not_blank hu) (lower_bare_plain hu hsecond).1]
    dsimp only
    rw [bare_lower hu hsecond, hlower, if_neg hargument]
    constructor
    · intro hagain
      split at hagain
      · cases hagain
      · exact List.append_cancel_right (Except.ok.inj hagain)
    · intro hsame
      rw [hsame, if_neg hne]

/-! ## Which entries are recognised -/

theorem recognised_of_usable (h : normaliseProgramEntry u repr entry = .ok normal)
    (husable : Usable u entry) : Recognised u repr entry normal := by
  obtain ⟨hword, hreduced, hoption⟩ := (usable_iff hu).1 husable
  refine ⟨(again_iff hu h).2 (programName_reduced hu hreduced), _, ofEntries_singleton h, ?_⟩
  rintro line ⟨assignments, word, arguments, hline, hassignments, hnames, hmeans⟩
  obtain ⟨hne, hshape⟩ := normalise_cases h
  have hinvoked := @invoked_written u line _ _ _ hline hassignments
    (not_assignment_names hu hword hreduced hnames)
  rw [programName_names hu hne hreduced hnames] at hinvoked
  unfold VerdictPrograms.matchesCmd
  obtain ⟨hwords, rfl⟩ | ⟨second, hwords, hsecond, hargument, rfl⟩ := hshape
  · rw [addNormal_program _ (space_not_mem_program hu), hinvoked]
    dsimp only
    rw [if_neg hne, if_pos (List.mem_singleton_self _)]
  · rw [hwords] at hoption hmeans
    obtain ⟨written, rest, hmean, hrest, rfl⟩ := List.forall₂_cons_left_iff.1 hmeans
    obtain ⟨hfirst, hlower⟩ := argument_means hu hsecond hargument
      (hoption second (List.mem_singleton_self second)) hmean
    rw [List.map_cons, List.find?_cons_of_pos hfirst, Option.map_some, hlower] at hinvoked
    rw [addNormal_pair _ (space_not_mem_program hu) hargument, hinvoked]
    dsimp only
    rw [if_neg hne, if_neg List.not_mem_nil, Option.any_some]
    exact decide_eq_true (List.mem_singleton_self _)

/-- The answer of a command that uses a usable entry is a verdict. -/
theorem isVerdict_of_usable {line : Text} {exitCode : Int} {dialect : ShellDialect}
    {v : VerdictPrograms} (h : normaliseProgramEntry u repr entry = .ok normal)
    (hv : VerdictPrograms.ofEntries u repr [entry] = .ok v) (husable : Usable u entry)
    (hline : Invokes u entry line) (hexit : exitCode ≠ 0)
    (hran : commandNotRunReason dialect (some exitCode) = none) :
    (v.recogniser u).isVerdict (some (.ofList line)) (some exitCode) false dialect = true := by
  obtain ⟨v', hv', hmatches⟩ := (recognised_of_usable hu h husable).recognised
  rw [hv] at hv'
  obtain rfl := Except.ok.inj hv'
  unfold AgenticLocalApp.VerdictPrograms.isVerdict VerdictPrograms.recogniser
  simp [hexit, hran, hmatches line hline]

omit hu in
theorem isPlain_of_blank {word : Text} (hne : word ≠ [])
    (hblank : ∀ c ∈ word, isBlankChar c = false)
    (hhead : ∀ c, word.head? = some c → isQuote c = false) : IsPlain word := by
  refine ⟨hne, fun c hc => ?_, hhead⟩
  by_contra hshlex
  rw [Bool.not_eq_false] at hshlex
  have hnot := hblank c hc
  rw [isShlexBlank_isBlankChar hshlex] at hnot
  cases hnot

omit hu in
theorem isPlain_of_assignment {word : Text} (h : isAssignment word = true)
    (hblank : ∀ c ∈ word, isBlankChar c = false) : IsPlain word := by
  cases word with
  | nil => cases h
  | cons c word =>
    refine isPlain_of_blank (List.cons_ne_nil c word) hblank fun d hd => ?_
    obtain rfl := Option.some.inj hd
    by_contra hquote
    rw [Bool.not_eq_false] at hquote
    rw [not_assignment_quote hquote] at h
    cases h

/-- The program of an entry by itself. -/
theorem names_program : Names u entry (entryProgram u entry) := by
  have hname : u.lower (entryProgram u entry) = entryProgram u entry ++ [] := by
    rw [lower_program hu, List.append_nil]
  exact @Names.spelled u entry [] _ [] _ ⟨.inl rfl, rfl⟩ List.mem_cons_self hname .bare

/-- A plain word and the sub-command of the entry make a line. -/
theorem written_entry {word : Text} (h : normaliseProgramEntry u repr entry = .ok normal)
    (hplain : IsPlain word) : ∃ line, Written line (word :: entryArguments u entry) := by
  unfold entryArguments
  obtain ⟨-, ⟨hwords, rfl⟩ | ⟨second, hwords, hsecond, hargument, rfl⟩⟩ := normalise_cases h
  · rw [hwords]
    exact ⟨word, .last hplain⟩
  · obtain ⟨hblank, hhead, -⟩ := lower_bare_plain hu hsecond
    rw [hwords]
    exact ⟨_, .plain hplain (by decide : isShlexBlank ' ' = true)
      (.last (isPlain_of_blank hargument hblank hhead))⟩

theorem means_arguments : List.Forall₂ (Means u) (split entry).tail (entryArguments u entry) := by
  unfold entryArguments
  rw [List.forall₂_map_right_iff]
  exact List.forall₂_same.2 fun second _ =>
    .spelled (hu.part (bare second) _ List.infix_rfl) .bare

theorem invokes_of_written {line word : Text} (hnames : Names u entry word)
    (h : Written line (word :: entryArguments u entry)) : Invokes u entry line :=
  ⟨[], word, _, h, List.forall_mem_nil _, hnames, means_arguments hu⟩

/-- A word that is skipped as an assignment names no program. -/
theorem not_matches_assignment {line word : Text}
    (h : normaliseProgramEntry u repr entry = .ok normal) (hword : isAssignment word = true)
    (hline : Written line (word :: entryArguments u entry)) :
    (VerdictPrograms.addNormal ⟨[], []⟩ normal).matchesCmd u (some line) = false := by
  unfold entryArguments at hline
  unfold VerdictPrograms.matchesCmd invoked
  rw [Option.getD_some, tokens_written hline, List.dropWhile_cons_of_pos hword]
  obtain ⟨-, ⟨hwords, rfl⟩ | ⟨second, hwords, hsecond, hargument, rfl⟩⟩ := normalise_cases h
  · rw [hwords]
    rfl
  · rw [addNormal_pair _ (space_not_mem_program hu) hargument, hwords, List.tail_cons,
      List.map_singleton]
    by_cases hfirst : isAssignment (u.lower (bare second)) = true
    · rw [List.dropWhile_cons_of_pos hfirst]
      rfl
    · rw [List.dropWhile_cons_of_neg hfirst]
      simp

theorem usable_of_recognised (h : normaliseProgramEntry u repr entry = .ok normal)
    (hrecognised : Recognised u repr entry normal) : Usable u entry := by
  obtain ⟨v, hv, hmatches⟩ := hrecognised.recognised
  rw [ofEntries_singleton h] at hv
  obtain rfl := Except.ok.inj hv
  have hne := (normalise_cases h).1
  obtain ⟨hhead, hlast, hsuffix⟩ := ends_of_programName hu ((again_iff hu h).1 hrecognised.again)
  have hassignment : ∀ word, Names u entry word → (∀ c ∈ word, isBlankChar c = false) →
      isAssignment word = false := by
    intro word hnames hblank
    by_contra hword
    rw [Bool.not_eq_false] at hword
    obtain ⟨line, hline⟩ := written_entry hu h (isPlain_of_assignment hword hblank)
    have hmatch := hmatches line (invokes_of_written hu hnames hline)
    rw [not_matches_assignment hu h hword hline] at hmatch
    cases hmatch
  have hprogram := hassignment _ (names_program hu) (program_not_blank hu)
  refine (usable_iff hu).2 ⟨hassignment _ .own fun c => entryWord_not_blank,
    ⟨hprogram, hhead, hlast, hsuffix⟩, ?_⟩
  intro second hsecond hdash
  obtain ⟨-, ⟨hwords, -⟩ | ⟨second', hwords, hblank, hargument, rfl⟩⟩ := normalise_cases h
  · rw [hwords] at hsecond
    exact absurd hsecond List.not_mem_nil
  · rw [hwords] at hsecond
    obtain rfl := List.mem_singleton.1 hsecond
    obtain ⟨line, hline⟩ := written_entry hu h
      (isPlain_of_blank hne (program_not_blank hu) hhead)
    have hmatch := hmatches line (invokes_of_written hu (names_program hu) hline)
    unfold entryArguments at hline
    rw [hwords] at hline
    have hskip : isArgument (u.lower (bare second)) = false := by
      have hcaseless : isCaseless '-' = true := by decide
      unfold isArgument
      rw [(hu.head_iff _ '-' hcaseless).2 hdash]
      simp
    have hinvoked := @invoked_written u line [] _ _ hline (List.forall_mem_nil _) hprogram
    rw [List.map_map, List.tail_cons, List.map_singleton, Function.comp, bare_lower hu hblank,
      List.find?_cons_of_neg (by rw [hskip]; exact Bool.false_ne_true), List.find?_nil] at hinvoked
    unfold VerdictPrograms.matchesCmd at hmatch
    rw [addNormal_pair _ (space_not_mem_program hu) hargument, hinvoked] at hmatch
    simp at hmatch

/-- An assignment of a value in quotes, with a blank in the value. -/
def quotedAssignment (c : Char) : Text := "A=\"x ".toList ++ c :: "\" ".toList

omit hu in
theorem tokens_quotedAssignment {c : Char} (hc : c ∈ ['y', 'z']) (line : Text) :
    tokens (quotedAssignment c ++ line) = "A=\"x".toList :: [c, '"'] :: tokens line := by
  have hlex : lex .between (quotedAssignment c ++ line) =
      (lex .between line).map fun words => "A=\"x".toList :: [c, '"'] :: words := by
    have hread : lex .between (quotedAssignment c ++ line) =
        ((lex .between line).map ([c, '"'] :: ·)).map ("A=\"x".toList :: ·) := by
      obtain rfl | hc := List.mem_cons.1 hc
      · rfl
      · obtain rfl := List.mem_singleton.1 hc
        rfl
    rw [hread, Option.map_map]
    rfl
  have hsplit : split (quotedAssignment c ++ line) = "A=\"x".toList :: [c, '"'] :: split line := by
    obtain rfl | hc := List.mem_cons.1 hc
    · rfl
    · obtain rfl := List.mem_singleton.1 hc
      rfl
  unfold tokens
  rw [hlex, hsplit]
  cases lex .between line <;> rfl

/-- Behind a value in quotes that has a blank, an entry is not recognised: the blank cuts the value,
and what follows it is read as the program. -/
theorem not_matches_quotedAssignment (h : normaliseProgramEntry u repr entry = .ok normal)
    (line : Text) : ∃ c ∈ ['y', 'z'],
      (VerdictPrograms.addNormal ⟨[], []⟩ normal).matchesCmd u
        (some (quotedAssignment c ++ line)) = false := by
  obtain ⟨c, hc, hne⟩ : ∃ c ∈ ['y', 'z'], [c] ≠ entryProgram u entry := by
    by_cases hy : ['y'] = entryProgram u entry
    · exact ⟨'z', by decide, hy ▸ by decide⟩
    · exact ⟨'y', by decide, hy⟩
  obtain ⟨hascii, hpiece, hletter, hword⟩ : c.toNat < 128 ∧ lastPiece (bare [c, '"']) = [c] ∧
      withoutSuffix [c.toLower] = [c] ∧ isAssignment [c, '"'] = false := by
    obtain rfl | hc := List.mem_cons.1 hc
    · exact ⟨by decide, rfl, rfl, rfl⟩
    · obtain rfl := List.mem_singleton.1 hc
      exact ⟨by decide, rfl, rfl, rfl⟩
  have hprogram : programName u [c, '"'] = [c] := by
    unfold programName fileName
    rw [hpiece, hu.ascii [c] fun d hd => List.mem_singleton.1 hd ▸ hascii]
    exact hletter
  have hskip : isAssignment "A=\"x".toList = true := rfl
  refine ⟨c, hc, ?_⟩
  unfold VerdictPrograms.matchesCmd invoked
  rw [Option.getD_some, tokens_quotedAssignment hc, List.dropWhile_cons_of_pos hskip,
    List.dropWhile_cons_of_neg (by rw [hword]; exact Bool.false_ne_true)]
  dsimp only
  rw [hprogram]
  obtain ⟨-, ⟨-, rfl⟩ | ⟨second, -, -, hargument, rfl⟩⟩ := normalise_cases h
  · rw [addNormal_program _ (space_not_mem_program hu)]
    simp [hne]
  · rw [addNormal_pair _ (space_not_mem_program hu) hargument]
    simp [hne]

end Reading

/-- Exactly the usable entries stay as they are and are recognised in the commands they are for; and
there is no entry that is recognised behind every assignment of a value in quotes. -/
theorem entry_recognised_iff {u : UnicodeTable} (hu : u.Lowers) (repr : Text → String)
    {entry normal : Text} (h : normaliseProgramEntry u repr entry = .ok normal) :
    (Recognised u repr entry normal ↔ Usable u entry) ∧
      ∃ v, VerdictPrograms.ofEntries u repr [entry] = .ok v ∧
        ∃ c ∈ ['y', 'z'], v.matchesCmd u (some (quotedAssignment c ++ entry)) = false :=
  ⟨⟨usable_of_recognised hu h, recognised_of_usable hu h⟩, _, ofEntries_singleton h,
    not_matches_quotedAssignment hu h entry⟩

/-! ## A table of letters -/

theorem toLower_of_not_upper {c : Char} (h : c.toNat < 65 ∨ 90 < c.toNat) : c.toLower = c := by
  unfold Char.toLower
  rw [dif_neg]
  rintro ⟨hlow, hhigh⟩
  have hlow : 65 ≤ c.toNat := hlow
  have hhigh : c.toNat ≤ 90 := hhigh
  omega

theorem toLower_letter (c : Char) :
    c.toLower = c ∨ (97 ≤ c.toLower.toNat ∧ c.toLower.toNat ≤ 122) := by
  by_cases hc : c.toNat < 128
  · exact forall_ascii
      (P := fun c => c.toLower = c ∨ (97 ≤ c.toLower.toNat ∧ c.toLower.toNat ≤ 122))
      (by decide) hc
  · exact .inl (toLower_of_not_upper (by omega))

theorem toLower_toLower (c : Char) : c.toLower.toLower = c.toLower := by
  by_cases hc : c.toNat < 128
  · exact forall_ascii (P := fun c => c.toLower.toLower = c.toLower) (by decide) hc
  · have hsame : c.toLower = c := toLower_of_not_upper (by omega)
    rw [hsame, hsame]

theorem caseless_bounds {c : Char} (h : isCaseless c = true) :
    (c.toNat < 65 ∨ 90 < c.toNat) ∧ (c.toNat < 97 ∨ 122 < c.toNat) := by
  unfold isCaseless at h
  rw [Bool.or_eq_true, Bool.or_eq_true, Bool.or_eq_true] at h
  obtain ((hblank | hquote) | hseparator) | hdash := h
  · unfold isBlankChar at hblank
    simp only [Bool.or_eq_true, Bool.and_eq_true, decide_eq_true_eq] at hblank
    omega
  · obtain hquote | hquote := Bool.or_eq_true_iff.1 hquote <;> rw [beq_iff_eq.1 hquote] <;> decide
  · obtain hseparator | hseparator := Bool.or_eq_true_iff.1 hseparator <;>
      rw [beq_iff_eq.1 hseparator] <;> decide
  · rw [beq_iff_eq.1 hdash]
    decide

theorem toLower_eq_iff {c d : Char} (h : isCaseless c = true) : d.toLower = c ↔ d = c := by
  obtain ⟨hupper, hlower⟩ := caseless_bounds h
  constructor
  · rintro rfl
    obtain hsame | hletter := toLower_letter d
    · exact hsame.symm
    · omega
  · rintro rfl
    exact toLower_of_not_upper hupper

theorem superscripts_lowers : Dialects.superscripts.Lowers where
  ascii text _ := rfl
  mem_iff text c hc := by
    change c ∈ text.map Char.toLower ↔ c ∈ text
    rw [List.mem_map]
    constructor
    · rintro ⟨d, hd, hlower⟩
      exact (toLower_eq_iff hc).1 hlower ▸ hd
    · exact fun h => ⟨c, h, (toLower_eq_iff hc).2 rfl⟩
  head_iff text c hc := by
    change (text.map Char.toLower).head? = some c ↔ text.head? = some c
    cases text with
    | nil => rfl
    | cons d text =>
      rw [List.map_cons, List.head?_cons, List.head?_cons, Option.some_inj, Option.some_inj,
        toLower_eq_iff hc]
  getLast_iff text c hc := by
    change (text.map Char.toLower).getLast? = some c ↔ text.getLast? = some c
    rw [List.getLast?_map]
    cases text.getLast? with
    | none => rfl
    | some d => rw [Option.map_some, Option.some_inj, Option.some_inj, toLower_eq_iff hc]
  part text part hpart := by
    change part.map Char.toLower = part
    have hsame : ∀ c ∈ part, c.toLower = id c := fun c hc => by
      obtain ⟨d, -, rfl⟩ := List.mem_map.1 (hpart.subset hc)
      exact toLower_toLower d
    rw [List.map_congr_left hsame, List.map_id]
  cut before after := by
    change (before ++ '=' :: after).map Char.toLower = _
    rw [List.map_append]
    rfl

theorem entry_recognised_npm :
    normaliseProgramEntry Dialects.superscripts (fun _ => "") "npm  RUN".toList =
        .ok "npm run".toList ∧
      Recognised Dialects.superscripts (fun _ => "") "npm  RUN".toList "npm run".toList := by
  have hnormal : normaliseProgramEntry Dialects.superscripts (fun _ => "") "npm  RUN".toList =
      .ok "npm run".toList := rfl
  have hname : entryName Dialects.superscripts "npm  RUN".toList = "npm".toList := rfl
  have hlength : ∀ suffix ∈ programSuffixes, 3 ≤ suffix.length := by decide
  refine ⟨hnormal, (entry_recognised_iff superscripts_lowers _ hnormal).1.2
    ⟨rfl, rfl, ?_, ?_, ?_, ?_⟩⟩
  · intro c hc
    rw [hname] at hc
    exact Option.some.inj hc ▸ rfl
  · intro stem c suffix hsuffix heq
    rw [hname] at heq
    have hlong := congrArg List.length heq
    rw [List.length_append, List.length_cons, show "npm".toList.length = 3 from rfl] at hlong
    have hthree := hlength suffix hsuffix
    omega
  · intro stem suffix hsuffix suffix' hsuffix' heq
    rw [hname] at heq
    have hlong := congrArg List.length heq
    rw [List.length_append, List.length_append, show "npm".toList.length = 3 from rfl] at hlong
    have hthree := hlength suffix hsuffix
    have hthree' := hlength suffix' hsuffix'
    omega
  · intro second hsecond
    obtain rfl := List.mem_singleton.1 hsecond
    decide

/-- A program with two suffixes loses one when it is configured and the other when the set is built,
a sub-command that is an option is never read as one, and a blank in quotes cuts an assignment. -/
theorem entries_never_recognised :
    (normaliseProgramEntry Dialects.superscripts (fun _ => "") "mvn.cmd.exe".toList =
        .ok "mvn.cmd".toList ∧
      normaliseProgramEntry Dialects.superscripts (fun _ => "") "mvn.cmd".toList =
        .ok "mvn".toList ∧
      ∃ v, VerdictPrograms.ofEntries Dialects.superscripts (fun _ => "") ["mvn.cmd".toList] =
          .ok v ∧
        v.matchesCmd Dialects.superscripts (some "mvn.cmd.exe".toList) = false) ∧
    (∃ v, VerdictPrograms.ofEntries Dialects.superscripts (fun _ => "") ["npm --version".toList] =
        .ok v ∧
      v.matchesCmd Dialects.superscripts (some "npm --version".toList) = false) ∧
    ∃ v, VerdictPrograms.ofEntries Dialects.superscripts (fun _ => "") ["mvn".toList] = .ok v ∧
      v.matchesCmd Dialects.superscripts (some "mvn test".toList) = true ∧
      v.matchesCmd Dialects.superscripts (some "JAVA_OPTS=\"-Xmx1g -Xms1g\" mvn test".toList) =
        false :=
  ⟨⟨rfl, rfl, _, rfl, rfl⟩, ⟨_, rfl, rfl⟩, _, rfl, rfl, rfl⟩

end Commands

end AgenticLocalApp
