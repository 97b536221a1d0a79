import Mathlib.Data.List.TakeWhile
import AgenticLocalApp.Domain.Shell
import AgenticLocalApp.Shell.Dialects

/-!
# What a command line invokes

A command line is cut into words, its assignments are skipped, and the first word left names the
program.  The configured entries are cut in another way, and reduced by the same rule.
-/

namespace AgenticLocalApp

namespace Commands

/-! ## Words -/

/-- The blanks at which `shlex` cuts. -/
def isShlexBlank (c : Char) : Bool := c ∈ [' ', '\t', '\r', '\n']

def isQuote (c : Char) : Bool := c == '"' || c == '\''

def isSeparator (c : Char) : Bool := c == '\\' || c == '/'

/-- The word that is being read goes before the words that follow it, unless it is empty. -/
def consWord (word : Text) (words : List Text) : List Text :=
  if word = [] then words else word :: words

def splitFrom (word : Text) : Text → List Text
  | [] => consWord word []
  | c :: cs =>
    if isBlankChar c then consWord word (splitFrom [] cs) else splitFrom (word ++ [c]) cs

/-- `str.split()`. -/
def split (text : Text) : List Text := splitFrom [] text

/-- Where `shlex` is in a text. -/
inductive Lexing where
  | between
  | inside (token : Text)
  | quoted (quote : Char) (token : Text)

/-- `shlex.split` with `posix=False`: a quote counts at the start of a word only, and the word ends
with the next one; a quote that is not closed is an error. -/
def lex : Lexing → Text → Option (List Text)
  | .between, [] => some []
  | .inside token, [] => some [token]
  | .quoted _ _, [] => none
  | .between, c :: cs =>
    if isShlexBlank c then lex .between cs
    else if isQuote c then lex (.quoted c [c]) cs
    else lex (.inside [c]) cs
  | .inside token, c :: cs =>
    if isShlexBlank c then (lex .between cs).map (token :: ·) else lex (.inside (token ++ [c])) cs
  | .quoted quote token, c :: cs =>
    if c = quote then (lex .between cs).map ((token ++ [c]) :: ·)
    else lex (.quoted quote (token ++ [c])) cs

/-- `_tokens`. -/
def tokens (cmd : Text) : List Text := (lex .between cmd).getD (split cmd)

/-- `_bare`. -/
def bare (token : Text) : Text := stripChars isQuote (stripChars isBlankChar token)

/-! ## Programs -/

/-- `_PROGRAM_SUFFIXES`. -/
def programSuffixes : List Text :=
  [".exe".toList, ".cmd".toList, ".bat".toList, ".ps1".toList, ".sh".toList]

/-- `_PATH_SEPARATORS.split(text)[-1]`. -/
def lastPiece (text : Text) : Text := (text.reverse.takeWhile fun c => !isSeparator c).reverse

/-- The name without the suffix it ends with. -/
def withoutSuffix (name : Text) : Text :=
  match programSuffixes.find? fun s => s.isSuffixOf name && s.length < name.length with
  | some suffix => name.take (name.length - suffix.length)
  | none => name

def isNameStart (c : Char) : Bool := c.isAlpha || c == '_'

def isNameChar (c : Char) : Bool := c.isAlphanum || c == '_'

/-- `_ASSIGNMENT.match`. -/
def isAssignment (token : Text) : Bool :=
  token.head?.any isNameStart && (token.dropWhile isNameChar).head? == some '='

/- The lower case of a text, and `repr` of a text in a message. -/
variable (u : UnicodeTable) (repr : Text → String)

/-- The last piece of a token in lower case. -/
def fileName (token : Text) : Text := u.lower (lastPiece (bare token))

/-- `_program_name`. -/
def programName (token : Text) : Text := withoutSuffix (fileName u token)

def isArgument (word : Text) : Bool := word ≠ [] && word.head? ≠ some '-'

/-- `invoked`. -/
def invoked (cmd : Option Text) : Text × Option Text :=
  match (tokens (cmd.getD [])).dropWhile isAssignment with
  | [] => ([], none)
  | token :: rest =>
    (programName u token, (((rest.map bare).find? isArgument).map u.lower))

/-- `normalise_program_entry`. -/
def normaliseProgramEntry (entry : Text) : Except Exc Text :=
  match split entry with
  | [] => .error (.valueError "must name a program")
  | [word] =>
    if programName u word = [] then .error (.valueError (repr entry ++ ": must name a program"))
    else .ok (programName u word)
  | [word, second] =>
    if programName u word = [] then .error (.valueError (repr entry ++ ": must name a program"))
    else if u.lower (bare second) = [] then
      .error (.valueError (repr entry ++ ": must name a sub-command after the program"))
    else .ok (programName u word ++ ' ' :: u.lower (bare second))
  | _ => .error (.valueError
      (repr entry ++ ": an entry is a program, optionally followed by one sub-command"))

/-! ## The set of programs -/

/-- `VerdictPrograms`: programs, and programs with the sub-command that matters. -/
structure VerdictPrograms where
  programs : List Text
  pairs : List (Text × Text)

namespace VerdictPrograms

/-- A normalised entry is cut at its first space. -/
def addNormal (v : VerdictPrograms) (normal : Text) : VerdictPrograms :=
  let program := normal.takeWhile (· ≠ ' ')
  let argument := (normal.dropWhile (· ≠ ' ')).drop 1
  if argument = [] then { v with programs := program :: v.programs }
  else { v with pairs := (program, argument) :: v.pairs }

/-- `__init__`. -/
def ofEntries (entries : List Text) : Except Exc VerdictPrograms :=
  entries.foldlM (fun v entry => (normaliseProgramEntry u repr entry).map v.addNormal) ⟨[], []⟩

/-- `matches`. -/
def matchesCmd (v : VerdictPrograms) (cmd : Option Text) : Bool :=
  match invoked u cmd with
  | (program, argument) =>
    if program = [] then false
    else if program ∈ v.programs then true
    else argument.any fun argument => (program, argument) ∈ v.pairs

/-- The test of the command line that the collector is given. -/
def recogniser (v : VerdictPrograms) : AgenticLocalApp.VerdictPrograms :=
  ⟨fun cmd => v.matchesCmd u (cmd.map String.toList)⟩

end VerdictPrograms

/-! ## What is read in a text -/

theorem splitFrom_append {text : Text} (h : ∀ c ∈ text, isBlankChar c = false) (word rest : Text) :
    splitFrom word (text ++ rest) = splitFrom (word ++ text) rest := by
  induction text generalizing word with
  | nil => rw [List.nil_append, List.append_nil]
  | cons c text ih =>
    rw [List.cons_append, splitFrom, h c List.mem_cons_self, if_neg Bool.false_ne_true,
      ih (fun d hd => h d (List.mem_cons_of_mem c hd)), List.append_assoc]
    rfl

/-- The words of a text have neither blanks nor are they empty. -/
theorem mem_splitFrom {word text : Text} (hword : ∀ c ∈ word, isBlankChar c = false) {w : Text}
    (h : w ∈ splitFrom word text) : w ≠ [] ∧ ∀ c ∈ w, isBlankChar c = false := by
  induction text generalizing word with
  | nil =>
    unfold splitFrom consWord at h
    split at h
    · exact absurd h List.not_mem_nil
    · rename_i hne
      rw [List.mem_singleton.1 h]
      exact ⟨hne, hword⟩
  | cons c text ih =>
    unfold splitFrom at h
    split at h
    · unfold consWord at h
      split at h
      · exact ih (List.forall_mem_nil _) h
      · rename_i hne
        obtain rfl | h := List.mem_cons.1 h
        · exact ⟨hne, hword⟩
        · exact ih (List.forall_mem_nil _) h
    · rename_i hblank
      refine ih (fun d hd => ?_) h
      obtain hd | hd := List.mem_append.1 hd
      · exact hword d hd
      · rw [List.mem_singleton.1 hd]
        simpa using hblank

theorem mem_split {text w : Text} (h : w ∈ split text) :
    w ≠ [] ∧ ∀ c ∈ w, isBlankChar c = false := mem_splitFrom (List.forall_mem_nil _) h

theorem split_word {word : Text} (hne : word ≠ []) (h : ∀ c ∈ word, isBlankChar c = false) :
    split word = [word] := by
  have happend := splitFrom_append h [] []
  rw [List.append_nil, List.nil_append] at happend
  unfold split
  rw [happend, splitFrom, consWord, if_neg hne]

theorem split_two {first second : Text} (hne : first ≠ []) (hne' : second ≠ [])
    (h : ∀ c ∈ first, isBlankChar c = false) (h' : ∀ c ∈ second, isBlankChar c = false) :
    split (first ++ ' ' :: second) = [first, second] := by
  have hblank : isBlankChar ' ' = true := by decide
  have hsecond : splitFrom [] second = [second] := split_word hne' h'
  unfold split
  rw [splitFrom_append h, List.nil_append, splitFrom, if_pos hblank, hsecond, consWord, if_neg hne]

/-! ## What is stripped -/

theorem dropWhile_of_head {p : Char → Bool} {text : Text}
    (h : ∀ c, text.head? = some c → p c = false) : text.dropWhile p = text := by
  cases text with
  | nil => rfl
  | cons c text => exact List.dropWhile_cons_of_neg (by rw [h c rfl]; exact Bool.false_ne_true)

/-- What stands before a text that neither starts nor ends with a stripped character is stripped
alone. -/
theorem stripChars_append {p : Char → Bool} {before text after : Text}
    (hne : text ≠ []) (hlast : ∀ c, text.getLast? = some c → p c = false)
    (hafter : ∀ c ∈ after, p c = true)
    (hbefore : before.dropWhile p ≠ [] ∨ ∀ c, text.head? = some c → p c = false) :
    stripChars p (before ++ text ++ after) = before.dropWhile p ++ text := by
  have hfirst : (before ++ text ++ after).dropWhile p = before.dropWhile p ++ text ++ after := by
    rw [List.append_assoc, List.append_assoc]
    by_cases hdrop : before.dropWhile p = []
    · have hhead := hbefore.resolve_left fun hnot => hnot hdrop
      rw [hdrop, List.nil_append, List.dropWhile_append_of_pos (List.dropWhile_eq_nil_iff.1 hdrop)]
      obtain ⟨c, cs, rfl⟩ := List.exists_cons_of_ne_nil hne
      exact dropWhile_of_head fun d hd => hhead d hd
    · rw [List.dropWhile_append, if_neg (by simpa using hdrop)]
  unfold stripChars
  rw [hfirst, List.reverse_append, List.dropWhile_append_of_pos (by simpa using hafter)]
  rw [List.reverse_append, dropWhile_of_head, ← List.reverse_append, List.reverse_reverse]
  intro c hc
  refine hlast c ?_
  rw [← List.reverse_append, List.head?_reverse, List.getLast?_append] at hc
  obtain ⟨d, hd⟩ := List.getLast?_isSome.2 hne |> Option.isSome_iff_exists.1
  rw [hd] at hc ⊢
  simpa using hc

theorem stripChars_self {p : Char → Bool} {text : Text}
    (hhead : ∀ c, text.head? = some c → p c = false)
    (hlast : ∀ c, text.getLast? = some c → p c = false) : stripChars p text = text := by
  unfold stripChars
  rw [dropWhile_of_head hhead, dropWhile_of_head, List.reverse_reverse]
  rw [List.head?_reverse]
  exact hlast

theorem stripChars_part (p : Char → Bool) (text : Text) : stripChars p text <:+: text := by
  unfold stripChars
  refine List.IsInfix.trans ?_ (List.dropWhile_suffix p).isInfix
  rw [← List.reverse_infix, List.reverse_reverse]
  exact (List.dropWhile_suffix p).isInfix

theorem head?_stripChars {p : Char → Bool} {text : Text} {c : Char}
    (h : (stripChars p text).head? = some c) : p c = false := by
  have hprefix : stripChars p text <+: text.dropWhile p := by
    unfold stripChars
    rw [← List.reverse_suffix, List.reverse_reverse]
    exact List.dropWhile_suffix p
  obtain ⟨rest, hrest⟩ := hprefix
  have hnot := List.head?_dropWhile_not p text
  rw [← hrest, List.head?_append, h, Option.some_or] at hnot
  exact hnot

theorem getLast?_stripChars {p : Char → Bool} {text : Text} {c : Char}
    (h : (stripChars p text).getLast? = some c) : p c = false := by
  unfold stripChars at h
  rw [List.getLast?_reverse] at h
  have hnot := List.head?_dropWhile_not p (text.dropWhile p).reverse
  rw [h] at hnot
  simpa using hnot

theorem bare_part (token : Text) : bare token <:+: token :=
  (stripChars_part _ _).trans (stripChars_part _ _)

/-! ## The last piece of a path -/

theorem lastPiece_suffix (text : Text) : lastPiece text <:+ text := by
  unfold lastPiece
  rw [← List.reverse_prefix, List.reverse_reverse]
  exact List.takeWhile_prefix _

theorem not_mem_lastPiece {text : Text} {c : Char} (h : c ∈ lastPiece text) :
    isSeparator c = false := by
  unfold lastPiece at h
  simpa using List.mem_takeWhile_imp (List.mem_reverse.1 h)

/-- What follows a directory is the last piece of a path. -/
theorem lastPiece_append {directory name : Text}
    (hdirectory : directory = [] ∨ ∃ c, directory.getLast? = some c ∧ isSeparator c = true)
    (hname : ∀ c ∈ name, isSeparator c = false) : lastPiece (directory ++ name) = name := by
  have hkeep : ∀ c ∈ name.reverse, (!isSeparator c) = true := fun c hc => by
    rw [hname c (List.mem_reverse.1 hc)]
    rfl
  have hstop : directory.reverse.takeWhile (fun c => !isSeparator c) = [] := by
    obtain rfl | ⟨c, hlast, hc⟩ := hdirectory
    · rfl
    · obtain ⟨before, rfl⟩ := List.getLast?_eq_some_iff.1 hlast
      rw [List.reverse_append, List.reverse_singleton, List.singleton_append,
        List.takeWhile_cons_of_neg (by simp [hc])]
  unfold lastPiece
  rw [List.reverse_append, List.takeWhile_append_of_pos hkeep, hstop, List.append_nil,
    List.reverse_reverse]

/-! ## Suffixes -/

theorem suffix_unique {s s' : Text} (hs : s ∈ programSuffixes) (hs' : s' ∈ programSuffixes)
    {name : Text} (h : s <:+ name) (h' : s' <:+ name) : s = s' := by
  have hall : ∀ s ∈ programSuffixes, ∀ s' ∈ programSuffixes, s <:+ s' → s = s' := by decide
  obtain hsuffix | hsuffix := List.suffix_or_suffix_of_suffix h h'
  · exact hall s hs s' hs' hsuffix
  · exact (hall s' hs' s hs hsuffix).symm

theorem withoutSuffix_append {stem suffix : Text} (hne : stem ≠ [])
    (h : suffix ∈ programSuffixes) : withoutSuffix (stem ++ suffix) = stem := by
  unfold withoutSuffix
  split
  · rename_i found hfound
    have hmem := List.mem_of_find?_eq_some hfound
    have hprop := List.find?_some hfound
    rw [Bool.and_eq_true, List.isSuffixOf_iff_suffix] at hprop
    rw [suffix_unique hmem h hprop.1 (List.suffix_append stem suffix), List.length_append,
      Nat.add_sub_cancel, List.take_left]
  · rename_i hnone
    have hnot := List.find?_eq_none.1 hnone suffix h
    have hpos := List.length_pos_iff.2 hne
    refine absurd ?_ hnot
    rw [Bool.and_eq_true, List.isSuffixOf_iff_suffix, List.length_append]
    exact ⟨List.suffix_append stem suffix, decide_eq_true (by omega)⟩

/-- A name has a suffix that is dropped, or stays as it is. -/
theorem withoutSuffix_cases (name : Text) :
    (∃ stem ≠ [], ∃ suffix ∈ programSuffixes, name = stem ++ suffix ∧ withoutSuffix name = stem) ∨
      withoutSuffix name = name := by
  unfold withoutSuffix
  split
  · rename_i suffix hfound
    have hprop := List.find?_some hfound
    rw [Bool.and_eq_true, List.isSuffixOf_iff_suffix] at hprop
    obtain ⟨⟨stem, rfl⟩, hlength⟩ := hprop
    have hlt := of_decide_eq_true hlength
    rw [List.length_append] at hlt ⊢
    refine .inl ⟨stem, List.length_pos_iff.1 (by omega), suffix,
      List.mem_of_find?_eq_some hfound, rfl, ?_⟩
    rw [Nat.add_sub_cancel, List.take_left]
  · exact .inr rfl

theorem withoutSuffix_start (name : Text) : withoutSuffix name <+: name := by
  obtain ⟨stem, -, suffix, -, hname, heq⟩ | heq := withoutSuffix_cases name
  · rw [heq, hname]
    exact List.prefix_append stem suffix
  · exact ⟨[], by rw [heq, List.append_nil]⟩

theorem ne_nil_of_suffix {suffix : Text} (h : suffix ∈ programSuffixes) : suffix ≠ [] := by
  have hall : ∀ s ∈ programSuffixes, s ≠ [] := by decide
  exact hall suffix h

/-! ## Assignments -/

theorem isAssignment_iff {token : Text} : isAssignment token = true ↔ ∃ name value,
    token = name ++ '=' :: value ∧ name.head?.any isNameStart = true ∧
      ∀ c ∈ name, isNameChar c = true := by
  have hequals : isNameChar '=' = false := by decide
  constructor
  · intro h
    unfold isAssignment at h
    rw [Bool.and_eq_true, beq_iff_eq] at h
    obtain ⟨hstart, hrest⟩ := h
    obtain ⟨value, hvalue⟩ := List.head?_eq_some_iff.1 hrest
    have hsplit := List.takeWhile_append_dropWhile (p := isNameChar) (l := token)
    rw [hvalue] at hsplit
    refine ⟨token.takeWhile isNameChar, value, hsplit.symm, ?_,
      fun c hc => List.mem_takeWhile_imp hc⟩
    rw [← hsplit] at hstart
    cases hname : token.takeWhile isNameChar with
    | nil =>
      have hnot : Option.any isNameStart (some '=') = false := by decide
      rw [hname, List.nil_append, List.head?_cons, hnot] at hstart
      cases hstart
    | cons c name =>
      rw [hname] at hstart
      exact hstart
  · rintro ⟨name, value, rfl, hstart, hname⟩
    unfold isAssignment
    rw [List.dropWhile_append_of_pos hname, List.dropWhile_cons_of_neg (by simp [hequals])]
    cases name with
    | nil => cases hstart
    | cons c name =>
      rw [Bool.and_eq_true]
      exact ⟨hstart, rfl⟩

/-- A suffix makes no assignment of a name. -/
theorem isAssignment_append_suffix {stem suffix : Text}
    (hsuffix : suffix ∈ [] :: programSuffixes) (h : isAssignment (stem ++ suffix) = true) :
    isAssignment stem = true := by
  have hequals : '=' ∉ suffix := by
    have hall : ∀ s ∈ [] :: programSuffixes, '=' ∉ s := by decide
    exact hall suffix hsuffix
  obtain ⟨name, value, heq, hstart, hname⟩ := isAssignment_iff.1 h
  obtain ⟨rest, rfl, hrest⟩ | ⟨rest, rfl, hrest⟩ := List.append_eq_append_iff.1 heq
  · exact absurd (hrest ▸ List.mem_append_right rest List.mem_cons_self) hequals
  · cases rest with
    | nil =>
      rw [List.nil_append] at hrest
      exact absurd (hrest ▸ List.mem_cons_self) hequals
    | cons c rest =>
      obtain ⟨rfl, -⟩ := List.cons.inj hrest
      exact isAssignment_iff.2 ⟨name, rest, rfl, hstart, hname⟩

theorem isAssignment_append {stem : Text} (rest : Text) (h : isAssignment stem = true) :
    isAssignment (stem ++ rest) = true := by
  obtain ⟨name, value, rfl, hstart, hname⟩ := isAssignment_iff.1 h
  refine isAssignment_iff.2 ⟨name, value ++ rest, ?_, hstart, hname⟩
  rw [List.append_assoc]
  rfl

/-- A path whose directory is no assignment is none. -/
theorem isAssignment_path {directory name : Text} {c : Char}
    (hlast : directory.getLast? = some c) (hc : isSeparator c = true)
    (h : isAssignment (directory ++ name) = true) : isAssignment directory = true := by
  have hchar : isNameChar c = false := by
    have hall : ['\\', '/'].all (fun c => !isNameChar c) = true := by decide
    have hmem : c ∈ ['\\', '/'] := by simpa [isSeparator] using hc
    simpa using List.all_eq_true.1 hall c hmem
  obtain ⟨before, rfl⟩ := List.getLast?_eq_some_iff.1 hlast
  obtain ⟨ident, value, heq, hstart, hident⟩ := isAssignment_iff.1 h
  have hnot : c ∉ ident := fun hmem => by
    rw [hident c hmem] at hchar
    cases hchar
  obtain ⟨rest, rfl, -⟩ | ⟨rest, hdirectory, hrest⟩ := List.append_eq_append_iff.1 heq
  · exact absurd (List.mem_append_left rest (List.mem_append_right before
      (List.mem_singleton_self c))) hnot
  · cases rest with
    | nil =>
      rw [List.append_nil] at hdirectory
      exact absurd (hdirectory ▸ List.mem_append_right before (List.mem_singleton_self c)) hnot
    | cons d rest =>
      obtain ⟨rfl, -⟩ := List.cons.inj hrest
      exact isAssignment_iff.2 ⟨ident, rest, hdirectory, hstart, hident⟩

end Commands

end AgenticLocalApp
