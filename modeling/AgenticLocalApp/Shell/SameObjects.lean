import AgenticLocalApp.Shell.Operands
import Mathlib.Data.List.Forall2

/-!
# A translation acts on the same objects

A command line is read into simple commands, and each of them into the values of its operands and a
count of lines.  Where both shells read the quotes, the escapes and the variables of a command
alike, the rewritten command asks for the same values, whatever the variables hold.
-/

namespace AgenticLocalApp

namespace Dialects

section Requests

variable (u : UnicodeTable) (names : NameCharacters) (d : ShellDialect) (env : Text → Text)

/-- The operand values of a simple command, and its count of lines. -/
def request (words : List Text) : Option (List Text × Option Nat) :=
  (asked u d words).map fun (operands, count) => (operands.flatMap (wordValues names d env), count)

/-- What a shell asks of the programs of a command line. -/
def requests (text : Text) : Option (List (List Text × Option Nat)) :=
  (Reading.read d text).commands.mapM (request u names d env)

end Requests

/-- The commands that the two shells read alike: at every point both are within the quotes of the
scan, the blanks are blanks of the source shell, no program is named by a variable, the arguments
are written alike for both, the counts are ASCII digits, and `ls` is not asked for a path that
PowerShell takes for the drive of the environment. -/
structure ReadBoth (u : UnicodeTable) (names : NameCharacters) (source target : ShellDialect)
    (cmd : Text) : Prop where
  source_quotes : ReadAlike source cmd
  target_quotes : ReadAlike target cmd
  blanks : ∀ p c, p ++ [c] <+: cmd → p.foldl scanQuote none = none → isBlankChar c = true →
    source.isBlank c = true
  programs : ∀ words ∈ (Reading.read source cmd).commands, '$' ∉ words.headD []
  arguments : ∀ words ∈ (Reading.read source cmd).commands, ∀ w ∈ words.tail,
    alikeFrom names .bare (pieces u source w.length w) = true
  counts : ∀ segments hasVariables, scan u source cmd = .ok (segments, hasVariables) →
    ∀ segment ∈ segments, ∀ digits ∈ countTexts u source segment, digits.all Char.isDigit = true
  drives : source = .posix → ∀ segments hasVariables,
    scan u source cmd = .ok (segments, hasVariables) → ∀ segment ∈ segments,
      namedIn ["ls"] (shellName u (segment.headD [])) = true →
        ∀ w ∈ segment.tail, isEnvDrive u w = false

variable {u : UnicodeTable} {names : NameCharacters} {d source target : ShellDialect}
  {raw token : Text}

/-! ## A word and its rewriting -/

/-- A token of the scan and what the rules are given for it. -/
structure Rewritten (u : UnicodeTable) (source : ShellDialect) (raw token : Text) : Prop where
  ne_nil : raw ≠ []
  isRaw : RawToken source raw
  closed : raw.foldl scanQuote none = none
  exists_changed : ∃ changed, rewriteVariables u source raw = .ok (token, changed)

theorem Rewritten.isWord (h : Rewritten u source raw token) : IsWord source raw := by
  obtain ⟨changed, hrewrite⟩ := h.exists_changed
  have hwritten : (pieces u source raw.length raw).flatMap Piece.written = raw :=
    pieces_source le_rfl
  have hcount := @wellFormed_of_count (pieces u source raw.length raw) pieces_variable
  rw [hwritten] at hcount
  have hwell : ∀ p ∈ pieces u source raw.length raw, p.WellFormed := by
    refine hcount.2 ?_
    unfold rewriteVariables at hrewrite
    split at hrewrite
    · rename_i hdollar
      rw [List.count_eq_zero.2 hdollar] at hcount ⊢
      exact Nat.le_zero.1 hcount.1
    · dsimp only at hrewrite
      split at hrewrite
      · cases hrewrite
      · rename_i heq
        exact not_not.1 heq
  have hword := isWord_of_pieces isWriting_written hwell hwritten h.ne_nil h.isRaw h.closed
  rwa [hwritten] at hword

theorem Rewritten.eq_of_noDollar (h : Rewritten u source raw token) (hraw : '$' ∉ raw) :
    raw = token := by
  obtain ⟨changed, hrewrite⟩ := h.exists_changed
  unfold rewriteVariables at hrewrite
  rw [if_pos hraw] at hrewrite
  cases hrewrite
  rfl

/-- A rewriting keeps the first character, and the `$` of a variable. -/
theorem Rewritten.head_eq (hdialects : Translates source target) (names : NameCharacters)
    (h : Rewritten u source raw token) :
    raw.head? = token.head? ∧ ('$' ∈ raw → '$' ∈ token) := by
  have hsource : source = .posix ∨ source = .powershell := hdialects.imp And.left And.left
  obtain ⟨changed, hrewrite⟩ := h.exists_changed
  obtain ⟨hsound, hwritten, hrender⟩ := rewriteVariables_pieces hsource hrewrite
  have hhead := (@writes_written names source hsource).head_eq hsound
  have hhead' := (@writes_render names source target hdialects).head_eq hsound
  rw [hwritten] at hhead
  rw [hrender] at hhead'
  refine ⟨hhead.trans hhead'.symm, fun hdollar => ?_⟩
  rw [← hwritten] at hdollar
  obtain ⟨p, hp, hmem⟩ := List.mem_flatMap.1 hdollar
  rw [← hrender]
  refine List.mem_flatMap.2 ⟨p, hp, ?_⟩
  cases p with
  | char c =>
    have hc : '$' = c := List.mem_singleton.1 hmem
    exact absurd hc.symm (hsound _ hp)
  | reference name group next =>
    obtain ⟨body, hbody⟩ :=
      @Writes.head _ _ _ _ (@writes_render names source target hdialects) name group next
        (hsound _ hp).2.1
    rw [hbody]
    exact List.mem_cons_self

theorem Rewritten.getLast_ne (h : Rewritten u source raw token) : raw.getLast? ≠ some '\n' := by
  intro hlast
  obtain ⟨p, rfl⟩ := List.getLast?_eq_some_iff.1 hlast
  have hclosed := h.closed
  rw [List.foldl_append] at hclosed
  cases hquote : p.foldl scanQuote none with
  | none =>
    have hplain := h.isRaw.plain p '\n' (List.prefix_refl _) hquote
    exact absurd hplain (by decide)
  | some q =>
    have hq := @foldl_scanQuote p none (by simp) q hquote
    rw [hquote] at hclosed
    change (if '\n' = q then none else some q) = none at hclosed
    split at hclosed
    · rename_i heq
      rw [← heq] at hq
      exact absurd hq (by decide)
    · cases hclosed

/-! ## The source shell reads what the scan reads -/

/-- What the source shell has read, and what the scan has put together, at the end of a token. -/
structure Reached (u : UnicodeTable) (source : ShellDialect) (r : Reading) (s : ScanState) :
    Prop where
  quoting : r.quoting = .bare
  dollar : r.dollar = false
  word : r.word = []
  words : List.Forall₂ (Rewritten u source) r.words s.tokens
  commands : List.Forall₂ (List.Forall₂ (Rewritten u source)) r.commands s.segments

variable {r : Reading} {s s' : ScanState} {cmd consumed rest : Text} {quote : Option Char}

/-- The source shell reads through a token to where the scan ends it. -/
theorem Reached.endToken (h : Reached u source r s)
    (hscanning : Scanning u source source consumed none s) (hend : s.endToken u source = .ok s') :
    Reached u source (Reading.run source r s.token).endWord s' ∧ s'.token = [] ∧
      (Reading.run source r s.token).quoting = .bare := by
  unfold ScanState.endToken at hend
  split at hend
  · rename_i hnil
    cases hend
    rw [hnil, Reading.run_nil]
    refine ⟨?_, rfl, h.quoting⟩
    unfold Reading.endWord
    rw [if_pos h.word]
    exact h
  · rename_i hne
    split at hend
    · cases hend
    · rename_i rewritten changed hrewrite
      cases hend
      have hrewritten : Rewritten u source s.token rewritten :=
        ⟨hne, hscanning.raw, hscanning.token_quote, changed, hrewrite⟩
      rw [hrewritten.isWord.reads r h.quoting h.dollar h.word]
      refine ⟨?_, rfl, h.quoting⟩
      unfold Reading.endWord
      rw [if_neg hne]
      exact ⟨h.quoting, h.dollar, rfl, List.rel_append h.words (.cons hrewritten .nil), h.commands⟩

theorem Reached.endCommand {r' : Reading} (hended : r'.endWord = r) (h : Reached u source r s) :
    Reached u source r'.endCommand s.endSegment := by
  unfold Reading.endCommand ScanState.endSegment
  dsimp only
  rw [hended]
  by_cases hnil : s.tokens = []
  · have hwords : r.words = [] := by
      have hforall := h.words
      rw [hnil] at hforall
      exact List.forall₂_nil_right_iff.1 hforall
    rw [if_pos hwords, if_pos hnil]
    exact h
  · have hwords : r.words ≠ [] := by
      intro hwords
      have hforall := h.words
      rw [hwords] at hforall
      exact hnil (List.forall₂_nil_left_iff.1 hforall)
    rw [if_neg hwords, if_neg hnil]
    exact ⟨h.quoting, h.dollar, h.word, .nil, List.rel_append h.commands (.cons h.words .nil)⟩

theorem step_isBlank {c : Char} (hd : d = .posix ∨ d = .powershell) (hbare : r.quoting = .bare)
    (hblank : d.isBlank c = true) (hisBlank : isBlankChar c = true) (hline : c ≠ '\n') :
    Reading.step d r c = r.endWord := by
  have hquote : d.quoteStep .bare c = .bare := by
    have hinert : d.isSingleQuote c = false ∧ d.isDoubleQuote c = false := by
      unfold ShellDialect.isSingleQuote ShellDialect.isDoubleQuote
      refine ⟨?_, ?_⟩
      all_goals
        rw [← Bool.not_eq_true]
        simp only [Bool.or_eq_true, beq_iff_eq, Bool.and_eq_true, List.contains_eq_mem,
          decide_eq_true_eq, List.mem_cons, List.not_mem_nil, or_false]
        rintro (rfl | ⟨-, hc⟩)
        · cases hisBlank
        · rcases hc with rfl | rfl | rfl | rfl <;> cases hisBlank
    simp [ShellDialect.quoteStep, hinert.1, hinert.2]
  have hescape : c ≠ d.escapeChar := by
    rintro rfl
    obtain rfl | rfl := hd <;> cases hisBlank
  have hoperator : d.isOperator c = false := by
    unfold ShellDialect.isOperator
    rw [← Bool.not_eq_true]
    simp only [Bool.or_eq_true, beq_iff_eq, Bool.and_eq_true, List.contains_eq_mem,
      decide_eq_true_eq, List.mem_cons, List.not_mem_nil, or_false]
    rintro ((rfl | rfl | rfl | rfl | rfl | rfl) | ⟨-, rfl⟩) <;> cases hisBlank
  have hsemicolon : c ≠ ';' := by
    rintro rfl
    cases hisBlank
  unfold Reading.step
  rw [hbare]
  dsimp only
  rw [if_neg (not_not_intro hquote), if_neg hescape, if_neg (by simp [hoperator]),
    if_neg (not_or.2 ⟨hsemicolon, hline⟩), if_pos hblank]

/-- The reading of the source shell beside the scan. -/
def ReadingBeside (u : UnicodeTable) (source : ShellDialect) (cmd rest : Text)
    (quote : Option Char) (s : ScanState) : Prop :=
  ScanningOf u source source cmd rest quote s ∧ ∃ r, Reached u source r s ∧
    Reading.run source {} cmd = Reading.run source r (s.token ++ rest)

theorem ReadingBeside.push {c : Char} (halike : ReadAlike source cmd)
    (h : ReadingBeside u source cmd (c :: rest) quote s)
    (hplain : quote = none → c = '"' ∨ c = '\'' ∨ isPlain c = true) :
    ReadingBeside u source cmd rest (scanQuote quote c) (s.push c) := by
  obtain ⟨hscanning, r, hreached, hrun⟩ := h
  refine ⟨hscanning.push halike hplain, r, ?_, ?_⟩
  · exact ⟨hreached.quoting, hreached.dollar, hreached.word, hreached.words, hreached.commands⟩
  · rw [hrun, List.append_cons]
    rfl

theorem ReadingBeside.blank {c : Char} (hsource : source = .posix ∨ source = .powershell)
    (halike : ReadAlike source cmd)
    (hblanks : ∀ p c, p ++ [c] <+: cmd → p.foldl scanQuote none = none → isBlankChar c = true →
      source.isBlank c = true)
    (hisBlank : isBlankChar c = true) (hline : c ≠ '\n') (hc : ¬ (c = '"' ∨ c = '\''))
    (h : ReadingBeside u source cmd (c :: rest) none s) (hend : s.endToken u source = .ok s') :
    ReadingBeside u source cmd rest none s' := by
  obtain ⟨hscanning, r, hreached, hrun⟩ := h
  obtain ⟨consumed, hcmd, hat⟩ := id hscanning
  obtain ⟨hreached', htoken, hbare⟩ := hreached.endToken hat hend
  have hblank : source.isBlank c = true :=
    hblanks consumed c ⟨rest, by rw [hcmd]; simp⟩ hat.consumed_quote hisBlank
  refine ⟨hscanning.blank halike hc hend, _, hreached', ?_⟩
  rw [hrun, Reading.run_append, Reading.run_cons, step_isBlank hsource hbare hblank hisBlank hline,
    htoken, List.nil_append]

theorem ReadingBeside.semicolon (halike : ReadAlike source cmd)
    (h : ReadingBeside u source cmd (';' :: rest) none s) (hend : s.endToken u source = .ok s') :
    ReadingBeside u source cmd rest none s'.endSegment := by
  obtain ⟨hscanning, r, hreached, hrun⟩ := h
  obtain ⟨consumed, hcmd, hat⟩ := id hscanning
  obtain ⟨hreached', htoken, hbare⟩ := hreached.endToken hat hend
  refine ⟨hscanning.semicolon halike hend, _, hreached'.endCommand rfl, ?_⟩
  rw [hrun, Reading.run_append, Reading.run_cons, Reading.step_semicolon hbare, endSegment_token,
    htoken, List.nil_append]

/-- The simple commands that the source shell reads are those of the scan, before their variables
are rewritten. -/
theorem scan_read {segments : List (List Text)} {hasVariables : Bool}
    (hsource : source = .posix ∨ source = .powershell) (halike : ReadAlike source cmd)
    (hblanks : ∀ p c, p ++ [c] <+: cmd → p.foldl scanQuote none = none → isBlankChar c = true →
      source.isBlank c = true)
    (h : scan u source cmd = .ok (segments, hasVariables)) :
    List.Forall₂ (List.Forall₂ (Rewritten u source)) (Reading.read source cmd).commands
      segments := by
  have hstart : ReadingBeside u source cmd cmd none {} :=
    ⟨⟨[], rfl, scanning_start⟩, {}, ⟨rfl, rfl, rfl, .nil, .nil⟩, rfl⟩
  obtain ⟨s, s', ⟨⟨consumed, -, hat⟩, r, hreached, hrun⟩, hend, rfl⟩ :=
    scanFrom_rule (ReadingBeside.push halike)
      (fun hisBlank hline hc => ReadingBeside.blank hsource halike hblanks hisBlank hline hc)
      (ReadingBeside.semicolon halike) hstart (fun hpos => absurd hpos (Nat.lt_irrefl 0)) h
  obtain ⟨hreached', -, -⟩ := hreached.endToken hat hend
  unfold Reading.read
  rw [hrun, List.append_nil]
  exact (hreached'.endCommand rfl).commands

/-! ## The operands of a command and of its rewriting -/

/-- A word with a variable is an option or an operand, whatever the program. -/
structure SeesDash (form : Text → ArgumentForm) : Prop where
  eq : ∀ word, '$' ∈ word → form word = if startsWithDash word then .flag else .operand

theorem isOption_of_dollar {word : Text} (h : '$' ∈ word) :
    isOption word = startsWithDash word := by
  unfold isOption
  cases hdash : startsWithDash word with
  | false => rfl
  | true =>
    cases word with
    | nil => cases h
    | cons c rest =>
      cases rest with
      | nil =>
        rw [← List.mem_singleton.1 h] at hdash
        exact absurd hdash (by decide)
      | cons c' rest => simp

theorem seesDash_plain : SeesDash plainForm where
  eq word h := by
    unfold plainForm
    rw [isOption_of_dollar h]

theorem decimalValue_dollar {digits : Text} (h : '$' ∈ digits) : decimalValue digits = none := by
  unfold decimalValue
  rw [if_neg]
  rintro ⟨-, hall⟩
  exact absurd (List.all_eq_true.1 hall '$' h) (by decide)

theorem seesDash_lines : SeesDash linesForm where
  eq word h := by
    unfold linesForm countForm
    split
    · exact absurd h (by decide)
    · rename_i digits _
      have hdigits : '$' ∈ digits := by simpa using h
      rw [decimalValue_dollar hdigits]
      rfl
    · rename_i c digits _ _
      have hdigits : '$' ∈ c :: digits := by simpa using h
      rw [decimalValue_dollar hdigits]
      rfl
    · rename_i hnil hn hc
      rw [if_neg]
      intro hdash
      cases word with
      | nil => cases h
      | cons c rest =>
        obtain rfl : c = '-' := by simpa [startsWithDash] using hdash
        cases rest with
        | nil => exact absurd h (by decide)
        | cons c' rest => exact hc c' rest rfl

theorem lower_ne_of_dollar (hascii : u.Ascii) {word : Text} {name : String} (h : '$' ∈ word)
    (hname : '$' ∉ name.toList) : ¬ name.toList = u.lower word := by
  intro heq
  rw [heq] at hname
  exact hname (hascii.mem_lower word '$' h (by decide))

theorem seesDash_content (hascii : u.Ascii) : SeesDash (contentForm u) where
  eq word h := by
    have hmode : contentMode u word = none := by
      unfold contentMode
      rw [if_neg, if_neg]
      all_goals
        rw [namedIn_iff]
        simp only [List.exists_mem_cons_iff, List.not_mem_nil, false_and, exists_false, or_false,
          not_or]
      · exact ⟨lower_ne_of_dollar hascii h (by decide), lower_ne_of_dollar hascii h (by decide)⟩
      · exact ⟨lower_ne_of_dollar hascii h (by decide), lower_ne_of_dollar hascii h (by decide),
          lower_ne_of_dollar hascii h (by decide)⟩
    unfold contentForm
    rw [hmode]
    exact seesDash_plain.eq word h

theorem mem_rstripChars {p : Char → Bool} {text : Text} {c : Char} (h : c ∈ text)
    (hc : p c = false) : c ∈ rstripChars p text := by
  unfold rstripChars
  rw [List.mem_reverse]
  have hmem : c ∈ text.reverse.takeWhile p ++ text.reverse.dropWhile p := by
    rwa [List.takeWhile_append_dropWhile, List.mem_reverse]
  obtain htake | hdrop := List.mem_append.1 hmem
  · rw [List.mem_takeWhile_imp htake] at hc
    cases hc
  · exact hdrop

theorem seesDash_list (hascii : u.Ascii) : SeesDash (listForm u) where
  eq word h := by
    have hdrive : isEnvDrive u word = false := by
      unfold isEnvDrive
      rw [beq_eq_false_iff_ne]
      intro heq
      have hdollar : '$' ∈ "env:".toList := by
        rw [← heq]
        exact mem_rstripChars (hascii.mem_lower word '$' h (by decide)) (by decide)
      exact absurd hdollar (by decide)
    unfold listForm
    rw [hdrive]
    exact seesDash_plain.eq word h

theorem seesDash_argumentForm (hascii : u.Ascii) (program : Text) :
    SeesDash (argumentForm u d program) := by
  unfold argumentForm
  split
  · split
    · exact seesDash_lines
    · exact seesDash_plain
  · split
    · exact seesDash_content hascii
    · split
      · exact seesDash_list hascii
      · exact seesDash_plain

/-- A program takes a word and its rewriting for the same. -/
theorem Rewritten.form_eq (hdialects : Translates source target) (names : NameCharacters)
    {form : Text → ArgumentForm} (hform : SeesDash form) (h : Rewritten u source raw token) :
    form raw = form token := by
  by_cases hdollar : '$' ∈ raw
  · obtain ⟨hhead, hkept⟩ := h.head_eq hdialects names
    rw [hform.eq raw hdollar, hform.eq token (hkept hdollar)]
    unfold startsWithDash
    rw [hhead]
  · rw [h.eq_of_noDollar hdollar]

theorem Rewritten.eq_of_decimal (hdialects : Translates source target) (names : NameCharacters)
    {n : Nat} (h : Rewritten u source raw token) (hn : decimalValue token = some n) :
    raw = token := by
  refine h.eq_of_noDollar fun hdollar => ?_
  rw [decimalValue_dollar ((h.head_eq hdialects names).2 hdollar)] at hn
  cases hn

/-- What a program gathers from rewritten arguments it gathers from the arguments. -/
theorem gather_rewritten (hdialects : Translates source target) (names : NameCharacters)
    {R : Text → Text → Prop} (hR : ∀ raw token, R raw token → Rewritten u source raw token)
    {form : Text → ArgumentForm} (hform : SeesDash form) {count count' : Option Nat}
    {raws tokens rawOperands operands operands' : List Text}
    (hargs : List.Forall₂ R raws tokens)
    (hoperands : List.Forall₂ R rawOperands operands)
    (h : gather form count operands tokens = some (operands', count')) :
    ∃ rawOperands', gather form count rawOperands raws = some (rawOperands', count') ∧
      List.Forall₂ R rawOperands' operands' := by
  fun_induction gather form count operands tokens generalizing raws rawOperands with
  | case1 count operands =>
    cases h
    cases hargs
    exact ⟨rawOperands, rfl, hoperands⟩
  | case2 count operands token tokens hword ih =>
    obtain ⟨raw, raws, hraw, hraws, rfl⟩ := List.forall₂_cons_right_iff.1 hargs
    unfold gather
    rw [(hR _ _ hraw).form_eq hdialects names hform, hword]
    exact ih hraws (List.rel_append hoperands (.cons hraw .nil)) h
  | case3 count operands token tokens hword ih =>
    obtain ⟨raw, raws, hraw, hraws, rfl⟩ := List.forall₂_cons_right_iff.1 hargs
    unfold gather
    rw [(hR _ _ hraw).form_eq hdialects names hform, hword]
    exact ih hraws hoperands h
  | case4 count operands token tokens n hword ih =>
    obtain ⟨raw, raws, hraw, hraws, rfl⟩ := List.forall₂_cons_right_iff.1 hargs
    unfold gather
    rw [(hR _ _ hraw).form_eq hdialects names hform, hword]
    exact ih hraws hoperands h
  | case5 => cases h
  | case6 count operands token hword digits tokens n hn ih =>
    obtain ⟨raw, raws, hraw, hraws, rfl⟩ := List.forall₂_cons_right_iff.1 hargs
    obtain ⟨rawDigits, raws', hdigits, hraws', rfl⟩ := List.forall₂_cons_right_iff.1 hraws
    unfold gather
    rw [(hR _ _ hraw).form_eq hdialects names hform, hword,
      (hR _ _ hdigits).eq_of_decimal hdialects names hn]
    dsimp only
    rw [hn]
    exact ih hraws' hoperands h
  | case7 => cases h

/-! ## The same objects -/

/-- An argument that is written alike for both shells, and what the rules are given for it. -/
structure SameWord (u : UnicodeTable) (names : NameCharacters) (source : ShellDialect)
    (raw token : Text) : Prop where
  rewritten : Rewritten u source raw token
  alike : alikeFrom names .bare (pieces u source raw.length raw) = true

theorem sameWords_values (hdialects : Translates source target) (env : Text → Text)
    {raws tokens : List Text} (h : List.Forall₂ (SameWord u names source) raws tokens) :
    raws.flatMap (wordValues names source env) = tokens.flatMap (wordValues names target env) := by
  induction h with
  | nil => rfl
  | @cons raw token raws tokens hword _ ih =>
    obtain ⟨changed, hrewrite⟩ := hword.rewritten.exists_changed
    obtain ⟨value, hsource, htarget⟩ := wordValues_rewritten hdialects hrewrite
      hword.rewritten.ne_nil hword.alike env
    rw [List.flatMap_cons, List.flatMap_cons, hsource, htarget, ih]

theorem exists_raw_of_mem {raws tokens : List Text}
    (h : List.Forall₂ (Rewritten u source) raws tokens) :
    ∀ t ∈ tokens, ∃ raw, Rewritten u source raw t := by
  induction h with
  | nil => exact fun t ht => absurd ht List.not_mem_nil
  | cons hword _ ih => exact List.forall_mem_cons.2 ⟨⟨_, hword⟩, ih⟩

theorem sameWords_of {raws tokens : List Text}
    (h : List.Forall₂ (Rewritten u source) raws tokens)
    (halike : ∀ w ∈ raws, alikeFrom names .bare (pieces u source w.length w) = true) :
    List.Forall₂ (SameWord u names source) raws tokens := by
  induction h with
  | nil => exact .nil
  | cons hword _ ih =>
    rw [List.forall_mem_cons] at halike
    exact .cons ⟨hword, halike.1⟩ (ih halike.2)

/-- A simple command and the command that a rule makes of it ask for the same values. -/
theorem request_eq (hascii : u.Ascii) (hdialects : Translates source target) (env : Text → Text)
    {raws segment out : List Text} {ruleId : String} (hne : segment ≠ [])
    (hraws : List.Forall₂ (Rewritten u source) raws segment) (hprogram : '$' ∉ raws.headD [])
    (halike : ∀ w ∈ raws.tail, alikeFrom names .bare (pieces u source w.length w) = true)
    (hdigits : ∀ digits ∈ countTexts u source segment, digits.all Char.isDigit = true)
    (hdrive : source = .posix → namedIn ["ls"] (shellName u (segment.headD [])) = true →
      ∀ w ∈ segment.tail, isEnvDrive u w = false)
    (h : translateSegment u u.int source segment = .ok (.translated out ruleId)) :
    ∃ v, request u names source env raws = some v ∧ request u names target env out = some v := by
  obtain ⟨first, args, rfl⟩ := List.exists_cons_of_ne_nil hne
  obtain ⟨rawFirst, rawArgs, hfirst, hargs, rfl⟩ := List.forall₂_cons_right_iff.1 hraws
  have hsame : rawFirst = first := hfirst.eq_of_noDollar hprogram
  have hline : ∀ t ∈ args, '$' ∉ t → t.getLast? ≠ some '\n' := by
    intro t ht hdollar
    obtain ⟨raw, hraw⟩ := exists_raw_of_mem hargs t ht
    have hnot : '$' ∉ raw := fun hmem => hdollar ((hraw.head_eq hdialects names).2 hmem)
    rw [← hraw.eq_of_noDollar hnot]
    exact hraw.getLast_ne
  obtain ⟨operands, count, hsource, htarget⟩ :=
    translateSegment_carries hascii hdialects hdigits hdrive hline h
  have hwords : List.Forall₂ (SameWord u names source) rawArgs args :=
    sameWords_of hargs halike
  obtain ⟨rawOperands, hgather, hoperands⟩ := gather_rewritten hdialects names
    (fun raw token hword => hword.rewritten) (seesDash_argumentForm hascii (shellName u first))
    hwords .nil hsource
  refine ⟨(operands.flatMap (wordValues names target env), count), ?_, ?_⟩
  · unfold request asked
    dsimp only
    rw [hsame, hgather, Option.map_some, sameWords_values hdialects env hoperands]
  · unfold request
    rw [htarget]
    rfl

/-- One simple command after the other. -/
theorem requests_eq (hascii : u.Ascii) (hdialects : Translates source target) (env : Text → Text)
    {raws segments outs : List (List Text)}
    (hraws : List.Forall₂ (List.Forall₂ (Rewritten u source)) raws segments)
    (houts : List.Forall₂ (fun segment out => ∃ ruleId,
      translateSegment u u.int source segment = .ok (.translated out ruleId)) segments outs)
    (hne : ∀ segment ∈ segments, segment ≠ [])
    (hprograms : ∀ words ∈ raws, '$' ∉ words.headD [])
    (halike : ∀ words ∈ raws, ∀ w ∈ words.tail,
      alikeFrom names .bare (pieces u source w.length w) = true)
    (hdigits : ∀ segment ∈ segments, ∀ digits ∈ countTexts u source segment,
      digits.all Char.isDigit = true)
    (hdrives : ∀ segment ∈ segments, source = .posix →
      namedIn ["ls"] (shellName u (segment.headD [])) = true →
        ∀ w ∈ segment.tail, isEnvDrive u w = false) :
    ∃ rs, raws.mapM (request u names source env) = some rs ∧
      outs.mapM (request u names target env) = some rs := by
  induction hraws generalizing outs with
  | nil =>
    cases houts
    exact ⟨[], rfl, rfl⟩
  | @cons raw segment raws segments hraw _ ih =>
    obtain ⟨out, outs, ⟨ruleId, hsegment⟩, hrest, rfl⟩ := List.forall₂_cons_left_iff.1 houts
    rw [List.forall_mem_cons] at hne hprograms halike hdigits hdrives
    obtain ⟨v, hsource, htarget⟩ := request_eq hascii hdialects env hne.1 hraw hprograms.1
      halike.1 hdigits.1 hdrives.1 hsegment
    obtain ⟨rs, hsources, htargets⟩ :=
      ih hrest hne.2 hprograms.2 halike.2 hdigits.2 hdrives.2
    refine ⟨v :: rs, ?_, ?_⟩
    · rw [List.mapM_cons, hsource, hsources]
      rfl
    · rw [List.mapM_cons, htarget, htargets]
      rfl

theorem translates_sourceDialectFor (h : target = .posix ∨ target = .powershell) :
    Translates (sourceDialectFor target) target := by
  obtain rfl | rfl := h
  · exact .inr ⟨rfl, rfl⟩
  · exact .inl ⟨rfl, rfl⟩

/-- A table of the characters of names without those outside ASCII. -/
def asciiNames : NameCharacters where
  isNameChar c := c.isAlphanum || c == '_' || c == '?'
  isNameChar_ascii _ _ := rfl

theorem toLower_eq_dash {c : Char} (h : c.toLower = '-') : c = '-' := by
  unfold Char.toLower at h
  split at h
  · rename_i hupper
    have hval : c.val + 32 = 45 := congrArg Char.val h
    have hnat := congrArg UInt32.toNat hval
    have hlow : 65 ≤ c.val.toNat := UInt32.le_iff_toNat_le.1 hupper.1
    have hhigh : c.val.toNat ≤ 90 := UInt32.le_iff_toNat_le.1 hupper.2
    rw [UInt32.toNat_add] at hnat
    change (c.val.toNat + 32) % 4294967296 = 45 at hnat
    omega
  · exact h

theorem superscripts_ascii : superscripts.Ascii where
  decimal _ h := if_pos h
  lower _ _ := rfl
  mem_lower _ _ h _ := List.mem_map_of_mem h
  lower_head text h := by
    change (text.map Char.toLower).head? = some '-' at h
    rw [List.head?_map, Option.map_eq_some_iff] at h
    obtain ⟨c, hc, hdash⟩ := h
    rw [hc, toLower_eq_dash hdash]

/-- A rewritten command that both shells read alike asks for the operand values and the counts that
the original asks for, whatever the environment variables hold. -/
theorem translate_same_operands (hascii : u.Ascii) {enabled : Bool} {cmd : String}
    {t : CommandTranslation} (h : translate u target enabled (some cmd) = .ok (some t))
    (htranslated : t.translated = true)
    (hboth : ReadBoth u names (sourceDialectFor target) target cmd.toList) (env : Text → Text) :
    ∃ rs, requests u names t.source env t.original.toList = some rs ∧
      requests u names t.target env t.executed.toList = some rs := by
  obtain ⟨htarget, hsource, htargets, horiginal, segments, hasVariables, outs, hscan, houts,
    hexecuted⟩ := translated_spec h htranslated
  have hdialects := translates_sourceDialectFor htarget
  have hsources : sourceDialectFor target = .posix ∨ sourceDialectFor target = .powershell :=
    hdialects.imp And.left And.left
  have hraws := scan_read hsources hboth.source_quotes hboth.blanks hscan
  have hscanned := scan_spec hboth.target_quotes hscan
  have hread := (read_emitted hscanned (outs_emit htarget houts)).2
  obtain ⟨rs, hrs, hrs'⟩ := requests_eq hascii hdialects env hraws houts
    (fun segment hsegment => (hscanned segment hsegment).1) hboth.programs hboth.arguments
    (hboth.counts segments hasVariables hscan)
    (fun segment hsegment hposix =>
      hboth.drives hposix segments hasVariables hscan segment hsegment)
  refine ⟨rs, ?_, ?_⟩
  · unfold requests
    rw [hsource, horiginal]
    exact hrs
  · unfold requests
    rw [htargets, hexecuted, hread]
    exact hrs'

/-- A file that is named by a variable within double quotes. -/
theorem quoted_variable_same :
    ∃ rs, requests superscripts asciiNames .posix (fun _ => "a b".toList) "cat \"$X\"".toList =
        some rs ∧
      requests superscripts asciiNames .powershell (fun _ => "a b".toList)
        "Get-Content \"$env:X\"".toList = some rs := by
  have hblank : isBlank "cat \"$X\"" = false := rfl
  have hrecognises :
      recognises superscripts superscripts.int .posix "cat \"$X\"".toList = true := rfl
  have hscan : scan superscripts .posix "cat \"$X\"".toList =
      .ok ([["cat".toList, "\"$env:X\"".toList]], true) := rfl
  have hsegment : translateSegment superscripts superscripts.int .posix
      ["cat".toList, "\"$env:X\"".toList] =
      .ok (.translated ["Get-Content".toList, "\"$env:X\"".toList] "print-file") := rfl
  have htranslate : translate superscripts .powershell true (some "cat \"$X\"") =
      .ok (some ⟨.posix, .powershell, "cat \"$X\"", "Get-Content \"$env:X\"",
        ["environment-variable", "print-file"], none⟩) := by
    unfold translate
    rw [translateWith_scanned (.inr rfl) hblank hrecognises hscan]
    unfold translateSegments
    rw [show sourceDialectFor .powershell = .posix from rfl, hsegment]
    rfl
  have hposix : "cat \"$X\"".toList.inits.all (fun p =>
      (p.foldl ShellDialect.posix.quoteStep .bare).agrees (p.foldl scanQuote none)) = true := by
    decide
  have hpowershell : "cat \"$X\"".toList.inits.all (fun p =>
      (p.foldl ShellDialect.powershell.quoteStep .bare).agrees (p.foldl scanQuote none)) =
        true := by decide
  have hblanks : "cat \"$X\"".toList.all (fun c =>
      !isBlankChar c || ShellDialect.posix.isBlank c) = true := by decide
  have hread : (Reading.read .posix "cat \"$X\"".toList).commands =
      [["cat".toList, "\"$X\"".toList]] := rfl
  have halike : alikeFrom asciiNames .bare
      (pieces superscripts .posix "\"$X\"".toList.length "\"$X\"".toList) = true := rfl
  refine translate_same_operands superscripts_ascii htranslate rfl ⟨?_, ?_, ?_, ?_, ?_, ?_, ?_⟩ _
  · exact ⟨fun p hp => List.all_eq_true.1 hposix p ((List.mem_inits _ _).2 hp),
      fun hd => absurd hd (by decide)⟩
  · refine ⟨fun p hp => List.all_eq_true.1 hpowershell p ((List.mem_inits _ _).2 hp),
      fun _ p c hp => ?_⟩
    have hat : '@' ∈ "cat \"$X\"".toList :=
      hp.subset (List.mem_append_right p List.mem_cons_self)
    exact absurd hat (by decide)
  · intro p c hp _ hc
    have hmem : c ∈ "cat \"$X\"".toList :=
      hp.subset (List.mem_append_right p (List.mem_singleton_self c))
    have hall := List.all_eq_true.1 hblanks c hmem
    rw [hc] at hall
    exact hall
  · change ∀ words ∈ (Reading.read .posix "cat \"$X\"".toList).commands, _
    rw [hread, List.forall_mem_singleton]
    decide
  · change ∀ words ∈ (Reading.read .posix "cat \"$X\"".toList).commands, _
    rw [hread, List.forall_mem_singleton]
    exact List.forall_mem_singleton.2 halike
  · intro segments hasVariables hscanned
    cases hscan.symm.trans hscanned
    rw [List.forall_mem_singleton]
    exact fun digits hdigits => absurd hdigits List.not_mem_nil
  · intro _ segments hasVariables hscanned
    cases hscan.symm.trans hscanned
    rw [List.forall_mem_singleton]
    exact fun hnamed => absurd hnamed (by decide)

/-- Within single quotes a `$` is no variable, and is rewritten as one. -/
theorem single_quotes_rewritten (env : Text → Text) :
    ∃ t, translate superscripts .powershell true (some "cat '$X'") = .ok (some t) ∧
      t.translated = true ∧
      requests superscripts asciiNames t.source env t.original.toList =
        some [(["$X".toList], none)] ∧
      requests superscripts asciiNames t.target env t.executed.toList =
        some [(["$env:X".toList], none)] := by
  have hblank : isBlank "cat '$X'" = false := rfl
  have hrecognises : recognises superscripts superscripts.int .posix "cat '$X'".toList = true := rfl
  have hscan : scan superscripts .posix "cat '$X'".toList =
      .ok ([["cat".toList, "'$env:X'".toList]], true) := rfl
  have hsegment : translateSegment superscripts superscripts.int .posix
      ["cat".toList, "'$env:X'".toList] =
      .ok (.translated ["Get-Content".toList, "'$env:X'".toList] "print-file") := rfl
  refine ⟨⟨.posix, .powershell, "cat '$X'", "Get-Content '$env:X'",
    ["environment-variable", "print-file"], none⟩, ?_, rfl, ?_, ?_⟩
  · unfold translate
    rw [translateWith_scanned (.inr rfl) hblank hrecognises hscan]
    unfold translateSegments
    rw [show sourceDialectFor .powershell = .posix from rfl, hsegment]
    rfl
  · rfl
  · rfl

/-- A file whose name is a `$X` in single quotes: PowerShell is asked for another. -/
theorem single_quotes_differ :
    ¬ ∀ t, translate superscripts .powershell true (some "cat '$X'") = .ok (some t) →
      t.translated = true → ∀ env, ∃ rs,
        requests superscripts asciiNames t.source env t.original.toList = some rs ∧
          requests superscripts asciiNames t.target env t.executed.toList = some rs := by
  intro hsame
  obtain ⟨t, htranslate, htranslated, hsource, htarget⟩ := single_quotes_rewritten fun _ => []
  obtain ⟨rs, hrs, hrs'⟩ := hsame t htranslate htranslated fun _ => []
  rw [hsource] at hrs
  rw [htarget, ← hrs] at hrs'
  exact absurd hrs' (by decide)

end Dialects

end AgenticLocalApp
