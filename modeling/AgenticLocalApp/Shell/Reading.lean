import AgenticLocalApp.Shell.Dialects

/-!
# How a shell reads a command line

A shell reads a text from left to right: quotes and escapes decide what a character means, and what
is read is a sequence of simple commands, or a construct that does more than run them.
-/

namespace AgenticLocalApp

/-- Where a reader stands. -/
inductive Quoting where
  | bare
  /-- After an escape outside quotes. -/
  | bareEscaped
  | single
  | double
  /-- After an escape within double quotes. -/
  | doubleEscaped
  | comment
  /-- A redirection, a pipeline, a chaining, a background or a substitution has been read. -/
  | construct
  /-- A quote right behind an `@`: what may be a here-string ends elsewhere, and is not followed. -/
  | hereString
  deriving DecidableEq

namespace ShellDialect

variable (d : ShellDialect)

/-- PowerShell takes the typographic quotation marks for the plain ones. -/
def isSingleQuote (c : Char) : Bool :=
  c == '\'' || (d == .powershell && ['‘', '’', '‚', '‛'].contains c)

def isDoubleQuote (c : Char) : Bool :=
  c == '"' || (d == .powershell && ['“', '”', '„'].contains c)

def backquote : Char := Char.ofNat 0x60

def escapeChar : Char := if d = .powershell then backquote else '\\'

/-- The characters that are more than a separator outside quotes. -/
def isOperator (c : Char) : Bool :=
  ['|', '&', '<', '>', '(', ')'].contains c || (d == .posix && c == backquote)

def isBlank (c : Char) : Bool :=
  if d = .powershell then isBlankChar c else c == ' ' || c == '\t'

/-- What the quotes do, and the backquote that substitutes a command within POSIX double quotes. -/
def quoteStep : Quoting → Char → Quoting
  | .bare, c =>
    if d.isSingleQuote c then .single else if d.isDoubleQuote c then .double else .bare
  | .single, c => if d.isSingleQuote c then .bare else .single
  | .double, c =>
    if d.isDoubleQuote c then .bare
    else if c = d.escapeChar then .doubleEscaped
    else if d = .posix ∧ c = backquote then .construct
    else .double
  | .doubleEscaped, _ => .double
  | q, _ => q

/-- Right behind an `@`, a quote may open a here-string of PowerShell. -/
def opensHereString (word : Text) : Bool := d == .powershell && word.getLast? == some '@'

end ShellDialect

/-- What has been read of a text. -/
structure Reading where
  quoting : Quoting := .bare
  /-- The last character is a `$` within double quotes. -/
  dollar : Bool := false
  word : Text := []
  words : List Text := []
  commands : List (List Text) := []

namespace Reading

variable (d : ShellDialect)

def push (r : Reading) (q : Quoting) (c : Char) (dollar : Bool) : Reading :=
  { r with quoting := q, dollar := dollar, word := r.word ++ [c] }

def endWord (r : Reading) : Reading :=
  if r.word = [] then r else { r with words := r.words ++ [r.word], word := [] }

def endCommand (r : Reading) : Reading :=
  let r := r.endWord
  if r.words = [] then r else { r with commands := r.commands ++ [r.words], words := [] }

/-- One character. -/
def step (r : Reading) (c : Char) : Reading :=
  match r.quoting with
  | .bare =>
    if d.quoteStep .bare c ≠ .bare then
      if d.opensHereString r.word then { r with quoting := .hereString }
      else r.push (d.quoteStep .bare c) c false
    else if c = d.escapeChar then r.push .bareEscaped c false
    else if d.isOperator c then { r with quoting := .construct }
    else if c = ';' ∨ c = '\n' then r.endCommand
    else if d.isBlank c then r.endWord
    else if c = '#' ∧ r.word = [] then { r with quoting := .comment }
    else r.push .bare c false
  | .bareEscaped => r.push .bare c false
  | .single => r.push (d.quoteStep .single c) c false
  | .double =>
    if r.dollar ∧ c = '(' then { r with quoting := .construct }
    else r.push (d.quoteStep .double c) c (c == '$')
  | .doubleEscaped => r.push .double c false
  | .comment => if c = '\n' then { r.endCommand with quoting := .bare } else r
  | .construct | .hereString => r

def run (r : Reading) (text : Text) : Reading := text.foldl (step d) r

/-- A shell reads a command line. -/
def read (text : Text) : Reading := (run d {} text).endCommand

variable {d}

@[simp] theorem run_nil (r : Reading) : run d r [] = r := rfl

@[simp] theorem run_cons (r : Reading) (c : Char) (text : Text) :
    run d r (c :: text) = run d (step d r c) text := rfl

theorem run_append (r : Reading) (a b : Text) : run d r (a ++ b) = run d (run d r a) b :=
  List.foldl_append

end Reading

/-! ## Words -/

/-- A character that means itself outside quotes, to either shell. -/
def isPlain (c : Char) : Bool :=
  !(['|', '&', '<', '>', '(', ')', ';', '\n', '#', '\\', ShellDialect.backquote].contains c) &&
    !isBlankChar c

def isQuotation (c : Char) : Bool :=
  ['\'', '"', '‘', '’', '‚', '‛', '“', '”', '„'].contains c

/-- A character that means itself outside quotes and within them. -/
def isInert (c : Char) : Bool := isPlain c && !isQuotation c

variable {d : ShellDialect}

theorem not_isQuote_of_inert {c : Char} (h : isInert c = true) :
    d.isSingleQuote c = false ∧ d.isDoubleQuote c = false := by
  unfold isInert isQuotation at h
  simp only [Bool.and_eq_true, Bool.not_eq_true', List.contains_eq_mem, List.mem_cons,
    List.not_mem_nil, or_false, decide_eq_false_iff_not, not_or] at h
  unfold ShellDialect.isSingleQuote ShellDialect.isDoubleQuote
  simp [h]

/-- What a plain character is not. -/
structure PlainIn (d : ShellDialect) (c : Char) : Prop where
  ne_escape : c ≠ d.escapeChar
  not_operator : d.isOperator c = false
  ne_separator : ¬ (c = ';' ∨ c = '\n')
  not_blank : d.isBlank c = false
  ne_hash : c ≠ '#'

theorem plainIn_of_isPlain {c : Char} (h : isPlain c = true) : PlainIn d c := by
  unfold isPlain at h
  simp only [Bool.and_eq_true, Bool.not_eq_true', List.contains_eq_mem, List.mem_cons,
    List.not_mem_nil, or_false, decide_eq_false_iff_not, not_or] at h
  obtain ⟨⟨hpipe, hamp, hlt, hgt, hopen, hclose, hsemi, hline, hhash, hback, hquote⟩, hblank⟩ := h
  refine ⟨?_, ?_, ?_, ?_, hhash⟩
  · unfold ShellDialect.escapeChar
    split
    · exact hquote
    · exact hback
  · unfold ShellDialect.isOperator
    simp [hpipe, hamp, hlt, hgt, hopen, hclose, hquote]
  · exact not_or.2 ⟨hsemi, hline⟩
  · unfold ShellDialect.isBlank
    split
    · exact hblank
    · rw [Bool.or_eq_false_iff, beq_eq_false_iff_ne, beq_eq_false_iff_ne]
      refine ⟨?_, ?_⟩ <;> rintro rfl <;> cases hblank

namespace Reading

theorem step_plain {r : Reading} {c : Char} (hbare : r.quoting = .bare)
    (hquote : d.quoteStep .bare c = .bare) (h : isPlain c = true) :
    step d r c = r.push .bare c false := by
  have hplain : PlainIn d c := plainIn_of_isPlain h
  unfold step
  rw [hbare]
  dsimp only
  rw [if_neg (not_not_intro hquote), if_neg hplain.ne_escape,
    if_neg (by simp [hplain.not_operator]), if_neg hplain.ne_separator,
    if_neg (by simp [hplain.not_blank]), if_neg (fun hcomment => hplain.ne_hash hcomment.1)]

theorem step_quote {r : Reading} {c : Char} (hbare : r.quoting = .bare)
    (hquote : d.quoteStep .bare c ≠ .bare) (hword : d.opensHereString r.word = false) :
    step d r c = r.push (d.quoteStep .bare c) c false := by
  unfold step
  rw [hbare]
  dsimp only
  rw [if_pos hquote, hword, if_neg Bool.false_ne_true]

/-- Within quotes, and not after a `$`. -/
theorem step_quoted {r : Reading} {c : Char}
    (hquoted : r.quoting = .single ∨ r.quoting = .double ∨ r.quoting = .doubleEscaped)
    (hdollar : r.dollar = false ∨ c ≠ '(') (hc : c ≠ '$') :
    step d r c = r.push (d.quoteStep r.quoting c) c false := by
  unfold step
  obtain hq | hq | hq := hquoted
  · rw [hq]
  · rw [hq]
    dsimp only
    rw [if_neg, beq_eq_false_iff_ne.2 hc]
    rintro ⟨htrue, hopen⟩
    obtain hfalse | hne := hdollar
    · rw [hfalse] at htrue
      cases htrue
    · exact hne hopen
  · rw [hq]
    rfl

end Reading

/-- Outside quotes, the text is a word or a part of one. -/
def Reads (d : ShellDialect) (text : Text) : Prop :=
  ∀ r : Reading, r.quoting = .bare → r.dollar = false →
    Reading.run d r text = { r with word := r.word ++ text }

theorem quoteStep_inert {c : Char} (h : isInert c = true) : d.quoteStep .bare c = .bare := by
  obtain ⟨hsingle, hdouble⟩ := @not_isQuote_of_inert d c h
  simp [ShellDialect.quoteStep, hsingle, hdouble]

theorem isPlain_of_inert {c : Char} (h : isInert c = true) : isPlain c = true :=
  (Bool.and_eq_true_iff.1 h).1

theorem reads_of_inert {text : Text} (h : ∀ c ∈ text, isInert c = true) : Reads d text := by
  induction text with
  | nil =>
    intro r _ _
    rw [Reading.run_nil, List.append_nil]
  | cons c text ih =>
    obtain ⟨hc, htext⟩ := List.forall_mem_cons.1 h
    intro r hbare hdollar
    rw [Reading.run_cons, Reading.step_plain hbare (quoteStep_inert hc) (isPlain_of_inert hc),
      ih htext _ rfl rfl]
    unfold Reading.push
    rw [List.append_assoc, hdollar, hbare]
    rfl

/-! ## Simple commands joined -/

/-- A word that a shell reads as it stands. -/
structure IsWord (d : ShellDialect) (word : Text) : Prop where
  ne_nil : word ≠ []
  reads : ∀ r : Reading, r.quoting = .bare → r.dollar = false → r.word = [] →
    Reading.run d r word = { r with word := word }

theorem Reads.isWord {word : Text} (h : Reads d word) (hne : word ≠ []) : IsWord d word where
  ne_nil := hne
  reads r hbare hdollar hword := by rw [h r hbare hdollar, hword, List.nil_append]

theorem intercalate_cons {sep head : Text} {texts : List Text} :
    List.intercalate sep (head :: texts) = head ++ texts.flatMap (sep ++ ·) := by
  induction texts generalizing head with
  | nil => simp [List.intercalate]
  | cons text texts ih =>
    have hstep : List.intercalate sep (head :: text :: texts) =
        head ++ (sep ++ List.intercalate sep (text :: texts)) := by
      simp [List.intercalate]
    rw [hstep, ih, List.flatMap_cons, List.append_assoc]

namespace Reading

theorem step_blank {r : Reading} (hbare : r.quoting = .bare) : step d r ' ' = r.endWord := by
  have hquote : d.quoteStep .bare ' ' = .bare := by cases d <;> rfl
  have hescape : ' ' ≠ d.escapeChar := by cases d <;> decide
  have hoperator : d.isOperator ' ' = false := by cases d <;> rfl
  have hblank : d.isBlank ' ' = true := by cases d <;> rfl
  unfold step
  rw [hbare]
  dsimp only
  rw [if_neg (not_not_intro hquote), if_neg hescape, if_neg (by simp [hoperator]),
    if_neg (by decide), if_pos hblank]

theorem step_semicolon {r : Reading} (hbare : r.quoting = .bare) :
    step d r ';' = r.endCommand := by
  have hquote : d.quoteStep .bare ';' = .bare := by cases d <;> rfl
  have hescape : ';' ≠ d.escapeChar := by cases d <;> decide
  have hoperator : d.isOperator ';' = false := by cases d <;> rfl
  unfold step
  rw [hbare]
  dsimp only
  rw [if_neg (not_not_intro hquote), if_neg hescape, if_neg (by simp [hoperator]),
    if_pos (.inl rfl)]

/-- The words that follow the one being read. -/
theorem run_words {r : Reading} {words : List Text} (hbare : r.quoting = .bare)
    (hdollar : r.dollar = false) (hne : r.word ≠ []) (hwords : ∀ w ∈ words, IsWord d w) :
    ∃ last init, run d r (words.flatMap ([' '] ++ ·)) = { r with word := last, words := init } ∧
      last ≠ [] ∧ init ++ [last] = r.words ++ r.word :: words := by
  induction words generalizing r with
  | nil => exact ⟨r.word, r.words, rfl, hne, rfl⟩
  | cons w words ih =>
    obtain ⟨hw, hrest⟩ := List.forall_mem_cons.1 hwords
    let next : Reading := { r with words := r.words ++ [r.word], word := w }
    have hnext : run d r ([' '] ++ w) = next := by
      rw [List.singleton_append, run_cons, step_blank hbare]
      unfold endWord
      rw [if_neg hne]
      exact hw.reads { r with words := r.words ++ [r.word], word := [] } hbare hdollar rfl
    obtain ⟨last, init, hrun, hlast, hinit⟩ := @ih next hbare hdollar hw.ne_nil hrest
    refine ⟨last, init, ?_, hlast, ?_⟩
    · rw [List.flatMap_cons, run_append, hnext, hrun]
    · rw [hinit]
      exact (List.append_cons r.words r.word (w :: words)).symm

/-- At a boundary between simple commands. -/
structure Fresh (r : Reading) : Prop where
  quoting : r.quoting = .bare
  dollar : r.dollar = false
  word : r.word = []
  words : r.words = []

/-- One simple command, ended. -/
theorem run_command {r : Reading} {head : Text} {args : List Text} (hfresh : r.Fresh)
    (hhead : IsWord d head) (hargs : ∀ w ∈ args, IsWord d w) :
    (run d r (List.intercalate [' '] (head :: args))).quoting = .bare ∧
      (run d r (List.intercalate [' '] (head :: args))).endCommand =
        { r with commands := r.commands ++ [head :: args] } := by
  let started : Reading := { r with word := head }
  have hstarted : run d r head = started := by
    rw [hhead.reads r hfresh.quoting hfresh.dollar hfresh.word]
  obtain ⟨last, init, hrun, hlast, hinit⟩ :=
    @run_words d started args hfresh.quoting hfresh.dollar hhead.ne_nil hargs
  rw [intercalate_cons, run_append, hstarted, hrun]
  refine ⟨hfresh.quoting, ?_⟩
  have hwords : init ++ [last] = head :: args := by
    rw [hinit]
    exact congrArg (· ++ head :: args) hfresh.words
  unfold endCommand endWord
  dsimp only
  rw [if_neg hlast]
  dsimp only
  rw [hwords, if_neg (List.cons_ne_nil _ _)]
  obtain ⟨quoting, dollar, word, words, commands⟩ := r
  obtain ⟨-, -, hword, hnil⟩ := hfresh
  cases hword
  cases hnil
  rfl

/-- The simple commands that follow one that has been read. -/
theorem run_commands {r : Reading} {ended : Reading} {commands : List (List Text)}
    (hbare : r.quoting = .bare) (hended : r.endCommand = ended) (hfresh : ended.Fresh)
    (h : ∀ c ∈ commands, ∃ head args, c = head :: args ∧ IsWord d head ∧ ∀ w ∈ args, IsWord d w) :
    (run d r ((commands.map (List.intercalate [' '])).flatMap ([';', ' '] ++ ·))).quoting = .bare ∧
      (run d r ((commands.map (List.intercalate [' '])).flatMap ([';', ' '] ++ ·))).endCommand =
        { ended with commands := ended.commands ++ commands } := by
  induction commands generalizing r ended with
  | nil =>
    refine ⟨hbare, ?_⟩
    rw [List.append_nil]
    exact hended
  | cons c commands ih =>
    obtain ⟨⟨head, args, rfl, hhead, hargs⟩, hrest⟩ := List.forall_mem_cons.1 h
    have hsep : run d r [';', ' '] = ended := by
      rw [run_cons, step_semicolon hbare, hended, run_cons, step_blank hfresh.quoting]
      unfold endWord
      rw [if_pos hfresh.word]
      rfl
    obtain ⟨hquoting, hcommand⟩ := run_command hfresh hhead hargs
    have hnext := @ih _ { ended with commands := ended.commands ++ [head :: args] } hquoting
      hcommand
      ⟨hfresh.quoting, hfresh.dollar, hfresh.word, hfresh.words⟩ hrest
    rw [List.map_cons, List.flatMap_cons, run_append, run_append, hsep]
    refine ⟨hnext.1, hnext.2.trans ?_⟩
    rw [List.append_assoc]
    rfl

end Reading

/-- Simple commands of plain words, joined by blanks and separators, are read back. -/
theorem read_joined {commands : List (List Text)}
    (h : ∀ c ∈ commands, ∃ head args, c = head :: args ∧ IsWord d head ∧ ∀ w ∈ args, IsWord d w) :
    (Reading.run d {}
        (List.intercalate [';', ' '] (commands.map (List.intercalate [' '])))).quoting = .bare ∧
      (Reading.read d
        (List.intercalate [';', ' '] (commands.map (List.intercalate [' '])))).commands =
          commands := by
  unfold Reading.read
  cases commands with
  | nil => exact ⟨rfl, rfl⟩
  | cons c commands =>
    obtain ⟨⟨head, args, rfl, hhead, hargs⟩, hrest⟩ := List.forall_mem_cons.1 h
    have hfresh : Reading.Fresh {} := ⟨rfl, rfl, rfl, rfl⟩
    obtain ⟨hquoting, hcommand⟩ := Reading.run_command hfresh hhead hargs
    obtain ⟨hbare, hall⟩ := Reading.run_commands hquoting hcommand ⟨rfl, rfl, rfl, rfl⟩ hrest
    rw [List.map_cons, intercalate_cons, Reading.run_append]
    refine ⟨hbare, ?_⟩
    rw [hall]
    rfl

/-! ## References -/

/-- The characters of a reference after its `$`. -/
structure IsReference (body : Text) : Prop where
  ne_nil : body ≠ []
  inert : ∀ c ∈ body, isInert c = true ∧ c ≠ '$'
  no_at : '@' ∉ body

theorem IsReference.append_left {a body : Text} (ha : ∀ c ∈ a, isInert c = true ∧ c ≠ '$')
    (hat : '@' ∉ a) (h : IsReference body) : IsReference (a ++ body) where
  ne_nil := List.append_ne_nil_of_right_ne_nil a h.ne_nil
  inert := List.forall_mem_append.2 ⟨ha, h.inert⟩
  no_at := by
    rw [List.mem_append, not_or]
    exact ⟨hat, h.no_at⟩

/-- Where a reader can stand in a token. -/
def Quoting.InToken (q : Quoting) : Prop := q = .bare ∨ q = .single ∨ q = .double

/-- Where a reader stands after a character that an escape does not concern. -/
def Quoting.afterEscape : Quoting → Quoting
  | .doubleEscaped => .double
  | q => q

theorem quoteStep_inToken {q : Quoting} {c : Char} (hq : q.InToken) (h : isInert c = true) :
    d.quoteStep q c = q := by
  obtain ⟨hsingle, hdouble⟩ := @not_isQuote_of_inert d c h
  obtain rfl | rfl | rfl := hq
  · exact quoteStep_inert h
  · simp [ShellDialect.quoteStep, hsingle]
  · have hplain : PlainIn d c := plainIn_of_isPlain (isPlain_of_inert h)
    have hback : c ≠ ShellDialect.backquote := by
      rintro rfl
      cases h
    simp [ShellDialect.quoteStep, hdouble, hplain.ne_escape, hback]

theorem foldl_inToken {q : Quoting} {body : Text} (hq : q.InToken)
    (h : ∀ c ∈ body, isInert c = true) : body.foldl d.quoteStep q = q := by
  induction body with
  | nil => rfl
  | cons c body ih =>
    obtain ⟨hc, hbody⟩ := List.forall_mem_cons.1 h
    rw [List.foldl_cons, quoteStep_inToken hq hc, ih hbody]

theorem run_inert {r : Reading} {body : Text} (hq : r.quoting.InToken)
    (h : ∀ c ∈ body, isInert c = true ∧ c ≠ '$') (hne : body ≠ []) :
    Reading.run d r body = { r with word := r.word ++ body, dollar := false } := by
  induction body generalizing r with
  | nil => exact absurd rfl hne
  | cons c body ih =>
    obtain ⟨⟨hc, hdollar⟩, hbody⟩ := List.forall_mem_cons.1 h
    have hstep : Reading.step d r c = r.push r.quoting c false := by
      obtain hbare | hquoted := hq
      · rw [Reading.step_plain hbare (quoteStep_inert hc) (isPlain_of_inert hc), hbare]
      · have hopen : c ≠ '(' := by
          rintro rfl
          cases hc
        rw [Reading.step_quoted (hquoted.imp_right .inl) (.inr hopen) hdollar,
          quoteStep_inToken (.inr hquoted) hc]
    rw [Reading.run_cons, hstep]
    cases body with
    | nil => rfl
    | cons c' body =>
      rw [@ih (r.push r.quoting c false) hq hbody (List.cons_ne_nil _ _)]
      unfold Reading.push
      rw [List.append_assoc]
      rfl

/-- A reference is read through, and leaves the reader where it is. -/
theorem run_reference {r : Reading} {body : Text} (hq : r.quoting.afterEscape.InToken)
    (h : IsReference body) :
    Reading.run d r ('$' :: body) =
      { r with quoting := r.quoting.afterEscape, word := r.word ++ '$' :: body,
               dollar := false } := by
  have hstep : ∃ dollar, Reading.step d r '$' = r.push r.quoting.afterEscape '$' dollar := by
    cases hquoting : r.quoting with
    | bare =>
      exact ⟨false, Reading.step_plain hquoting (quoteStep_inert (by decide)) (by decide)⟩
    | single =>
      refine ⟨false, ?_⟩
      unfold Reading.step
      rw [hquoting]
      dsimp only
      rw [quoteStep_inToken (.inr (.inl rfl)) (by decide)]
      rfl
    | double =>
      refine ⟨true, ?_⟩
      unfold Reading.step
      rw [hquoting]
      dsimp only
      rw [if_neg (fun hopen => absurd hopen.2 (by decide)),
        quoteStep_inToken (.inr (.inr rfl)) (by decide)]
      rfl
    | doubleEscaped =>
      refine ⟨false, ?_⟩
      unfold Reading.step
      rw [hquoting]
      rfl
    | _ =>
      rw [hquoting] at hq
      exact absurd hq (by unfold Quoting.InToken Quoting.afterEscape; simp)
  obtain ⟨dollar, hstep⟩ := hstep
  rw [Reading.run_cons, hstep, run_inert hq h.inert h.ne_nil]
  unfold Reading.push
  rw [List.append_assoc]
  rfl

theorem foldl_reference {q : Quoting} {body : Text} (hq : q.afterEscape.InToken)
    (h : IsReference body) : ('$' :: body).foldl d.quoteStep q = q.afterEscape := by
  have hstep : d.quoteStep q '$' = q.afterEscape := by
    cases q with
    | doubleEscaped => rfl
    | _ => exact quoteStep_inToken hq (by decide)
  rw [List.foldl_cons, hstep, foldl_inToken hq fun c hc => (h.inert c hc).1]

end AgenticLocalApp
