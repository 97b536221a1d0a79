import AgenticLocalApp.Shell.Dialects

/-!
# The counts of a translated command

`head`, `tail` and `Get-Content` hand a text of digits to `int`.  The translator returns exactly
when `int` accepts all that it is handed, and `str.isdigit`, the test made before, is not that.
-/

namespace AgenticLocalApp

/-- A text of digits that `int` accepts. -/
structure UnicodeTable.Readable (u : UnicodeTable) (text : Text) : Prop where
  ne_nil : text ≠ []
  isDecimal : ∀ c ∈ text, u.isDecimal c = true
  length_le : text.length ≤ intMaxStrDigits

theorem UnicodeTable.int_ok_iff {u : UnicodeTable} {text : Text} :
    (∃ n, u.int text = .ok n) ↔ u.Readable text := by
  unfold UnicodeTable.int
  split
  · rename_i h
    rw [Bool.or_eq_true, List.isEmpty_iff, Bool.not_eq_true', List.all_eq_false] at h
    refine ⟨fun hok => absurd hok (by simp), fun hr => ?_⟩
    obtain hnil | ⟨c, hc, hdec⟩ := h
    · exact absurd hnil hr.ne_nil
    · exact absurd (hr.isDecimal c hc) hdec
  · rename_i h
    rw [Bool.or_eq_true, List.isEmpty_iff, Bool.not_eq_true', not_or, Bool.not_eq_false,
      List.all_eq_true] at h
    split
    · rename_i hlen
      exact ⟨fun hok => absurd hok (by simp), fun hr => absurd hr.length_le (Nat.not_le.2 hlen)⟩
    · rename_i hlen
      exact ⟨fun _ => ⟨h.1, h.2, Nat.not_lt.1 hlen⟩, fun _ => ⟨_, rfl⟩⟩

namespace Dialects

variable (u : UnicodeTable)

/-! ## What is handed to `int` -/

/-- The texts that `_lines_and_file` hands to `int`, as long as it is answered. -/
def lineCounts : Option Text → List Text → List Text
  | _, [] => []
  | file, token :: rest =>
    if startsWithDash token then
      match lineCount u token with
      | none => []
      | some (some digits) => digits :: lineCounts file rest
      | some none =>
        match rest with
        | [] => []
        | digits :: rest => if u.isDigitText digits then digits :: lineCounts file rest else []
    else
      match file with
      | none => lineCounts (some token) rest
      | some _ => []

/-- The texts that `_powershell_get_content` hands to `int`, as long as it is answered. -/
def contentCounts : Option Text → Option ContentMode → List Text → List Text
  | _, _, [] => []
  | file, mode, token :: rest =>
    match contentMode u token with
    | some asked =>
      match mode, rest with
      | none, digits :: rest =>
        if u.isDigitText digits then digits :: contentCounts file (some asked) rest else []
      | _, _ => []
    | none =>
      if startsWithDash token then []
      else
        match file with
        | none => contentCounts (some token) mode rest
        | some _ => []

/-- The texts that the rules hand to `int` for one simple command. -/
def countTexts (source : ShellDialect) (segment : List Text) : List Text :=
  let program := shellName u (segment.headD [])
  match source with
  | .posix =>
    if isAssignment u (segment.headD []) then []
    else if namedIn ["head", "tail"] program then lineCounts u none segment.tail else []
  | .powershell =>
    if namedIn ["get-content", "gc"] program then contentCounts u none none segment.tail else []
  | _ => []

def SegmentOutcome.isTranslated : SegmentOutcome → Bool
  | .translated .. => true
  | .stopped _ => false

/-- The dictionary covers the simple command, whatever the value of its counts. -/
def covered (source : ShellDialect) (segment : List Text) : Bool :=
  match translateSegment u (fun _ => .ok 0) source segment with
  | .ok outcome => outcome.isTranslated
  | .error _ => false

/-- The texts handed to `int` for a command line: those of its simple commands up to the first one
that the dictionary does not cover. -/
def reachedCounts (source : ShellDialect) : List (List Text) → List Text
  | [] => []
  | segment :: segments =>
    countTexts u source segment ++ if covered u source segment then reachedCounts source segments
      else []

/-- The simple commands of a command line that the translator goes through. -/
def consulted (target : ShellDialect) (enabled : Bool) (cmd : Option String) : List (List Text) :=
  match cmd with
  | none => []
  | some cmd =>
    if ¬ (enabled ∧ (target = .posix ∨ target = .powershell)) ∨ isBlank cmd then []
    else if ¬ recognises u (fun _ => .ok 0) (sourceDialectFor target) cmd.toList then []
    else
      match scan u (sourceDialectFor target) cmd.toList with
      | .error _ => []
      | .ok (segments, _) => segments

/-! ## One simple command -/

variable {u} {int : Text → Except Exc Nat}

/-- A step that hands `text` to `int` and goes on with its value. -/
theorem bind_int_ok_iff {α : Type} {f : Nat → Except Exc α} {text : Text} {texts : List Text}
    (h : ∀ n, (∃ r, f n = .ok r) ↔ ∀ t ∈ texts, ∃ m, int t = .ok m) :
    (∃ r, (match int text with
      | .error e => Except.error e
      | .ok n => f n) = .ok r) ↔ ∀ t ∈ text :: texts, ∃ m, int t = .ok m := by
  rw [List.forall_mem_cons]
  cases int text with
  | error e => simp
  | ok n =>
    rw [← h n]
    simp

theorem linesAndFile_ok_iff {count : Nat} {file : Option Text} {tokens : List Text} :
    (∃ r, linesAndFile u int count file tokens = .ok r) ↔
      ∀ t ∈ lineCounts u file tokens, ∃ n, int t = .ok n := by
  fun_induction lineCounts u file tokens generalizing count with
  | case1 file => simp [linesAndFile]
  | case2 file token rest hdash hline =>
    unfold linesAndFile
    simp [hdash, hline]
  | case3 file token rest hdash digits hline ih =>
    unfold linesAndFile
    simp only [hdash, hline, if_true]
    exact bind_int_ok_iff fun n => ih
  | case4 file token hdash hline =>
    unfold linesAndFile
    simp [hdash, hline]
  | case5 file token hdash hline digits rest hdigit ih =>
    unfold linesAndFile
    simp only [hdash, hline, hdigit, if_true]
    exact bind_int_ok_iff fun n => ih
  | case6 file token hdash hline digits rest hdigit =>
    unfold linesAndFile
    simp [hdash, hline, hdigit]
  | case7 token rest hdash ih =>
    unfold linesAndFile
    simp only [hdash]
    exact ih
  | case8 token rest hdash f =>
    unfold linesAndFile
    simp [hdash]

theorem getContentArguments_ok_iff {count : Nat} {file : Option Text} {mode : Option ContentMode}
    {tokens : List Text} :
    (∃ r, getContentArguments u int file mode count tokens = .ok r) ↔
      ∀ t ∈ contentCounts u file mode tokens, ∃ n, int t = .ok n := by
  fun_induction contentCounts u file mode tokens generalizing count with
  | case1 => simp [getContentArguments]
  | case2 file token asked hasked digits rest hdigit ih =>
    unfold getContentArguments
    simp only [hasked, hdigit, if_true]
    exact bind_int_ok_iff fun n => ih
  | case3 file token asked hasked digits rest hdigit =>
    unfold getContentArguments
    simp [hasked, hdigit]
  | case4 file mode token rest asked hasked hother =>
    unfold getContentArguments
    simp only [hasked]
    exact ⟨fun _ t ht => absurd ht List.not_mem_nil, fun _ => ⟨none, rfl⟩⟩
  | case5 file mode token rest hasked hdash =>
    unfold getContentArguments
    simp [hasked, hdash]
  | case6 mode token rest hasked hdash ih =>
    unfold getContentArguments
    simp only [hasked, hdash]
    exact ih
  | case7 mode token rest hasked hdash f =>
    unfold getContentArguments
    simp [hasked, hdash]

theorem posixLines_ok_iff {option : String} {tokens : List Text} :
    (∃ r, posixLines u int option tokens = .ok r) ↔
      ∀ t ∈ lineCounts u none tokens.tail, ∃ n, int t = .ok n := by
  rw [← @linesAndFile_ok_iff u int 10]
  unfold posixLines
  cases linesAndFile u int 10 none tokens.tail <;> simp

theorem powershellGetContent_ok_iff {tokens : List Text} :
    (∃ r, powershellGetContent u int tokens = .ok r) ↔
      ∀ t ∈ contentCounts u none none tokens.tail, ∃ n, int t = .ok n :=
  getContentArguments_ok_iff

theorem powershellLines_ok_iff {wanted : ContentMode} {program : String} {tokens : List Text} :
    (∃ r, powershellLines u int wanted program tokens = .ok r) ↔
      ∀ t ∈ contentCounts u none none tokens.tail, ∃ n, int t = .ok n := by
  rw [← powershellGetContent_ok_iff]
  unfold powershellLines
  rcases powershellGetContent u int tokens with e | (_ | ⟨file, _ | mode, count⟩) <;> simp

theorem powershellPrintFile_ok_iff {tokens : List Text} :
    (∃ r, powershellPrintFile u int tokens = .ok r) ↔
      ∀ t ∈ contentCounts u none none tokens.tail, ∃ n, int t = .ok n := by
  rw [← powershellGetContent_ok_iff]
  unfold powershellPrintFile
  rcases powershellGetContent u int tokens with e | (_ | ⟨file, _ | mode, count⟩) <;> simp

theorem applyRules_ok {program : Text} {segment : List Text} {claimed rules : List TranslationRule}
    (h : ∀ rule ∈ rules, namedIn rule.programs program = true → ∃ r, rule.apply segment = .ok r) :
    ∃ outcome, applyRules program segment claimed rules = .ok outcome := by
  induction rules generalizing claimed with
  | nil => exact ⟨_, rfl⟩
  | cons rule rules ih =>
    obtain ⟨hrule, hrules⟩ := List.forall_mem_cons.1 h
    unfold applyRules
    split
    · rename_i hnamed
      obtain ⟨_ | tokens, hr⟩ := hrule hnamed
      · rw [hr]
        exact ih hrules
      · rw [hr]
        exact ⟨_, rfl⟩
    · exact ih hrules

/-- The first rule that claims the program has raised when the table answers nothing. -/
theorem applyRules_first {program : Text} {segment : List Text}
    {claimed rules : List TranslationRule} {rule : TranslationRule}
    (hfind : rules.find? (fun r => namedIn r.programs program) = some rule)
    (h : ∃ outcome, applyRules program segment claimed rules = .ok outcome) :
    ∃ r, rule.apply segment = .ok r := by
  induction rules with
  | nil => simp at hfind
  | cons first rules ih =>
    unfold applyRules at h
    by_cases hnamed : namedIn first.programs program = true
    · simp only [List.find?_cons, hnamed, Option.some.injEq] at hfind
      rw [if_pos hnamed, hfind] at h
      cases happly : rule.apply segment with
      | error e =>
        rw [happly] at h
        simp at h
      | ok r => exact ⟨r, rfl⟩
    · simp only [List.find?_cons, hnamed] at hfind
      rw [if_neg hnamed] at h
      exact ih hfind h

theorem namedIn_iff {names : List String} {text : Text} :
    namedIn names text = true ↔ ∃ name ∈ names, name.toList = text := by
  simp [namedIn]

theorem posixRules_ok {program : Text} {segment : List Text}
    (h : namedIn ["head", "tail"] program = true →
      ∀ t ∈ lineCounts u none segment.tail, ∃ n, int t = .ok n) :
    ∀ rule ∈ posixToPowershell u int, namedIn rule.programs program = true →
      ∃ r, rule.apply segment = .ok r := by
  unfold posixToPowershell
  simp only [List.forall_mem_cons]
  refine ⟨fun _ => ⟨_, rfl⟩, fun _ => ⟨_, rfl⟩, fun hn => posixLines_ok_iff.2 (h ?head),
    fun hn => posixLines_ok_iff.2 (h ?tail), fun _ => ⟨_, rfl⟩, fun _ => ⟨_, rfl⟩,
    fun _ => ⟨_, rfl⟩, fun _ => ⟨_, rfl⟩, fun rule hmem => absurd hmem List.not_mem_nil⟩
  case head =>
    obtain ⟨name, hname, heq⟩ := namedIn_iff.1 hn
    exact namedIn_iff.2 ⟨name, List.mem_append_left ["tail"] hname, heq⟩
  case tail =>
    obtain ⟨name, hname, heq⟩ := namedIn_iff.1 hn
    exact namedIn_iff.2 ⟨name, List.mem_append_right ["head"] hname, heq⟩

theorem powershellRules_ok {program : Text} {segment : List Text}
    (h : namedIn ["get-content", "gc"] program = true →
      ∀ t ∈ contentCounts u none none segment.tail, ∃ n, int t = .ok n) :
    ∀ rule ∈ powershellToPosix u int, namedIn rule.programs program = true →
      ∃ r, rule.apply segment = .ok r := by
  unfold powershellToPosix
  simp only [List.forall_mem_cons]
  exact ⟨fun _ => ⟨_, rfl⟩, fun _ => ⟨_, rfl⟩, fun hn => powershellLines_ok_iff.2 (h hn),
    fun hn => powershellLines_ok_iff.2 (h hn), fun hn => powershellPrintFile_ok_iff.2 (h hn),
    fun _ => ⟨_, rfl⟩, fun _ => ⟨_, rfl⟩, fun _ => ⟨_, rfl⟩,
    fun rule hmem => absurd hmem List.not_mem_nil⟩

theorem applyRules_posix_ok_iff {program : Text} {segment : List Text} :
    (∃ outcome, applyRules program segment [] (posixToPowershell u int) = .ok outcome) ↔
      (namedIn ["head", "tail"] program = true →
        ∀ t ∈ lineCounts u none segment.tail, ∃ n, int t = .ok n) := by
  refine ⟨fun hok hnamed => ?_, fun h => applyRules_ok (posixRules_ok h)⟩
  obtain ⟨name, hname, rfl⟩ := namedIn_iff.1 hnamed
  rw [List.mem_cons, List.mem_singleton] at hname
  obtain rfl | rfl := hname
  · have hfind : (posixToPowershell u int).find? (fun r => namedIn r.programs "head".toList) =
        some ⟨"head-lines", _, _, _, posixHead u int⟩ := rfl
    exact posixLines_ok_iff.1 (applyRules_first hfind hok)
  · have hfind : (posixToPowershell u int).find? (fun r => namedIn r.programs "tail".toList) =
        some ⟨"tail-lines", _, _, _, posixTail u int⟩ := rfl
    exact posixLines_ok_iff.1 (applyRules_first hfind hok)

theorem applyRules_powershell_ok_iff {program : Text} {segment : List Text} :
    (∃ outcome, applyRules program segment [] (powershellToPosix u int) = .ok outcome) ↔
      (namedIn ["get-content", "gc"] program = true →
        ∀ t ∈ contentCounts u none none segment.tail, ∃ n, int t = .ok n) := by
  refine ⟨fun hok hnamed => ?_, fun h => applyRules_ok (powershellRules_ok h)⟩
  have hfind : (powershellToPosix u int).find? (fun r => namedIn r.programs program) =
      (powershellToPosix u int)[2]? := by
    obtain ⟨name, hname, rfl⟩ := namedIn_iff.1 hnamed
    rw [List.mem_cons, List.mem_singleton] at hname
    obtain rfl | rfl := hname <;> rfl
  exact powershellLines_ok_iff.1 (applyRules_first hfind hok)

theorem refusalOf_counted {source : ShellDialect} {names : List String} {program : Text}
    (hnames : source = .posix ∧ names = ["head", "tail"] ∨
      source = .powershell ∧ names = ["get-content", "gc"])
    (h : namedIn names program = true) : refusalOf source program = none := by
  obtain ⟨name, hname, rfl⟩ := namedIn_iff.1 h
  obtain ⟨rfl, rfl⟩ | ⟨rfl, rfl⟩ := hnames
  all_goals
    rw [List.mem_cons, List.mem_singleton] at hname
    obtain rfl | rfl := hname <;> rfl

theorem translateSegment_ok_iff {source : ShellDialect} {segment : List Text} :
    (∃ outcome, translateSegment u int source segment = .ok outcome) ↔
      ∀ t ∈ countTexts u source segment, ∃ n, int t = .ok n := by
  unfold translateSegment countTexts
  dsimp only
  generalize shellName u (segment.headD []) = program
  generalize segment.headD [] = first
  cases source with
  | posix =>
    by_cases hassign : isAssignment u first = true
    · simp [hassign]
    · simp only [hassign, Bool.false_eq_true, and_false, if_false]
      cases hrefusal : refusalOf .posix program with
      | some refusal =>
        have hnamed : ¬ namedIn ["head", "tail"] program = true := fun h => by
          rw [refusalOf_counted (.inl ⟨rfl, rfl⟩) h] at hrefusal
          cases hrefusal
        simp [hnamed]
      | none =>
        refine applyRules_posix_ok_iff.trans ?_
        split <;> simp_all
  | powershell =>
    simp only [reduceCtorEq, false_and, if_false]
    cases hrefusal : refusalOf .powershell program with
    | some refusal =>
      have hnamed : ¬ namedIn ["get-content", "gc"] program = true := fun h => by
        rw [refusalOf_counted (.inr ⟨rfl, rfl⟩) h] at hrefusal
        cases hrefusal
      simp [hnamed]
    | none =>
      refine applyRules_powershell_ok_iff.trans ?_
      split <;> simp_all
  | cmd => simp [refusalOf, refusals, rulesFor, applyRules]
  | unknown => simp [refusalOf, refusals, rulesFor, applyRules]

/-! ## Two converters agree on what is covered -/

variable {int' : Text → Except Exc Nat}

theorem linesAndFile_agree {count count' : Nat} {file : Option Text} {tokens : List Text}
    {r r' : Option (Nat × Text)} (h : linesAndFile u int count file tokens = .ok r)
    (h' : linesAndFile u int' count' file tokens = .ok r') : r.isSome = r'.isSome := by
  fun_induction lineCounts u file tokens generalizing count count' with
  | case1 file =>
    cases h
    cases h'
    cases file <;> rfl
  | case3 file token rest hdash digits hline ih =>
    unfold linesAndFile at h h'
    simp only [hdash, hline, if_true] at h h'
    cases hn : int digits <;> cases hn' : int' digits <;> simp only [hn, hn', reduceCtorEq] at h h'
    exact ih h h'
  | case5 file token hdash hline digits rest hdigit ih =>
    unfold linesAndFile at h h'
    simp only [hdash, hline, hdigit, if_true] at h h'
    cases hn : int digits <;> cases hn' : int' digits <;> simp only [hn, hn', reduceCtorEq] at h h'
    exact ih h h'
  | case7 token rest hdash ih =>
    unfold linesAndFile at h h'
    simp only [hdash] at h h'
    exact ih h h'
  -- the loop answers nothing, with any converter
  | _ =>
    unfold linesAndFile at h h'
    simp_all

theorem getContentArguments_agree {count count' : Nat} {file : Option Text}
    {mode : Option ContentMode} {tokens : List Text}
    {r r' : Option (Text × Option ContentMode × Nat)}
    (h : getContentArguments u int file mode count tokens = .ok r)
    (h' : getContentArguments u int' file mode count' tokens = .ok r') :
    r.map (·.2.1) = r'.map (·.2.1) := by
  fun_induction contentCounts u file mode tokens generalizing count count' with
  | case1 file =>
    cases h
    cases h'
    cases file <;> rfl
  | case2 file token asked hasked digits rest hdigit ih =>
    unfold getContentArguments at h h'
    simp only [hasked, hdigit, if_true] at h h'
    cases hn : int digits <;> cases hn' : int' digits <;> simp only [hn, hn', reduceCtorEq] at h h'
    exact ih h h'
  | case4 file mode token rest asked hasked hother =>
    unfold getContentArguments at h h'
    simp only [hasked] at h h'
    cases h
    cases h'
    rfl
  | case6 mode token rest hasked hdash ih =>
    unfold getContentArguments at h h'
    simp only [hasked, hdash] at h h'
    exact ih h h'
  | _ =>
    unfold getContentArguments at h h'
    simp_all

/-- Two rules that differ by their converter only. -/
structure TranslationRule.Alike (rule rule' : TranslationRule) : Prop where
  programs : rule.programs = rule'.programs
  agree : ∀ {segment r r'}, rule.apply segment = .ok r → rule'.apply segment = .ok r' →
    r.isSome = r'.isSome

theorem alike_const {ruleId sourceForm targetForm : String} {programs : List String}
    {f : List Text → Option (List Text)} :
    TranslationRule.Alike ⟨ruleId, programs, sourceForm, targetForm, fun t => .ok (f t)⟩
      ⟨ruleId, programs, sourceForm, targetForm, fun t => .ok (f t)⟩ where
  programs := rfl
  agree h h' := by
    cases h
    cases h'
    rfl

theorem alike_posixLines {ruleId sourceForm targetForm option : String} {programs : List String} :
    TranslationRule.Alike ⟨ruleId, programs, sourceForm, targetForm, posixLines u int option⟩
      ⟨ruleId, programs, sourceForm, targetForm, posixLines u int' option⟩ where
  programs := rfl
  agree {segment r r'} h h' := by
    dsimp only [posixLines] at h h'
    cases hl : linesAndFile u int 10 none segment.tail with
    | error e => simp [hl] at h
    | ok parsed =>
      cases hl' : linesAndFile u int' 10 none segment.tail with
      | error e => simp [hl'] at h'
      | ok parsed' =>
        have hsome := linesAndFile_agree hl hl'
        rw [hl] at h
        rw [hl'] at h'
        cases h
        cases h'
        rwa [Option.isSome_map, Option.isSome_map]

theorem alike_powershellLines {ruleId sourceForm targetForm program : String}
    {programs : List String} {wanted : ContentMode} :
    TranslationRule.Alike
      ⟨ruleId, programs, sourceForm, targetForm, powershellLines u int wanted program⟩
      ⟨ruleId, programs, sourceForm, targetForm, powershellLines u int' wanted program⟩ where
  programs := rfl
  agree {segment r r'} h h' := by
    dsimp only [powershellLines] at h h'
    cases hl : powershellGetContent u int segment with
    | error e => simp [hl] at h
    | ok parsed =>
      cases hl' : powershellGetContent u int' segment with
      | error e => simp [hl'] at h'
      | ok parsed' =>
        have hmode := getContentArguments_agree hl hl'
        rw [hl] at h
        rw [hl'] at h'
        rcases parsed with _ | ⟨file, _ | mode, count⟩ <;>
          rcases parsed' with _ | ⟨file', _ | mode', count'⟩ <;> simp at hmode h h' <;>
          subst h h'
        all_goals first | rfl | (subst hmode; split <;> rfl)

theorem alike_powershellPrintFile {ruleId sourceForm targetForm : String} {programs : List String} :
    TranslationRule.Alike ⟨ruleId, programs, sourceForm, targetForm, powershellPrintFile u int⟩
      ⟨ruleId, programs, sourceForm, targetForm, powershellPrintFile u int'⟩ where
  programs := rfl
  agree {segment r r'} h h' := by
    dsimp only [powershellPrintFile] at h h'
    cases hl : powershellGetContent u int segment with
    | error e => simp [hl] at h
    | ok parsed =>
      cases hl' : powershellGetContent u int' segment with
      | error e => simp [hl'] at h'
      | ok parsed' =>
        have hmode := getContentArguments_agree hl hl'
        rw [hl] at h
        rw [hl'] at h'
        rcases parsed with _ | ⟨file, _ | mode, count⟩ <;>
          rcases parsed' with _ | ⟨file', _ | mode', count'⟩ <;> simp at hmode h h' <;>
          subst h h' <;> rfl

theorem rulesFor_alike (source : ShellDialect) :
    List.Forall₂ TranslationRule.Alike (rulesFor u int source) (rulesFor u int' source) := by
  cases source with
  | posix =>
    exact .cons alike_const (.cons alike_const (.cons alike_posixLines (.cons alike_posixLines
      (.cons alike_const (.cons alike_const (.cons alike_const (.cons alike_const .nil)))))))
  | powershell =>
    exact .cons alike_const (.cons alike_const (.cons alike_powershellLines
      (.cons alike_powershellLines (.cons alike_powershellPrintFile (.cons alike_const
      (.cons alike_const (.cons alike_const .nil)))))))
  | cmd => exact .nil
  | unknown => exact .nil

theorem applyRules_agree {program : Text} {segment : List Text}
    {claimed claimed' rules rules' : List TranslationRule} {o o' : SegmentOutcome}
    (hrules : List.Forall₂ TranslationRule.Alike rules rules')
    (h : applyRules program segment claimed rules = .ok o)
    (h' : applyRules program segment claimed' rules' = .ok o') :
    o.isTranslated = o'.isTranslated := by
  induction hrules generalizing claimed claimed' with
  | nil =>
    cases h
    cases h'
    rfl
  | @cons rule rule' rules rules' halike _ ih =>
    unfold applyRules at h h'
    rw [← halike.programs] at h'
    split at h
    · rename_i hnamed
      rw [if_pos hnamed] at h'
      cases happly : rule.apply segment with
      | error e => simp [happly] at h
      | ok r =>
        cases happly' : rule'.apply segment with
        | error e => simp [happly'] at h'
        | ok r' =>
          have hsome := halike.agree happly happly'
          rw [happly] at h
          rw [happly'] at h'
          cases r with
          | none =>
            cases r' with
            | none => exact ih h h'
            | some tokens => simp at hsome
          | some tokens =>
            cases r' with
            | none => simp at hsome
            | some tokens' =>
              cases h
              cases h'
              rfl
    · rename_i hnamed
      rw [if_neg hnamed] at h'
      exact ih h h'

theorem translateSegment_agree {source : ShellDialect} {segment : List Text} {o o' : SegmentOutcome}
    (h : translateSegment u int source segment = .ok o)
    (h' : translateSegment u int' source segment = .ok o') : o.isTranslated = o'.isTranslated := by
  unfold translateSegment at h h'
  dsimp only at h h'
  split at h
  · rename_i hassign
    rw [if_pos hassign] at h'
    cases h
    cases h'
    rfl
  · rename_i hassign
    rw [if_neg hassign] at h'
    split at h
    · rename_i refusal hrefusal
      rw [hrefusal] at h'
      cases h
      cases h'
      rfl
    · rename_i hrefusal
      rw [hrefusal] at h'
      exact applyRules_agree (rulesFor_alike source) h h'

theorem covered_eq {source : ShellDialect} {segment : List Text} {o : SegmentOutcome}
    (h : translateSegment u int source segment = .ok o) :
    covered u source segment = o.isTranslated := by
  obtain ⟨o', h'⟩ : ∃ o', translateSegment u (fun _ => .ok 0) source segment = .ok o' :=
    translateSegment_ok_iff.2 fun t _ => ⟨0, rfl⟩
  unfold covered
  rw [h']
  exact translateSegment_agree h' h

theorem any_programs_eq {rules rules' : List TranslationRule}
    (h : List.Forall₂ TranslationRule.Alike rules rules') (program : Text) :
    rules.any (fun r => namedIn r.programs program) =
      rules'.any fun r => namedIn r.programs program := by
  induction h with
  | nil => rfl
  | cons halike _ ih => rw [List.any_cons, List.any_cons, halike.programs, ih]

theorem recognises_eq (source : ShellDialect) (cmd : Text) :
    recognises u int source cmd = recognises u int' source cmd := by
  unfold recognises isKnown
  dsimp only
  rw [any_programs_eq (rulesFor_alike source)]

/-! ## The command line -/

theorem translateSegments_ok_iff {source : ShellDialect} {rewritten : List Text}
    {fired : List String} {segments : List (List Text)} :
    (∃ r, translateSegments u int source rewritten fired segments = .ok r) ↔
      ∀ t ∈ reachedCounts u source segments, ∃ n, int t = .ok n := by
  induction segments generalizing rewritten fired with
  | nil => exact ⟨fun _ t ht => absurd ht List.not_mem_nil, fun _ => ⟨_, rfl⟩⟩
  | cons segment segments ih =>
    unfold translateSegments reachedCounts
    rw [List.forall_mem_append, ← translateSegment_ok_iff]
    cases hseg : translateSegment u int source segment with
    | error e => simp
    | ok outcome =>
      rw [covered_eq hseg]
      cases outcome with
      | stopped reason => simp [SegmentOutcome.isTranslated]
      | translated tokens ruleId =>
        refine ih.trans ⟨fun h => ⟨⟨_, rfl⟩, h⟩, fun h => h.2⟩

theorem translateWith_scanned {target : ShellDialect} {cmd : String} {segments : List (List Text)}
    {hasVariables : Bool} (htarget : target = .posix ∨ target = .powershell)
    (hblank : isBlank cmd = false)
    (hrecognises : recognises u int (sourceDialectFor target) cmd.toList = true)
    (hscan : scan u (sourceDialectFor target) cmd.toList = .ok (segments, hasVariables)) :
    translateWith u int target true (some cmd) =
      match translateSegments u int (sourceDialectFor target) []
        (if hasVariables then ["environment-variable"] else []) segments with
      | .error e => .error e
      | .ok (.error reason) =>
        .ok (some ⟨sourceDialectFor target, target, cmd, cmd, [], some reason⟩)
      | .ok (.ok (rewritten, fired)) =>
        .ok (some ⟨sourceDialectFor target, target, cmd,
          .ofList (List.intercalate [';', ' '] rewritten), fired, none⟩) := by
  unfold translateWith
  dsimp only
  rw [if_neg (by simp [htarget, hblank]), if_neg (by simp [hrecognises])]
  generalize hresult : translateSegments u int (sourceDialectFor target) [] _ segments = result
  rcases result with e | (reason | ⟨rewritten, fired⟩) <;> simp only [hscan, hresult]

/-- The translator returns, for a command and a target, exactly when `int` accepts every count that
it reaches: decimal digits, and no more of them than the limit. -/
theorem translate_returns_iff (target : ShellDialect) (enabled : Bool) (cmd : Option String) :
    (∃ r, translate u target enabled cmd = .ok r) ↔
      ∀ t ∈ reachedCounts u (sourceDialectFor target) (consulted u target enabled cmd),
        u.Readable t := by
  have hint : ∀ ts : List Text,
      (∀ t ∈ ts, u.Readable t) ↔ ∀ t ∈ ts, ∃ n, u.int t = .ok n :=
    fun ts => forall₂_congr fun t _ => UnicodeTable.int_ok_iff.symm
  rw [hint]
  unfold translate translateWith consulted
  dsimp only
  cases cmd with
  | none => simp [reachedCounts]
  | some cmd =>
    have hrecognises : recognises u (fun _ => .ok 0) (sourceDialectFor target) cmd.toList =
        recognises u u.int (sourceDialectFor target) cmd.toList := recognises_eq _ _
    dsimp only
    rw [hrecognises]
    split
    · simp [reachedCounts]
    · split
      · simp [reachedCounts]
      · cases scan u (sourceDialectFor target) cmd.toList with
        | error refusal => simp [reachedCounts]
        | ok scanned =>
          obtain ⟨segments, hasVariables⟩ := scanned
          dsimp only
          generalize (if hasVariables = true then ["environment-variable"] else []) = fired
          refine Iff.trans ?_ (@translateSegments_ok_iff u u.int _ [] fired segments)
          rcases translateSegments u u.int (sourceDialectFor target) [] fired segments with
            e | (reason | ⟨rewritten, rules⟩) <;> simp

/-! ## A digit that is not decimal -/

def isSuperscript (c : Char) : Bool := c == '²' || c == '³' || c == '¹'

/-- The Unicode database on ASCII and on the superscripts of Latin-1, which are digits and have no
decimal value. -/
def superscripts : UnicodeTable where
  isDigit c := c.isDigit || isSuperscript c
  decimal c := if c.isDigit then some (c.toNat - '0'.toNat) else none
  isWord c := c.isAlphanum || c == '_' || isSuperscript c
  lower text := text.map Char.toLower
  upper text := text.map Char.toUpper
  isWord_ascii c hc := by
    have hnot : isSuperscript c = false := by
      unfold isSuperscript
      rw [Bool.or_eq_false_iff, Bool.or_eq_false_iff, beq_eq_false_iff_ne, beq_eq_false_iff_ne,
        beq_eq_false_iff_ne]
      refine ⟨⟨?_, ?_⟩, ?_⟩ <;> rintro rfl <;> exact absurd hc (by decide)
    rw [hnot, Bool.or_false]
  isWord_blank c hc := by
    have halnum : c.isAlphanum = false := by
      rw [← Bool.not_eq_true]
      intro h
      obtain ⟨hlow, hhigh⟩ := isAlphanum_bounds h
      rw [isBlankChar_of_bounds hlow hhigh] at hc
      cases hc
    unfold isSuperscript
    rw [halnum, Bool.false_or, Bool.or_eq_false_iff, Bool.or_eq_false_iff, Bool.or_eq_false_iff,
      beq_eq_false_iff_ne, beq_eq_false_iff_ne, beq_eq_false_iff_ne, beq_eq_false_iff_ne]
    refine ⟨?_, ⟨?_, ?_⟩, ?_⟩ <;> rintro rfl <;> cases hc
  isWord_quotation c hc := by
    simp only [List.mem_cons, List.not_mem_nil, or_false] at hc
    obtain rfl | rfl | rfl | rfl | rfl | rfl | rfl := hc <;> decide

/-- The first `²` lines of a file: the command passes `str.isdigit`, and `int` raises. -/
theorem translate_superscript_raises :
    ¬ ∃ r, translate superscripts .powershell true (some "head -n ² f") = .ok r := by
  have hblank : isBlank "head -n ² f" = false := rfl
  have hrecognises : recognises superscripts superscripts.int .posix "head -n ² f".toList = true :=
    rfl
  have hscan : scan superscripts .posix "head -n ² f".toList =
      .ok ([["head".toList, "-n".toList, ['²'], ['f']]], false) := rfl
  have hsegment : translateSegment superscripts superscripts.int .posix
      ["head".toList, "-n".toList, ['²'], ['f']] =
      .error (.valueError "invalid literal for int() with base 10: '²'") := rfl
  rintro ⟨r, hr⟩
  unfold translate at hr
  rw [translateWith_scanned (.inr rfl) hblank hrecognises hscan] at hr
  unfold translateSegments at hr
  rw [show sourceDialectFor .powershell = .posix from rfl, hsegment] at hr
  cases hr

end Dialects

end AgenticLocalApp
