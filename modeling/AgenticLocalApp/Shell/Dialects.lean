import AgenticLocalApp.Domain.Errors
import AgenticLocalApp.Domain.Shell
import AgenticLocalApp.Execution.Executor

/-!
# The dictionary between shell dialects

A command written for one shell is rewritten for the other when the dictionary covers all of it: the
command line is scanned into simple commands by the quotes of the source dialect, variables are
rewritten token by token, and one rule of the table is applied to each simple command.
-/

namespace AgenticLocalApp

abbrev Text := List Char

/-! ## Characters and numbers -/

theorem isAlphanum_bounds {c : Char} (h : c.isAlphanum = true) : 48 ≤ c.toNat ∧ c.toNat ≤ 122 := by
  change ((decide (c.val ≥ 'A'.val ∧ c.val ≤ 'Z'.val) ||
    (decide (c.val ≥ 'a'.val) && decide (c.val ≤ 'z'.val))) ||
    (decide (c.val ≥ '0'.val) && decide (c.val ≤ '9'.val))) = true at h
  simp only [Bool.or_eq_true, Bool.and_eq_true, decide_eq_true_eq, UInt32.le_iff_toNat_le,
    ge_iff_le] at h
  unfold Char.toNat
  have hA : 'A'.val.toNat = 65 := rfl
  have hZ : 'Z'.val.toNat = 90 := rfl
  have ha : 'a'.val.toNat = 97 := rfl
  have hz : 'z'.val.toNat = 122 := rfl
  have h0 : '0'.val.toNat = 48 := rfl
  have h9 : '9'.val.toNat = 57 := rfl
  omega

theorem isBlankChar_of_bounds {c : Char} (h : 48 ≤ c.toNat) (h' : c.toNat ≤ 122) :
    isBlankChar c = false := by
  unfold isBlankChar
  simp
  omega

/-- What the Unicode database of Python says of characters and of case. -/
structure UnicodeTable where
  isDigit : Char → Bool
  /-- The decimal value of a character of category `Nd`. -/
  decimal : Char → Option Nat
  isWord : Char → Bool
  lower : Text → Text
  upper : Text → Text
  isWord_ascii : ∀ c : Char, c.toNat < 128 → isWord c = (c.isAlphanum || c == '_')
  isWord_blank : ∀ c : Char, isBlankChar c = true → isWord c = false
  /-- The quotation marks of Unicode are not word characters. -/
  isWord_quotation : ∀ c ∈ ['‘', '’', '‚', '‛', '“', '”', '„'], isWord c = false

/-- The number of digits that `int` accepts. -/
def intMaxStrDigits : Nat := 4300

namespace UnicodeTable

variable (u : UnicodeTable)

/-- `str.isdigit`. -/
def isDigitText (text : Text) : Bool := !text.isEmpty && text.all u.isDigit

def isDecimal (c : Char) : Bool := (u.decimal c).isSome

/-- `int`, of a text that holds neither blanks, nor a sign, nor underscores. -/
def int (text : Text) : Except Exc Nat :=
  if text.isEmpty || !text.all u.isDecimal then
    .error (.valueError ("invalid literal for int() with base 10: '" ++ .ofList text ++ "'"))
  else if intMaxStrDigits < text.length then
    .error (.valueError ("Exceeds the limit (4300 digits) for integer string conversion: value has "
      ++ toString text.length ++ " digits; use sys.set_int_max_str_digits() to increase the limit"))
  else .ok (text.foldl (fun n c => 10 * n + (u.decimal c).getD 0) 0)

end UnicodeTable

/-- `str.strip` of the characters that satisfy `p`. -/
def stripChars (p : Char → Bool) (text : Text) : Text :=
  ((text.dropWhile p).reverse.dropWhile p).reverse

/-- `str.rstrip`. -/
def rstripChars (p : Char → Bool) (text : Text) : Text := (text.reverse.dropWhile p).reverse

/-- `text in names`. -/
def namedIn (names : List String) (text : Text) : Bool := names.any fun name => name.toList == text

namespace Dialects

variable (u : UnicodeTable)

def programSuffixes : List String := [".exe", ".cmd", ".bat", ".com"]

def shellName (program : Text) : Text :=
  let bare := stripChars (fun c => c == '"' || c == '\'') (stripChars isBlankChar program)
  let name := u.lower ((bare.reverse.takeWhile fun c => c != '\\' && c != '/').reverse)
  match programSuffixes.find? fun s => s.toList.isSuffixOf name && s.length < name.length with
  | some suffix => name.take (name.length - suffix.length)
  | none => name

def sourceDialectFor (target : ShellDialect) : ShellDialect :=
  if target = .powershell then .posix else .powershell

/-! ## Variables -/

/-- `[A-Za-z_]\w*` at the start of a text: the name and what follows it. -/
def nameAt : Text → Option (Text × Text)
  | c :: rest =>
    if c.isAlpha || c == '_' then
      some (c :: rest.takeWhile u.isWord, rest.dropWhile u.isWord)
    else none
  | [] => none

/-- `_BRACED_VARIABLE`: the name of a braced variable and what follows it. -/
def bracedVariable : Text → Option (Text × Text)
  | '$' :: '{' :: rest =>
    match nameAt u rest with
    | some (name, '}' :: after) => some (name, after)
    | _ => none
  | _ => none

/-- A piece of a token: a character, or a variable with the text it is written as and the character
that follows it. -/
inductive Piece where
  | char (c : Char)
  | reference (name group : Text) (next : Option Char)
  deriving DecidableEq

/-- The variable pattern of a source dialect at the start of a text. -/
def variableAt (source : ShellDialect) (text : Text) : Option (Text × Text × Text) :=
  match source with
  | .posix =>
    match bracedVariable u text with
    | some (name, after) => some (name, ['$', '{'] ++ name ++ ['}'], after)
    | none =>
      match text with
      | '$' :: rest => (nameAt u rest).map fun (name, after) => (name, '$' :: name, after)
      | _ => none
  | _ =>
    match text with
    | '$' :: e :: n :: v :: ':' :: rest =>
      if [e, n, v].map Char.toLower = ['e', 'n', 'v'] then
        (nameAt u rest).map fun (name, after) => (name, ['$', e, n, v, ':'] ++ name, after)
      else none
    | _ => none

/-- The matches of the variable pattern in a token, from left to right, and what is between. -/
def pieces (source : ShellDialect) : Nat → Text → List Piece
  | 0, _ => []
  | _ + 1, [] => []
  | fuel + 1, c :: rest =>
    match variableAt u source (c :: rest) with
    | some (name, group, after) => .reference name group after.head? :: pieces source fuel after
    | none => .char c :: pieces source fuel rest

def Piece.isVariable : Piece → Bool
  | .char _ => false
  | .reference .. => true

def posixOwnedNames : List String :=
  ["HOME", "PWD", "OLDPWD", "SHELL", "USER", "LOGNAME", "HOSTNAME", "UID", "EUID", "PPID", "IFS",
    "PS1", "PS2", "PS4", "RANDOM", "SECONDS", "LINENO", "SHLVL", "BASH", "BASH_VERSION", "BASHPID",
    "FUNCNAME", "REPLY", "OPTARG", "OPTIND"]

def windowsOwnedNames : List String :=
  ["USERPROFILE", "USERNAME", "USERDOMAIN", "COMPUTERNAME", "APPDATA", "LOCALAPPDATA",
    "ALLUSERSPROFILE", "PROGRAMFILES", "PROGRAMDATA", "PUBLIC", "SYSTEMROOT", "SYSTEMDRIVE",
    "WINDIR", "COMSPEC", "PATHEXT", "HOMEDRIVE", "HOMEPATH", "TEMP", "TMP", "OS",
    "PROCESSOR_ARCHITECTURE"]

def ownedNames (source : ShellDialect) : List String :=
  if source = .posix then posixOwnedNames else windowsOwnedNames

def otherShell (source : ShellDialect) : String :=
  if source = .posix then "PowerShell" else "a POSIX shell"

def unreadable (text : Text) : String :=
  "`" ++ .ofList text ++ "` carries a `$` this dictionary does not read as an environment variable"

/-- Why a variable is not rewritten, if it is not. -/
def Piece.refusal (source : ShellDialect) (text : Text) : Piece → Option String
  | .char _ => none
  | .reference name group next =>
    -- `$env:NAME` is read by the POSIX pattern as `$env`
    if source = .posix ∧ next = some ':' then some (unreadable text)
    else if namedIn (ownedNames source) (u.upper name) then
      some ("`" ++ .ofList group ++ "` names something the shell itself provides, and " ++
        otherShell source ++ " has no variable with the same meaning")
    else none

def Piece.render (source : ShellDialect) : Piece → Text
  | .char c => [c]
  | .reference name _ _ =>
    if source = .posix then ['$', 'e', 'n', 'v', ':'] ++ name else '$' :: name

/-- `_rewrite_variables`. -/
def rewriteVariables (source : ShellDialect) (text : Text) : Except String (Text × Bool) :=
  if '$' ∉ text then .ok (text, false)
  else
    let found := pieces u source text.length text
    if found.countP Piece.isVariable ≠ text.count '$' then .error (unreadable text)
    else
      match found.findSome? (Piece.refusal u source text) with
      | some refusal => .error refusal
      | none =>
        let rewritten := found.flatMap (Piece.render source)
        .ok (rewritten, rewritten != text)

/-! ## The scan -/

def refusedCharacters : List (Char × String) :=
  [('|', "a pipeline"), ('&', "a chaining or background operator"), ('>', "a redirection"),
    ('<', "a redirection"), (Char.ofNat 0x60, "a backquote"), ('(', "a grouping"),
    (')', "a grouping"), ('{', "a block"), ('}', "a block"), ('*', "a wildcard"),
    ('?', "a wildcard"), ('[', "a wildcard"), (']', "a wildcard"),
    ('~', "a home-directory shortcut"), ('\\', "a backslash escape"), ('#', "a comment"),
    ('!', "an expansion or negation operator"), ('\n', "a line break"), ('\r', "a line break")]

structure ScanState where
  segments : List (List Text) := []
  tokens : List Text := []
  token : Text := []
  hasVariables : Bool := false

namespace ScanState

def push (s : ScanState) (c : Char) : ScanState := { s with token := s.token ++ [c] }

def endToken (source : ShellDialect) (s : ScanState) : Except String ScanState :=
  if s.token = [] then .ok s
  else
    match rewriteVariables u source s.token with
    | .error refusal => .error refusal
    | .ok (rewritten, changed) =>
      .ok { s with token := [], tokens := s.tokens ++ [rewritten],
                   hasVariables := s.hasVariables || changed }

def endSegment (s : ScanState) : ScanState :=
  if s.tokens = [] then s else { s with segments := s.segments ++ [s.tokens], tokens := [] }

end ScanState

/-- The simple commands of a command line, and whether a variable was rewritten. -/
abbrev Scanned := Except String (List (List Text) × Bool)

/-- The loop of `_scan`.  The first `copying` characters are those of a braced variable, which
travels whole. -/
def scanFrom (source : ShellDialect) : Nat → Option Char → ScanState → Text → Scanned
  | _, quote, s, [] =>
    if quote.isSome then .error "the command leaves a quote open"
    else
      match s.endToken u source with
      | .error refusal => .error refusal
      | .ok s =>
        if s.endSegment.segments = [] then .error "the command is empty"
        else .ok (s.endSegment.segments, s.endSegment.hasVariables)
  | copying + 1, quote, s, char :: rest => scanFrom source copying quote (s.push char) rest
  | 0, some q, s, char :: rest =>
    scanFrom source 0 (if char = q then none else some q) (s.push char) rest
  | 0, none, s, char :: rest =>
    if char = '"' ∨ char = '\'' then scanFrom source 0 (some char) (s.push char) rest
    else if char = '$' ∧ rest.head? = some '(' then
      .error "the command uses a command substitution"
    else if char = '$' ∧ rest.head? = some '{' then
      match bracedVariable u (char :: rest) with
      | none => .error "the command uses a block"
      | some (name, _) => scanFrom source (name.length + 2) none (s.push char) rest
    else
      match refusedCharacters.lookup char with
      | some what => .error ("the command uses " ++ what)
      | none =>
        if char = ';' then
          match s.endToken u source with
          | .error refusal => .error refusal
          | .ok s => scanFrom source 0 none s.endSegment rest
        else if isBlankChar char then
          match s.endToken u source with
          | .error refusal => .error refusal
          | .ok s => scanFrom source 0 none s rest
        else scanFrom source 0 none (s.push char) rest

/-- `_scan`. -/
def scan (source : ShellDialect) (cmd : Text) : Scanned := scanFrom u source 0 none {} cmd

/-! ## The rules -/

def startsWithDash (token : Text) : Bool := token.head? == some '-'

def isOption (token : Text) : Bool := startsWithDash token && 1 < token.length

def singleOperand (tokens : List Text) : Option Text :=
  match tokens.tail with
  | [operand] => if isOption operand then none else some operand
  | _ => none

def noOperand (tokens : List Text) : Bool := tokens.length == 1

/-- The options and the paths of `ls`. -/
def posixListArguments : Bool → List Text → List Text → Option (Bool × List Text)
  | force, paths, [] => some (force, paths)
  | force, paths, token :: rest =>
    if startsWithDash token then
      let letters := token.tail
      if letters = [] ∨ ¬ letters.all (fun c => c == 'a' || c == 'A' || c == 'l') then none
      else posixListArguments (force || letters.any fun c => c == 'a' || c == 'A') paths rest
    else posixListArguments force (paths ++ [token]) rest

def posixListDirectory (tokens : List Text) : Option (List Text) :=
  match posixListArguments false [] tokens.tail with
  | none => none
  | some (force, paths) =>
    if 1 < paths.length then none
    else some ("Get-ChildItem".toList :: (if force then ["-Force".toList] else []) ++ paths)

def posixPrintFile (tokens : List Text) : Option (List Text) :=
  (singleOperand tokens).map fun operand => ["Get-Content".toList, operand]

/-- `_LINE_COUNT`: the digits attached to the option, if any; `none` when the option is another. -/
def lineCount (token : Text) : Option (Option Text) :=
  -- `$` also matches before a line break at the end
  let body := if token.getLast? = some '\n' then token.dropLast else token
  match body with
  | '-' :: 'n' :: digits =>
    if digits = [] then some none
    else if digits.all u.isDecimal then some (some digits) else none
  | '-' :: digits =>
    if digits ≠ [] ∧ digits.all u.isDecimal then some (some digits) else none
  | _ => none

section Counts

/- The converter of a text of digits: Python's `int`. -/
variable (int : Text → Except Exc Nat)

/-- The loop of `_lines_and_file`. -/
def linesAndFile : Nat → Option Text → List Text → Except Exc (Option (Nat × Text))
  | count, file, [] => .ok (file.map fun f => (count, f))
  | count, file, token :: rest =>
    if startsWithDash token then
      match lineCount u token with
      | none => .ok none
      | some (some digits) =>
        match int digits with
        | .error e => .error e
        | .ok count => linesAndFile count file rest
      | some none =>
        match rest with
        | [] => .ok none
        | digits :: rest =>
          if u.isDigitText digits then
            match int digits with
            | .error e => .error e
            | .ok count => linesAndFile count file rest
          else .ok none
    else
      match file with
      | none => linesAndFile count (some token) rest
      | some _ => .ok none

/-- `head` and `tail`, with ten lines by default, as a `Get-Content` with the given option. -/
def posixLines (option : String) (tokens : List Text) : Except Exc (Option (List Text)) :=
  match linesAndFile u int 10 none tokens.tail with
  | .error e => .error e
  | .ok parsed =>
    .ok (parsed.map fun (count, file) =>
      ["Get-Content".toList, file, option.toList, (toString count).toList])

def posixHead := posixLines u int "-TotalCount"

def posixTail := posixLines u int "-Tail"

def posixPwd (tokens : List Text) : Option (List Text) :=
  if noOperand tokens then some ["Get-Location".toList] else none

def posixEcho (tokens : List Text) : Option (List Text) :=
  (singleOperand tokens).map fun operand => ["Write-Output".toList, operand]

def posixWhich (tokens : List Text) : Option (List Text) :=
  (singleOperand tokens).map fun operand => ["Get-Command".toList, operand]

def posixEnv (tokens : List Text) : Option (List Text) :=
  if noOperand tokens then some ["Get-ChildItem".toList, "Env:".toList] else none

/-- The operands of a cmdlet call without any parameter. -/
def powershellOperands (tokens : List Text) : Option (List Text) :=
  if tokens.tail.any startsWithDash then none else some tokens.tail

def powershellListArguments : Bool → List Text → List Text → Option (Bool × List Text)
  | force, paths, [] => some (force, paths)
  | force, paths, token :: rest =>
    if u.lower token = "-force".toList then powershellListArguments true paths rest
    else if startsWithDash token then none
    else powershellListArguments force (paths ++ [token]) rest

/-- The operand that names the drive of the environment. -/
def isEnvDrive (operand : Text) : Bool :=
  rstripChars (fun c => c == '\\' || c == '/') (u.lower operand) == "env:".toList

def powershellListDirectory (tokens : List Text) : Option (List Text) :=
  match powershellListArguments u false [] tokens.tail with
  | none => none
  | some (force, paths) =>
    if 1 < paths.length ∨ paths.head?.any (isEnvDrive u) then none
    else some ("ls".toList :: (if force then ["-a".toList] else []) ++ paths)

def powershellListEnvironment (tokens : List Text) : Option (List Text) :=
  match powershellOperands tokens with
  | some [operand] => if isEnvDrive u operand then some ["env".toList] else none
  | _ => none

inductive ContentMode where
  | head | tail
  deriving DecidableEq

/-- The mode that a parameter of `Get-Content` asks for. -/
def contentMode (token : Text) : Option ContentMode :=
  if namedIn ["-totalcount", "-head", "-first"] (u.lower token) then some .head
  else if namedIn ["-tail", "-last"] (u.lower token) then some .tail
  else none

/-- The loop of `_powershell_get_content`. -/
def getContentArguments : Option Text → Option ContentMode → Nat → List Text →
    Except Exc (Option (Text × Option ContentMode × Nat))
  | file, mode, count, [] => .ok (file.map fun f => (f, mode, count))
  | file, mode, count, token :: rest =>
    match contentMode u token with
    | some asked =>
      match mode, rest with
      | none, digits :: rest =>
        if u.isDigitText digits then
          match int digits with
          | .error e => .error e
          | .ok count => getContentArguments file (some asked) count rest
        else .ok none
      | _, _ => .ok none
    | none =>
      if startsWithDash token then .ok none
      else
        match file with
        | none => getContentArguments (some token) mode count rest
        | some _ => .ok none

def powershellGetContent (tokens : List Text) :
    Except Exc (Option (Text × Option ContentMode × Nat)) :=
  getContentArguments u int none none 0 tokens.tail

def powershellPrintFile (tokens : List Text) : Except Exc (Option (List Text)) :=
  match powershellGetContent u int tokens with
  | .error e => .error e
  | .ok (some (file, none, _)) => .ok (some ["cat".toList, file])
  | .ok _ => .ok none

/-- `_powershell_head` and `_powershell_tail`. -/
def powershellLines (wanted : ContentMode) (program : String) (tokens : List Text) :
    Except Exc (Option (List Text)) :=
  match powershellGetContent u int tokens with
  | .error e => .error e
  | .ok (some (file, some mode, count)) =>
    .ok (if mode = wanted then
      some [program.toList, "-n".toList, (toString count).toList, file] else none)
  | .ok _ => .ok none

def powershellHead := powershellLines u int .head "head"

def powershellTail := powershellLines u int .tail "tail"

def powershellPwd (tokens : List Text) : Option (List Text) :=
  if noOperand tokens then some ["pwd".toList] else none

def powershellEcho (tokens : List Text) : Option (List Text) :=
  match powershellOperands tokens with
  | some [operand] => some ["echo".toList, operand]
  | _ => none

def powershellWhich (tokens : List Text) : Option (List Text) :=
  match powershellOperands tokens with
  | some [operand] => some ["command".toList, "-v".toList, operand]
  | _ => none

/-- One line of the dictionary. -/
structure TranslationRule where
  ruleId : String
  programs : List String
  sourceForm : String
  targetForm : String
  apply : List Text → Except Exc (Option (List Text))

def posixToPowershell : List TranslationRule :=
  [⟨"list-environment", ["env", "printenv"], "env", "Get-ChildItem Env:",
      fun t => .ok (posixEnv t)⟩,
    ⟨"list-directory", ["ls"], "ls [-a|-A|-l] [PATH]", "Get-ChildItem [-Force] [PATH]",
      fun t => .ok (posixListDirectory t)⟩,
    ⟨"head-lines", ["head"], "head [-n N] FILE", "Get-Content FILE -TotalCount N", posixHead u int⟩,
    ⟨"tail-lines", ["tail"], "tail [-n N] FILE", "Get-Content FILE -Tail N", posixTail u int⟩,
    ⟨"print-file", ["cat"], "cat FILE", "Get-Content FILE", fun t => .ok (posixPrintFile t)⟩,
    ⟨"print-working-directory", ["pwd"], "pwd", "Get-Location", fun t => .ok (posixPwd t)⟩,
    ⟨"print-text", ["echo"], "echo ARG", "Write-Output ARG", fun t => .ok (posixEcho t)⟩,
    ⟨"locate-program", ["which"], "which NAME", "Get-Command NAME", fun t => .ok (posixWhich t)⟩]

def powershellToPosix : List TranslationRule :=
  [⟨"list-environment", ["get-childitem", "gci"], "Get-ChildItem Env:", "env",
      fun t => .ok (powershellListEnvironment u t)⟩,
    ⟨"list-directory", ["get-childitem", "gci"], "Get-ChildItem [-Force] [PATH]", "ls [-a] [PATH]",
      fun t => .ok (powershellListDirectory u t)⟩,
    ⟨"head-lines", ["get-content", "gc"], "Get-Content FILE -TotalCount N", "head -n N FILE",
      powershellHead u int⟩,
    ⟨"tail-lines", ["get-content", "gc"], "Get-Content FILE -Tail N", "tail -n N FILE",
      powershellTail u int⟩,
    ⟨"print-file", ["get-content", "gc"], "Get-Content FILE", "cat FILE",
      powershellPrintFile u int⟩,
    ⟨"print-working-directory", ["get-location", "gl"], "Get-Location", "pwd",
      fun t => .ok (powershellPwd t)⟩,
    ⟨"print-text", ["write-output"], "Write-Output ARG", "echo ARG",
      fun t => .ok (powershellEcho t)⟩,
    ⟨"locate-program", ["get-command"], "Get-Command NAME", "command -v NAME",
      fun t => .ok (powershellWhich t)⟩]

def rulesFor (source : ShellDialect) : List TranslationRule :=
  match source with
  | .posix => posixToPowershell u int
  | .powershell => powershellToPosix u int
  | _ => []

end Counts

def writes : String :=
  "the dictionary translates only commands that read, never one that creates, moves or deletes"

def pattern : String :=
  "its pattern, field or expression language is not the same in the other dialect"

def exitCode : String :=
  "it answers by its exit code, and the two dialects do not agree on exit codes"

def noEquivalent : String :=
  "the other dialect has no command that answers exactly the same question"

/-- The programs that are recognised and left alone, by reason. -/
def refusals (source : ShellDialect) : List (List String × String) :=
  match source with
  | .posix =>
    [(["rm", "rmdir", "mv", "cp", "ln", "mkdir", "touch", "chmod", "chown", "dd", "truncate", "tee",
        "install", "kill", "pkill", "killall"], writes),
      (["grep", "egrep", "fgrep", "sed", "awk", "find", "cut", "tr", "sort", "uniq", "xargs", "wc"],
        pattern),
      (["test"], exitCode),
      (["uname", "df", "du", "ps", "stat", "date", "export", "source", "basename", "dirname",
        "readlink"], noEquivalent)]
  | .powershell =>
    [(["remove-item", "move-item", "copy-item", "rename-item", "new-item", "set-content",
        "add-content", "clear-content", "out-file", "set-itemproperty", "stop-process"], writes),
      (["select-string", "where-object", "foreach-object", "sort-object", "select-object",
        "measure-object", "group-object", "compare-object"], pattern),
      (["test-path"], exitCode),
      (["get-process", "get-service", "get-date", "start-sleep", "get-ciminstance",
        "get-wmiobject", "get-computerinfo", "get-acl", "get-item", "get-member"], noEquivalent)]
  | _ => []

def refusalOf (source : ShellDialect) (program : Text) : Option String :=
  ((refusals source).find? fun entry => namedIn entry.1 program).map Prod.snd

/-! ## The translator -/

/-- `_ASSIGNMENT`. -/
def isAssignment (text : Text) : Bool :=
  match nameAt u text with
  | some (_, '=' :: _) => true
  | _ => false

inductive SegmentOutcome where
  | translated (tokens : List Text) (ruleId : String)
  | stopped (reason : String)

section Translate

variable (int : Text → Except Exc Nat)

/-- The programs that the dictionary knows of a dialect. -/
def isKnown (source : ShellDialect) (program : Text) : Bool :=
  (rulesFor u int source).any (fun rule => namedIn rule.programs program) ||
    (refusalOf source program).isSome

/-- The first rule that claims the program and covers the command, among those left to consult. -/
def applyRules (program : Text) (segment : List Text) :
    List TranslationRule → List TranslationRule → Except Exc SegmentOutcome
  | claimed, [] =>
    .ok (.stopped (if claimed = [] then "no rule maps `" ++ .ofList program ++ "`"
      else "the rule for `" ++ .ofList program ++ "` covers " ++
        " or ".intercalate (claimed.map fun rule => "`" ++ rule.sourceForm ++ "`") ++
        " only, and this command is outside it"))
  | claimed, rule :: rules =>
    if namedIn rule.programs program then
      match rule.apply segment with
      | .error e => .error e
      | .ok (some tokens) => .ok (.translated tokens rule.ruleId)
      | .ok none => applyRules program segment (claimed ++ [rule]) rules
    else applyRules program segment claimed rules

/-- `_translate_segment`. -/
def translateSegment (source : ShellDialect) (segment : List Text) : Except Exc SegmentOutcome :=
  let first := segment.headD []
  let program := shellName u first
  if source = .posix ∧ isAssignment u first then
    .ok (.stopped ("`" ++ .ofList first ++
      "` is a `NAME=value` prefix, and PowerShell has no syntax for one"))
  else
    match refusalOf source program with
    | some refusal => .ok (.stopped ("no rule maps `" ++ .ofList program ++ "`: " ++ refusal))
    | none => applyRules program segment [] (rulesFor u int source)

/-- The segments rewritten so far and the rules fired, or the reason that nothing is rewritten. -/
def translateSegments (source : ShellDialect) : List Text → List String → List (List Text) →
    Except Exc (Except String (List Text × List String))
  | rewritten, fired, [] => .ok (.ok (rewritten, fired))
  | rewritten, fired, segment :: segments =>
    match translateSegment u int source segment with
    | .error e => .error e
    | .ok (.stopped reason) => .ok (.error reason)
    | .ok (.translated tokens ruleId) =>
      translateSegments source (rewritten ++ [List.intercalate [' '] tokens])
        (if ruleId ∈ fired then fired else fired ++ [ruleId]) segments

/-- Whether the command line opens with a program of the source dialect. -/
def recognises (source : ShellDialect) (cmd : Text) : Bool :=
  let first := (stripChars isBlankChar cmd).takeWhile fun c => !isBlankChar c && c != ';'
  isKnown u int source (shellName u first) || (source == .posix && isAssignment u first)

/-- `ShellTranslator.translate`, for a converter of digits. -/
def translateWith (target : ShellDialect) (enabled : Bool) (cmd : Option String) :
    Except Exc (Option CommandTranslation) :=
  let source := sourceDialectFor target
  match cmd with
  | none => .ok none
  | some cmd =>
    if ¬ (enabled ∧ (target = .posix ∨ target = .powershell)) ∨ isBlank cmd then .ok none
    else if ¬ recognises u int source cmd.toList then .ok none
    else
      match scan u source cmd.toList with
      | .error refusal => .ok (some ⟨source, target, cmd, cmd, [], some refusal⟩)
      | .ok (segments, hasVariables) =>
        match translateSegments u int source []
          (if hasVariables then ["environment-variable"] else []) segments with
        | .error e => .error e
        | .ok (.error reason) => .ok (some ⟨source, target, cmd, cmd, [], some reason⟩)
        | .ok (.ok (rewritten, fired)) =>
          .ok (some ⟨source, target, cmd, .ofList (List.intercalate [';', ' '] rewritten), fired,
            none⟩)

end Translate

/-- `ShellTranslator.translate`. -/
def translate (target : ShellDialect) (enabled : Bool) (cmd : Option String) :
    Except Exc (Option CommandTranslation) :=
  translateWith u u.int target enabled cmd

end Dialects

end AgenticLocalApp
