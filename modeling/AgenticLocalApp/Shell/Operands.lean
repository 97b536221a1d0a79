import AgenticLocalApp.Shell.WordValues

/-!
# The operands of a simple command

A program reads its arguments one by one: an operand, an option, or the number of lines that it is
asked for.  A rule of the table hands the operands and the count of the command it has read to the
program of the other dialect.
-/

namespace AgenticLocalApp

/-- What the Unicode database says of ASCII digits, and of ASCII characters in lower case. -/
structure UnicodeTable.Ascii (u : UnicodeTable) : Prop where
  decimal : ∀ c : Char, c.isDigit = true → u.decimal c = some (c.toNat - '0'.toNat)
  lower : ∀ text : Text, (∀ c ∈ text, c.toNat < 128) → u.lower text = text.map Char.toLower
  mem_lower : ∀ (text : Text) (c : Char), c ∈ text → c.toNat < 128 → c.toLower ∈ u.lower text
  lower_head : ∀ text : Text, (u.lower text).head? = some '-' → text.head? = some '-'

theorem UnicodeTable.Ascii.lower_of_all {u : UnicodeTable} (h : u.Ascii) {text : Text}
    (htext : text.all (fun c => c.toNat < 128) = true) : u.lower text = text.map Char.toLower :=
  h.lower text fun c hc => of_decide_eq_true (List.all_eq_true.1 htext c hc)

namespace Dialects

/-- What a program takes an argument for. -/
inductive ArgumentForm where
  | operand
  | flag
  | count (n : Nat)
  /-- The next argument is the count. -/
  | nextCount

/-- A count in decimal digits. -/
def decimalValue (digits : Text) : Option Nat :=
  if digits ≠ [] ∧ digits.all Char.isDigit = true then some (Nat.ofDigitChars 10 digits 0) else none

def plainForm (word : Text) : ArgumentForm := if isOption word then .flag else .operand

def countForm (digits : Text) : ArgumentForm :=
  match decimalValue digits with
  | some n => .count n
  | none => .flag

/-- The arguments of `head` and `tail`. -/
def linesForm : Text → ArgumentForm
  | ['-', 'n'] => .nextCount
  | '-' :: 'n' :: digits => countForm digits
  | '-' :: c :: digits => countForm (c :: digits)
  | _ => .operand

variable (u : UnicodeTable)

/-- The arguments of `Get-Content`. -/
def contentForm (word : Text) : ArgumentForm :=
  if (contentMode u word).isSome then .nextCount else plainForm word

/-- The arguments of `Get-ChildItem`: the drive of the environment is not a path. -/
def listForm (word : Text) : ArgumentForm := if isEnvDrive u word then .flag else plainForm word

def argumentForm (d : ShellDialect) (program : Text) : Text → ArgumentForm :=
  if d = .posix then if namedIn ["head", "tail"] program then linesForm else plainForm
  else if namedIn ["get-content", "gc"] program then contentForm u
  else if namedIn ["get-childitem", "gci"] program then listForm u
  else plainForm

/-- The lines that a program prints when none are asked for. -/
def defaultCount (d : ShellDialect) (program : Text) : Option Nat :=
  if d = .posix ∧ namedIn ["head", "tail"] program then some 10 else none

/-- The operands of a command and the lines it is asked for, from those read so far. -/
def gather (form : Text → ArgumentForm) : Option Nat → List Text → List Text →
    Option (List Text × Option Nat)
  | count, operands, [] => some (operands, count)
  | count, operands, word :: words =>
    match form word with
    | .operand => gather form count (operands ++ [word]) words
    | .flag => gather form count operands words
    | .count n => gather form (some n) operands words
    | .nextCount =>
      match words with
      | [] => none
      | digits :: words =>
        match decimalValue digits with
        | some n => gather form (some n) operands words
        | none => none

/-- The operands of a simple command, as its program reads them, and its count of lines. -/
def asked (d : ShellDialect) : List Text → Option (List Text × Option Nat)
  | [] => none
  | first :: args =>
    gather (argumentForm u d (shellName u first)) (defaultCount d (shellName u first)) [] args

variable {u} {form : Text → ArgumentForm} {count : Option Nat} {operands words : List Text}

/-! ## Counts -/

theorem decimalValue_toString (n : Nat) : decimalValue (toString n).toList = some n := by
  have hdigits : (toString n).toList = Nat.toDigits 10 n := String.toList_ofList
  rw [hdigits]
  unfold decimalValue
  rw [if_pos ⟨Nat.toDigits_ne_nil, List.all_eq_true.2 fun c hc =>
    Nat.isDigit_of_mem_toDigits (by decide) (by decide) hc⟩, Nat.ofDigitChars_ten_toDigits]

theorem foldl_decimal (hascii : u.Ascii) {digits : Text} (h : digits.all Char.isDigit = true)
    (n : Nat) :
    digits.foldl (fun n c => 10 * n + (u.decimal c).getD 0) n = Nat.ofDigitChars 10 digits n := by
  induction digits generalizing n with
  | nil => rfl
  | cons c digits ih =>
    rw [List.all_cons, Bool.and_eq_true] at h
    rw [List.foldl_cons, Nat.ofDigitChars_cons, hascii.decimal c h.1, Option.getD_some, ih h.2]

theorem decimalValue_of_int (hascii : u.Ascii) {digits : Text} {n : Nat}
    (h : digits.all Char.isDigit = true) (hn : u.int digits = .ok n) :
    decimalValue digits = some n := by
  have hreadable := u.int_ok_iff.1 ⟨n, hn⟩
  unfold decimalValue
  rw [if_pos ⟨hreadable.ne_nil, h⟩, ← foldl_decimal hascii h]
  unfold UnicodeTable.int at hn
  split at hn
  · cases hn
  · split at hn
    · cases hn
    · cases hn
      rfl

/-! ## Reading arguments -/

theorem gather_operands (h : ∀ w ∈ words, form w = .operand) :
    gather form count operands words = some (operands ++ words, count) := by
  induction words generalizing operands with
  | nil => rw [List.append_nil]; rfl
  | cons word words ih =>
    rw [List.forall_mem_cons] at h
    unfold gather
    rw [h.1]
    dsimp only
    rw [ih h.2, List.append_assoc, List.singleton_append]

/-- Operands after an option that may be there. -/
theorem gather_optionalFlag {option : Text} {force : Bool} (hoption : form option = .flag)
    (h : ∀ w ∈ words, form w = .operand) :
    gather form count [] ((if force then [option] else []) ++ words) = some (words, count) := by
  have hwords := @gather_operands form count [] words h
  split
  · rw [List.singleton_append]
    unfold gather
    rw [hoption]
    exact hwords
  · exact hwords

theorem plainForm_operand {word : Text} (h : isOption word = false) :
    plainForm word = .operand := by
  unfold plainForm
  rw [h]
  rfl

theorem isOption_of_not_dash {word : Text} (h : ¬ startsWithDash word = true) :
    isOption word = false := by
  unfold isOption
  rw [Bool.not_eq_true] at h
  rw [h, Bool.false_and]

theorem linesForm_operand {word : Text} (h : ¬ startsWithDash word = true) :
    linesForm word = .operand := by
  unfold linesForm
  split
  · exact absurd rfl h
  · exact absurd rfl h
  · exact absurd rfl h
  · rfl

/-- A word that means an option in lower case is one. -/
theorem isOption_of_lower (hascii : u.Ascii) {word option : Text} (h : u.lower word = '-' :: option)
    (hoption : option ≠ []) : isOption word = true := by
  have hhead : word.head? = some '-' := hascii.lower_head word (by rw [h]; rfl)
  cases word with
  | nil => cases hhead
  | cons c rest =>
    cases hhead
    cases rest with
    | nil =>
      rw [hascii.lower ['-'] (by simp)] at h
      exact absurd (List.cons.inj h).2.symm hoption
    | cons c rest => rfl

theorem isOption_of_contentMode (hascii : u.Ascii) {word : Text}
    (h : (contentMode u word).isSome = true) : isOption word = true := by
  unfold contentMode at h
  split at h
  · rename_i hnamed
    obtain ⟨name, hname, heq⟩ := namedIn_iff.1 hnamed
    simp only [List.mem_cons, List.not_mem_nil, or_false] at hname
    obtain rfl | rfl | rfl := hname <;>
      exact isOption_of_lower hascii heq.symm (List.cons_ne_nil _ _)
  · split at h
    · rename_i hnamed
      obtain ⟨name, hname, heq⟩ := namedIn_iff.1 hnamed
      simp only [List.mem_cons, List.not_mem_nil, or_false] at hname
      obtain rfl | rfl := hname <;>
        exact isOption_of_lower hascii heq.symm (List.cons_ne_nil _ _)
    · cases h

theorem contentForm_operand (hascii : u.Ascii) {word : Text} (h : isOption word = false) :
    contentForm u word = .operand := by
  unfold contentForm
  rw [if_neg, plainForm_operand h]
  intro hmode
  rw [isOption_of_contentMode hascii hmode] at h
  cases h

theorem listForm_operand {word : Text} (h : isOption word = false)
    (hdrive : isEnvDrive u word = false) : listForm u word = .operand := by
  unfold listForm
  rw [hdrive, plainForm_operand h]
  rfl

/-! ## What the loops of the rules take -/

theorem gather_posixListArguments {force force' : Bool} {paths paths' tokens : List Text}
    (h : posixListArguments force paths tokens = some (force', paths')) :
    gather plainForm count paths tokens = some (paths', count) ∧
      ∀ p ∈ paths', p ∈ paths ∨ p ∈ tokens ∧ ¬ startsWithDash p = true := by
  induction tokens generalizing force paths with
  | nil =>
    cases h
    exact ⟨rfl, fun p hp => .inl hp⟩
  | cons token rest ih =>
    unfold posixListArguments at h
    unfold gather
    split at h
    · rename_i hdash
      dsimp only at h
      split at h
      · cases h
      · rename_i hletters
        have hoption : isOption token = true := by
          cases token with
          | nil => cases hdash
          | cons c letters =>
            cases letters with
            | nil => exact absurd (.inl rfl) hletters
            | cons c' letters =>
              unfold isOption
              rw [hdash]
              simp
        unfold plainForm
        rw [hoption]
        obtain ⟨hgather, hmem⟩ := ih h
        refine ⟨hgather, fun p hp => (hmem p hp).imp_right ?_⟩
        exact fun hp => ⟨List.mem_cons_of_mem _ hp.1, hp.2⟩
    · rename_i hdash
      rw [plainForm_operand (isOption_of_not_dash hdash)]
      obtain ⟨hgather, hmem⟩ := ih h
      refine ⟨hgather, fun p hp => ?_⟩
      obtain hp | hp := hmem p hp
      · obtain hp | hp := List.mem_append.1 hp
        · exact .inl hp
        · rw [List.mem_singleton.1 hp]
          exact .inr ⟨List.mem_cons_self, hdash⟩
      · exact .inr ⟨List.mem_cons_of_mem _ hp.1, hp.2⟩

theorem gather_powershellListArguments (hascii : u.Ascii) {force force' : Bool}
    {paths paths' tokens : List Text}
    (h : powershellListArguments u force paths tokens = some (force', paths'))
    (hdrive : ∀ p ∈ paths', isEnvDrive u p = false) :
    gather (listForm u) count paths tokens = some (paths', count) ∧
      (∀ p ∈ paths, p ∈ paths') ∧ ∀ p ∈ paths', p ∈ paths ∨ ¬ startsWithDash p = true := by
  induction tokens generalizing force paths with
  | nil =>
    cases h
    exact ⟨rfl, fun p hp => hp, fun p hp => .inl hp⟩
  | cons token rest ih =>
    unfold powershellListArguments at h
    unfold gather
    split at h
    · rename_i hforce
      have hoption : isOption token = true :=
        @isOption_of_lower u hascii token "force".toList hforce (by decide)
      have hform : listForm u token = .flag := by
        unfold listForm plainForm
        rw [hoption]
        split <;> rfl
      rw [hform]
      exact ih h
    · split at h
      · cases h
      · rename_i hdash
        obtain ⟨hgather, hsub, hmem⟩ := ih h
        have htoken : token ∈ paths' :=
          hsub token (List.mem_append_right _ (List.mem_singleton_self _))
        rw [listForm_operand (isOption_of_not_dash hdash) (hdrive token htoken)]
        refine ⟨hgather, fun p hp => hsub p (List.mem_append_left _ hp), fun p hp => ?_⟩
        obtain hp | hp := hmem p hp
        · obtain hp | hp := List.mem_append.1 hp
          · exact .inl hp
          · rw [List.mem_singleton.1 hp]
            exact .inr hdash
        · exact .inr hp

/-- The count attached to an option of `head` and `tail`, and the word that asks for one. -/
theorem linesForm_of_lineCount {token : Text} {attached : Option Text}
    (hline : '$' ∉ token → token.getLast? ≠ some '\n')
    (h : lineCount u token = some attached)
    (hdigits : ∀ digits ∈ attached, digits.all Char.isDigit = true) :
    (attached = none → linesForm token = .nextCount) ∧
      ∀ digits n, attached = some digits → decimalValue digits = some n →
        linesForm token = .count n := by
  have hnotLine : token.getLast? ≠ some '\n' := by
    intro hlast
    refine hline (fun hdollar => ?_) hlast
    unfold lineCount at h
    rw [if_pos hlast] at h
    have htoken : token = token.dropLast ++ ['\n'] := by
      obtain ⟨hne, hget⟩ := List.getLast?_eq_some_iff.1 hlast
      rw [hget]
      simp
    rw [htoken, List.mem_append, List.mem_singleton] at hdollar
    have hbody : '$' ∈ token.dropLast := hdollar.resolve_right (by decide)
    dsimp only at h
    split at h
    · rename_i digits heq
      rw [heq] at hbody
      split at h
      · rename_i hnil
        subst hnil
        simp at hbody
      · split at h
        · cases h
          have hmem : '$' ∈ digits := by simpa using hbody
          have hdollar := List.all_eq_true.1 (hdigits digits rfl) '$' hmem
          cases hdollar
        · cases h
    · rename_i digits _ heq
      rw [heq] at hbody
      split at h
      · cases h
        have hmem : '$' ∈ digits := by simpa using hbody
        have hdollar := List.all_eq_true.1 (hdigits digits rfl) '$' hmem
        cases hdollar
      · cases h
    · cases h
  unfold lineCount at h
  rw [if_neg hnotLine] at h
  dsimp only at h
  split at h
  · rename_i digits
    split at h
    · rename_i hnil
      subst hnil
      cases h
      exact ⟨fun _ => rfl, fun digits n hnone => absurd hnone (by simp)⟩
    · rename_i hne
      split at h
      · cases h
        refine ⟨fun hnone => absurd hnone (by simp), fun digits' n heq hn => ?_⟩
        cases heq
        cases digits with
        | nil => exact absurd rfl hne
        | cons c digits =>
          change countForm (c :: digits) = .count n
          unfold countForm
          rw [hn]
      · cases h
  · rename_i digits hother
    split at h
    · rename_i hall
      cases h
      refine ⟨fun hnone => absurd hnone (by simp), fun digits' n heq hn => ?_⟩
      cases heq
      cases digits with
      | nil => exact absurd rfl hall.1
      | cons c digits =>
        have hc : c ≠ 'n' := by
          rintro rfl
          exact hother _ rfl
        unfold linesForm countForm
        split
        · rename_i heq
          cases heq
          exact absurd rfl hc
        · rename_i heq
          cases heq
          exact absurd rfl hc
        · rename_i heq
          cases heq
          rw [hn]
        · rename_i hnone
          exact absurd rfl (hnone c digits)
    · cases h
  · cases h

theorem gather_linesAndFile (hascii : u.Ascii) {count n : Nat} {file : Option Text}
    {tokens : List Text} {f : Text}
    (h : linesAndFile u u.int count file tokens = .ok (some (n, f)))
    (hdigits : ∀ digits ∈ lineCounts u file tokens, digits.all Char.isDigit = true)
    (hline : ∀ t ∈ tokens, '$' ∉ t → t.getLast? ≠ some '\n')
    (hfile : ∀ f' ∈ file, ¬ startsWithDash f' = true) :
    gather linesForm (some count) file.toList tokens = some ([f], some n) ∧
      ¬ startsWithDash f = true := by
  fun_induction lineCounts u file tokens generalizing count with
  | case1 file =>
    cases file with
    | none => cases h
    | some file =>
      cases h
      exact ⟨rfl, hfile _ rfl⟩
  | case3 file token rest hdash digits hattached ih =>
    unfold linesAndFile at h
    simp only [hdash, hattached, if_true] at h
    cases hn : u.int digits with
    | error e => simp only [hn, reduceCtorEq] at h
    | ok m =>
      simp only [hn] at h
      rw [List.forall_mem_cons] at hdigits hline
      have hvalue := decimalValue_of_int hascii hdigits.1 hn
      have hform := (linesForm_of_lineCount hline.1 hattached (by
        intro digits' heq
        cases heq
        exact hdigits.1)).2 digits m rfl hvalue
      unfold gather
      rw [hform]
      exact ih h hdigits.2 hline.2 hfile
  | case5 file token hdash hattached digits rest hdigit ih =>
    unfold linesAndFile at h
    simp only [hdash, hattached, hdigit, if_true] at h
    cases hn : u.int digits with
    | error e => simp only [hn, reduceCtorEq] at h
    | ok m =>
      simp only [hn] at h
      rw [List.forall_mem_cons] at hdigits hline
      have hvalue := decimalValue_of_int hascii hdigits.1 hn
      have hform := (linesForm_of_lineCount hline.1 hattached (by simp)).1 rfl
      unfold gather
      rw [hform]
      dsimp only
      rw [hvalue]
      exact ih h hdigits.2 (List.forall_mem_cons.1 hline.2).2 hfile
  | case7 token rest hdash ih =>
    unfold linesAndFile at h
    simp only [hdash] at h
    unfold gather
    rw [linesForm_operand hdash]
    refine ih h hdigits (List.forall_mem_cons.1 hline).2 ?_
    rintro f' hf'
    cases hf'
    exact hdash
  -- the loop answers nothing
  | _ =>
    unfold linesAndFile at h
    simp_all

theorem gather_getContentArguments (hascii : u.Ascii) {count n : Nat} {file : Option Text}
    {mode mode' : Option ContentMode} {tokens : List Text} {f : Text}
    (h : getContentArguments u u.int file mode count tokens = .ok (some (f, mode', n)))
    (hdigits : ∀ digits ∈ contentCounts u file mode tokens, digits.all Char.isDigit = true)
    (hfile : ∀ f' ∈ file, ¬ startsWithDash f' = true) :
    gather (contentForm u) (mode.map fun _ => count) file.toList tokens =
        some ([f], mode'.map fun _ => n) ∧
      ¬ startsWithDash f = true := by
  fun_induction contentCounts u file mode tokens generalizing count with
  | case1 file mode =>
    cases file with
    | none => cases h
    | some file =>
      cases h
      exact ⟨rfl, hfile _ rfl⟩
  | case2 file token asked hasked digits rest hdigit ih =>
    unfold getContentArguments at h
    simp only [hasked, hdigit, if_true] at h
    cases hn : u.int digits with
    | error e => simp only [hn, reduceCtorEq] at h
    | ok m =>
      simp only [hn] at h
      rw [List.forall_mem_cons] at hdigits
      have hvalue := decimalValue_of_int hascii hdigits.1 hn
      have hform : contentForm u token = .nextCount := by
        unfold contentForm
        rw [hasked]
        rfl
      unfold gather
      rw [hform]
      dsimp only
      rw [hvalue]
      exact ih h hdigits.2 hfile
  | case4 file mode token rest asked hasked hother =>
    unfold getContentArguments at h
    simp only [hasked] at h
    cases h
  | case6 mode token rest hasked hdash ih =>
    unfold getContentArguments at h
    simp only [hasked, hdash] at h
    unfold gather
    rw [contentForm_operand hascii (isOption_of_not_dash hdash)]
    refine ih h hdigits ?_
    rintro f' hf'
    cases hf'
    exact hdash
  | _ =>
    unfold getContentArguments at h
    simp_all

/-! ## The programs of the table -/

/-- The programs that the target forms begin with go by their names. -/
theorem shellName_target (hascii : u.Ascii) {d : ShellDialect} {name : String}
    (h : name ∈ targetPrograms d) : shellName u name.toList = name.toList.map Char.toLower := by
  cases d
  case posix | powershell =>
    unfold targetPrograms at h
    simp only [List.mem_cons, List.not_mem_nil, or_false] at h
    rcases h with rfl | rfl | rfl | rfl | rfl | rfl | rfl | rfl
    all_goals
      unfold shellName
      dsimp only
      rw [hascii.lower_of_all (by decide)]
      rfl
  all_goals cases h

theorem asked_target (hascii : u.Ascii) {d : ShellDialect} {name : String} {args : List Text}
    (h : name ∈ targetPrograms d) :
    asked u d (name.toList :: args) =
      gather (argumentForm u d (name.toList.map Char.toLower))
        (defaultCount d (name.toList.map Char.toLower)) [] args := by
  unfold asked
  dsimp only
  rw [shellName_target hascii h]

theorem asked_source {d : ShellDialect} {name : String} {first : Text} {args : List Text}
    (h : name.toList = shellName u first) :
    asked u d (first :: args) =
      gather (argumentForm u d name.toList) (defaultCount d name.toList) [] args := by
  unfold asked
  dsimp only
  rw [← h]

/-- The command of a rule asks for what the command that it covers asks for. -/
def Carries (u : UnicodeTable) (source target : ShellDialect) (segment out : List Text) : Prop :=
  ∃ operands count, asked u source segment = some (operands, count) ∧
    asked u target out = some (operands, count)

section Rules

variable {first : Text} {args out : List Text}

/-- A single operand in front of which no option stands. -/
theorem singleOperand_spec {operand : Text} (h : singleOperand (first :: args) = some operand) :
    args = [operand] ∧ isOption operand = false := by
  unfold singleOperand at h
  dsimp only [List.tail_cons] at h
  split at h
  · split at h
    · cases h
    · rename_i hoption
      cases h
      exact ⟨rfl, Bool.not_eq_true _ ▸ hoption⟩
  · cases h

theorem noOperand_spec (h : noOperand (first :: args) = true) : args = [] := by
  unfold noOperand at h
  rw [beq_iff_eq, List.length_cons, Nat.add_eq_right] at h
  exact List.eq_nil_of_length_eq_zero h

theorem powershellOperands_spec {operand : Text}
    (h : powershellOperands (first :: args) = some [operand]) :
    args = [operand] ∧ ¬ startsWithDash operand = true := by
  unfold powershellOperands at h
  split at h
  · cases h
  · rename_i hdash
    rw [List.tail_cons, Option.some.injEq] at h
    subst h
    rw [List.tail_cons, List.any_cons, List.any_nil, Bool.or_false] at hdash
    exact ⟨rfl, hdash⟩

/-- A program of the target side with one operand. -/
theorem asked_operand (hascii : u.Ascii) {d : ShellDialect} {name : String} {operand : Text}
    (h : name ∈ targetPrograms d)
    (hform : argumentForm u d (name.toList.map Char.toLower) operand = .operand)
    (hcount : defaultCount d (name.toList.map Char.toLower) = none) :
    asked u d [name.toList, operand] = some ([operand], none) := by
  rw [asked_target hascii h, gather_operands (List.forall_mem_singleton.2 hform), hcount]
  rfl

theorem listForm_env (hascii : u.Ascii) : listForm u "Env:".toList = .flag := by
  unfold listForm isEnvDrive
  rw [hascii.lower_of_all (by decide)]
  rfl

theorem posixEnv_carries (hascii : u.Ascii) {name : String} (hname : name ∈ ["env", "printenv"])
    (hprogram : name.toList = shellName u first) (h : posixEnv (first :: args) = some out) :
    Carries u .posix .powershell (first :: args) out := by
  unfold posixEnv at h
  split at h
  · rename_i hnone
    cases h
    rw [noOperand_spec hnone]
    refine ⟨[], none, ?_, ?_⟩
    · rw [asked_source hprogram]
      rw [List.mem_cons, List.mem_singleton] at hname
      obtain rfl | rfl := hname <;> rfl
    · rw [@asked_target u hascii .powershell "Get-ChildItem" _ (by decide)]
      change gather (listForm u) none [] ["Env:".toList] = some ([], none)
      unfold gather
      rw [listForm_env hascii]
      rfl
  · cases h

theorem posixListDirectory_carries (hascii : u.Ascii) (hprogram : "ls".toList = shellName u first)
    (hdrive : ∀ w ∈ args, isEnvDrive u w = false)
    (h : posixListDirectory (first :: args) = some out) :
    Carries u .posix .powershell (first :: args) out := by
  unfold posixListDirectory at h
  split at h
  · cases h
  · rename_i force paths hpaths
    split at h
    · cases h
    · cases h
      obtain ⟨hgather, hmem⟩ := @gather_posixListArguments none _ _ _ _ _ hpaths
      refine ⟨paths, none, ?_, ?_⟩
      · rw [asked_source hprogram]
        exact hgather
      · have hoperands : ∀ p ∈ paths, listForm u p = .operand := by
          intro p hp
          obtain hnil | ⟨hargs, hdash⟩ := hmem p hp
          · cases hnil
          · exact listForm_operand (isOption_of_not_dash hdash) (hdrive p hargs)
        have hforce : listForm u "-Force".toList = .flag := by
          unfold listForm
          split <;> rfl
        rw [List.cons_append, @asked_target u hascii .powershell "Get-ChildItem" _ (by decide)]
        exact gather_optionalFlag hforce hoperands

theorem posixLines_carries (hascii : u.Ascii) {name option : String}
    (hname : name ∈ ["head", "tail"]) (hprogram : name.toList = shellName u first)
    (hoption : option ∈ ["-TotalCount", "-Tail"])
    (hdigits : ∀ digits ∈ lineCounts u none args, digits.all Char.isDigit = true)
    (hline : ∀ t ∈ args, '$' ∉ t → t.getLast? ≠ some '\n')
    (h : posixLines u u.int option (first :: args) = .ok (some out)) :
    Carries u .posix .powershell (first :: args) out := by
  unfold posixLines at h
  split at h
  · cases h
  · rename_i parsed hparsed
    rw [Except.ok.injEq, Option.map_eq_some_iff] at h
    obtain ⟨⟨count, file⟩, rfl, rfl⟩ := h
    obtain ⟨hgather, hdash⟩ := gather_linesAndFile hascii hparsed hdigits hline (by simp)
    refine ⟨[file], some count, ?_, ?_⟩
    · rw [asked_source hprogram]
      rw [List.mem_cons, List.mem_singleton] at hname
      obtain rfl | rfl := hname <;> exact hgather
    · rw [@asked_target u hascii .powershell "Get-Content" _ (by decide)]
      change gather (contentForm u) none [] [file, option.toList, (toString count).toList] = _
      have hmode : contentForm u option.toList = .nextCount := by
        unfold contentForm contentMode
        rw [List.mem_cons, List.mem_singleton] at hoption
        obtain rfl | rfl := hoption
        all_goals
          rw [hascii.lower_of_all (by decide)]
          rfl
      unfold gather
      rw [contentForm_operand hascii (isOption_of_not_dash hdash)]
      dsimp only
      unfold gather
      rw [hmode]
      dsimp only
      rw [decimalValue_toString]
      rfl

/-- A rule that hands over the one operand of the command. -/
theorem singleOperand_carries (hascii : u.Ascii) {name command : String}
    (hname : argumentForm u .posix name.toList = plainForm ∧ defaultCount .posix name.toList = none)
    (hprogram : name.toList = shellName u first)
    (hcommand : command ∈ ["Get-Content", "Write-Output", "Get-Command"])
    (h : (singleOperand (first :: args)).map (fun operand => [command.toList, operand]) =
      some out) :
    Carries u .posix .powershell (first :: args) out := by
  obtain ⟨operand, hoperand, rfl⟩ := Option.map_eq_some_iff.1 h
  obtain ⟨rfl, hoption⟩ := singleOperand_spec hoperand
  refine ⟨[operand], none, ?_, ?_⟩
  · rw [asked_source hprogram, hname.1, hname.2,
      gather_operands (List.forall_mem_singleton.2 (plainForm_operand hoption))]
    rfl
  · simp only [List.mem_cons, List.not_mem_nil, or_false] at hcommand
    obtain rfl | rfl | rfl := hcommand
    · exact asked_operand hascii (by decide) (contentForm_operand hascii hoption) rfl
    · exact asked_operand hascii (by decide) (plainForm_operand hoption) rfl
    · exact asked_operand hascii (by decide) (plainForm_operand hoption) rfl

theorem powershellListEnvironment_carries (hascii : u.Ascii) {name : String}
    (hname : name ∈ ["get-childitem", "gci"]) (hprogram : name.toList = shellName u first)
    (h : powershellListEnvironment u (first :: args) = some out) :
    Carries u .powershell .posix (first :: args) out := by
  unfold powershellListEnvironment at h
  split at h
  · rename_i operand hoperand
    split at h
    · rename_i hdrive
      cases h
      obtain ⟨rfl, -⟩ := powershellOperands_spec hoperand
      refine ⟨[], none, ?_, ?_⟩
      · have hform : argumentForm u .powershell name.toList = listForm u := by
          rw [List.mem_cons, List.mem_singleton] at hname
          obtain rfl | rfl := hname <;> rfl
        rw [asked_source hprogram, hform]
        unfold gather listForm
        rw [hdrive]
        rfl
      · rw [@asked_target u hascii .posix "env" _ (by decide)]
        rfl
    · cases h
  · cases h

theorem powershellListDirectory_carries (hascii : u.Ascii) {name : String}
    (hname : name ∈ ["get-childitem", "gci"]) (hprogram : name.toList = shellName u first)
    (h : powershellListDirectory u (first :: args) = some out) :
    Carries u .powershell .posix (first :: args) out := by
  unfold powershellListDirectory at h
  split at h
  · cases h
  · rename_i force paths hpaths
    split at h
    · cases h
    · rename_i hnot
      cases h
      have hdrive : ∀ p ∈ paths, isEnvDrive u p = false := by
        obtain ⟨hlength, hhead⟩ := not_or.1 hnot
        match paths with
        | [] => exact fun p hp => absurd hp List.not_mem_nil
        | [path] =>
          rw [List.forall_mem_singleton]
          simpa using hhead
        | _ :: _ :: _ => simp at hlength
      obtain ⟨hgather, -, hmem⟩ :=
        @gather_powershellListArguments u none hascii _ _ _ _ _ hpaths hdrive
      refine ⟨paths, none, ?_, ?_⟩
      · have hform : argumentForm u .powershell name.toList = listForm u := by
          rw [List.mem_cons, List.mem_singleton] at hname
          obtain rfl | rfl := hname <;> rfl
        rw [asked_source hprogram, hform]
        exact hgather
      · have hoperands : ∀ p ∈ paths, plainForm p = .operand := by
          intro p hp
          obtain hnil | hdash := hmem p hp
          · cases hnil
          · exact plainForm_operand (isOption_of_not_dash hdash)
        rw [List.cons_append, @asked_target u hascii .posix "ls" _ (by decide)]
        exact @gather_optionalFlag plainForm none paths "-a".toList force rfl hoperands

theorem contentForm_source {name : String} (hname : name ∈ ["get-content", "gc"]) :
    argumentForm u .powershell name.toList = contentForm u ∧
      defaultCount .powershell name.toList = none := by
  rw [List.mem_cons, List.mem_singleton] at hname
  obtain rfl | rfl := hname <;> exact ⟨rfl, rfl⟩

theorem powershellLines_carries (hascii : u.Ascii) {name program : String} {wanted : ContentMode}
    (hname : name ∈ ["get-content", "gc"]) (hprogram : name.toList = shellName u first)
    (htarget : program ∈ ["head", "tail"])
    (hdigits : ∀ digits ∈ contentCounts u none none args, digits.all Char.isDigit = true)
    (h : powershellLines u u.int wanted program (first :: args) = .ok (some out)) :
    Carries u .powershell .posix (first :: args) out := by
  unfold powershellLines at h
  split at h
  · cases h
  · rename_i file mode count hcontent
    rw [Except.ok.injEq] at h
    split at h
    · cases h
      obtain ⟨hgather, hdash⟩ := gather_getContentArguments hascii hcontent hdigits (by simp)
      obtain ⟨hform, hcount⟩ := @contentForm_source u _ hname
      refine ⟨[file], some count, ?_, ?_⟩
      · rw [asked_source hprogram, hform, hcount]
        exact hgather
      · have hlines : gather linesForm (some 10) [] ["-n".toList, (toString count).toList, file] =
            some ([file], some count) := by
          unfold gather
          rw [show linesForm "-n".toList = .nextCount from rfl]
          dsimp only
          rw [decimalValue_toString]
          dsimp only
          unfold gather
          rw [linesForm_operand hdash]
          rfl
        rw [List.mem_cons, List.mem_singleton] at htarget
        obtain rfl | rfl := htarget
        · rw [@asked_target u hascii .posix "head" _ (by decide)]
          exact hlines
        · rw [@asked_target u hascii .posix "tail" _ (by decide)]
          exact hlines
    · cases h
  · cases h

theorem powershellPrintFile_carries (hascii : u.Ascii) {name : String}
    (hname : name ∈ ["get-content", "gc"]) (hprogram : name.toList = shellName u first)
    (hdigits : ∀ digits ∈ contentCounts u none none args, digits.all Char.isDigit = true)
    (h : powershellPrintFile u u.int (first :: args) = .ok (some out)) :
    Carries u .powershell .posix (first :: args) out := by
  unfold powershellPrintFile at h
  split at h
  · cases h
  · rename_i file count hcontent
    cases h
    obtain ⟨hgather, hdash⟩ := gather_getContentArguments hascii hcontent hdigits (by simp)
    obtain ⟨hform, hcount⟩ := @contentForm_source u _ hname
    refine ⟨[file], none, ?_, ?_⟩
    · rw [asked_source hprogram, hform, hcount]
      exact hgather
    · exact @asked_operand u hascii .posix "cat" _ (by decide)
        (plainForm_operand (isOption_of_not_dash hdash)) rfl
  · cases h

theorem powershellOperand_carries {name : String} {operand : Text}
    (hform : argumentForm u .powershell name.toList = plainForm)
    (hprogram : name.toList = shellName u first)
    (h : powershellOperands (first :: args) = some [operand])
    (hout : asked u .posix out = some ([operand], none)) :
    Carries u .powershell .posix (first :: args) out := by
  obtain ⟨rfl, hdash⟩ := powershellOperands_spec h
  refine ⟨[operand], none, ?_, hout⟩
  rw [asked_source hprogram, hform,
    gather_operands (List.forall_mem_singleton.2 (plainForm_operand (isOption_of_not_dash hdash)))]
  rfl

theorem posixRules_carry (hascii : u.Ascii)
    (hdigits : namedIn ["head", "tail"] (shellName u first) = true →
      ∀ digits ∈ lineCounts u none args, digits.all Char.isDigit = true)
    (hdrive : namedIn ["ls"] (shellName u first) = true → ∀ w ∈ args, isEnvDrive u w = false)
    (hline : ∀ t ∈ args, '$' ∉ t → t.getLast? ≠ some '\n') :
    ∀ rule ∈ posixToPowershell u u.int, namedIn rule.programs (shellName u first) = true → ∀ out,
      rule.apply (first :: args) = .ok (some out) →
        Carries u .posix .powershell (first :: args) out := by
  have hlines : ∀ name ∈ ["head", "tail"], name.toList = shellName u first →
      ∀ digits ∈ lineCounts u none args, digits.all Char.isDigit = true :=
    fun name hname heq => hdigits (namedIn_iff.2 ⟨name, hname, heq⟩)
  unfold posixToPowershell
  simp only [List.forall_mem_cons, namedIn_iff, List.exists_mem_cons_iff, List.not_mem_nil,
    false_and, exists_false, or_false]
  refine ⟨?env, ?ls, ?head, ?tail, ?cat, ?pwd, ?echo, ?which, fun rule hmem => hmem.elim⟩
  case env =>
    rintro (hname | hname) out h
    · exact posixEnv_carries hascii (by decide) hname (Except.ok.inj h)
    · exact posixEnv_carries hascii (by decide) hname (Except.ok.inj h)
  case ls =>
    intro hname out h
    refine posixListDirectory_carries hascii hname (hdrive ?_) (Except.ok.inj h)
    exact namedIn_iff.2 ⟨"ls", List.mem_singleton_self _, hname⟩
  case head =>
    intro hname out h
    exact posixLines_carries hascii (by decide) hname (by decide) (hlines _ (by decide) hname)
      hline h
  case tail =>
    intro hname out h
    exact posixLines_carries hascii (by decide) hname (by decide) (hlines _ (by decide) hname)
      hline h
  case cat =>
    intro hname out h
    exact singleOperand_carries hascii ⟨rfl, rfl⟩ hname (by decide) (Except.ok.inj h)
  case echo =>
    intro hname out h
    exact singleOperand_carries hascii ⟨rfl, rfl⟩ hname (by decide) (Except.ok.inj h)
  case which =>
    intro hname out h
    exact singleOperand_carries hascii ⟨rfl, rfl⟩ hname (by decide) (Except.ok.inj h)
  case pwd =>
    intro hname out h
    rw [Except.ok.injEq] at h
    unfold posixPwd at h
    split at h
    · rename_i hnone
      cases h
      rw [noOperand_spec hnone]
      refine ⟨[], none, ?_, ?_⟩
      · rw [asked_source hname]
        rfl
      · rw [@asked_target u hascii .powershell "Get-Location" _ (by decide)]
        rfl
    · cases h

theorem powershellRules_carry (hascii : u.Ascii)
    (hdigits : namedIn ["get-content", "gc"] (shellName u first) = true →
      ∀ digits ∈ contentCounts u none none args, digits.all Char.isDigit = true) :
    ∀ rule ∈ powershellToPosix u u.int, namedIn rule.programs (shellName u first) = true → ∀ out,
      rule.apply (first :: args) = .ok (some out) →
        Carries u .powershell .posix (first :: args) out := by
  unfold powershellToPosix
  simp only [List.forall_mem_cons]
  refine ⟨?env, ?ls, ?head, ?tail, ?cat, ?pwd, ?echo, ?which,
    fun rule hmem => absurd hmem List.not_mem_nil⟩
  case env =>
    intro hnamed out h
    obtain ⟨name, hname, heq⟩ := namedIn_iff.1 hnamed
    exact powershellListEnvironment_carries hascii hname heq (Except.ok.inj h)
  case ls =>
    intro hnamed out h
    obtain ⟨name, hname, heq⟩ := namedIn_iff.1 hnamed
    exact powershellListDirectory_carries hascii hname heq (Except.ok.inj h)
  case head =>
    intro hnamed out h
    obtain ⟨name, hname, heq⟩ := namedIn_iff.1 hnamed
    exact powershellLines_carries hascii hname heq (by decide) (hdigits hnamed) h
  case tail =>
    intro hnamed out h
    obtain ⟨name, hname, heq⟩ := namedIn_iff.1 hnamed
    exact powershellLines_carries hascii hname heq (by decide) (hdigits hnamed) h
  case cat =>
    intro hnamed out h
    obtain ⟨name, hname, heq⟩ := namedIn_iff.1 hnamed
    exact powershellPrintFile_carries hascii hname heq (hdigits hnamed) h
  case pwd =>
    intro hnamed out h
    obtain ⟨name, hname, heq⟩ := namedIn_iff.1 hnamed
    rw [Except.ok.injEq] at h
    unfold powershellPwd at h
    split at h
    · rename_i hnone
      cases h
      rw [noOperand_spec hnone]
      refine ⟨[], none, ?_, ?_⟩
      · rw [asked_source heq]
        rw [List.mem_cons, List.mem_singleton] at hname
        obtain rfl | rfl := hname <;> rfl
      · rw [@asked_target u hascii .posix "pwd" _ (by decide)]
        rfl
    · cases h
  case echo =>
    intro hnamed out h
    obtain ⟨name, hname, heq⟩ := namedIn_iff.1 hnamed
    rw [Except.ok.injEq] at h
    unfold powershellEcho at h
    split at h
    · rename_i operand hoperand
      cases h
      rw [List.mem_singleton] at hname
      subst hname
      refine powershellOperand_carries rfl heq hoperand ?_
      exact @asked_operand u hascii .posix "echo" _ (by decide)
        (plainForm_operand (isOption_of_not_dash (powershellOperands_spec hoperand).2)) rfl
    · cases h
  case which =>
    intro hnamed out h
    obtain ⟨name, hname, heq⟩ := namedIn_iff.1 hnamed
    rw [Except.ok.injEq] at h
    unfold powershellWhich at h
    split at h
    · rename_i operand hoperand
      cases h
      rw [List.mem_singleton] at hname
      subst hname
      refine powershellOperand_carries rfl heq hoperand ?_
      rw [@asked_target u hascii .posix "command" _ (by decide)]
      have hoption := isOption_of_not_dash (powershellOperands_spec hoperand).2
      exact @gather_operands plainForm none [] [operand]
        (List.forall_mem_singleton.2 (plainForm_operand hoption))
    · cases h

theorem applyRules_carry {source target : ShellDialect} {program ruleId : _} {segment : List Text}
    {claimed rules : List TranslationRule}
    (hrules : ∀ rule ∈ rules, namedIn rule.programs program = true → ∀ out,
      rule.apply segment = .ok (some out) → Carries u source target segment out)
    (h : applyRules program segment claimed rules = .ok (.translated out ruleId)) :
    Carries u source target segment out := by
  induction rules generalizing claimed with
  | nil => cases h
  | cons rule rules ih =>
    obtain ⟨hrule, hrest⟩ := List.forall_mem_cons.1 hrules
    unfold applyRules at h
    split at h
    · rename_i hnamed
      split at h
      · cases h
      · cases h
        exact hrule hnamed _ (by assumption)
      · exact ih hrest h
    · exact ih hrest h

/-- A simple command whose counts are ASCII digits, and that lists no directory named like the drive
of the environment, is translated to one that asks for the same. -/
theorem translateSegment_carries (hascii : u.Ascii) {source target : ShellDialect}
    (hdialects : Translates source target) {ruleId : String}
    (hdigits : ∀ digits ∈ countTexts u source (first :: args), digits.all Char.isDigit = true)
    (hdrive : source = .posix → namedIn ["ls"] (shellName u first) = true →
      ∀ w ∈ args, isEnvDrive u w = false)
    (hline : ∀ t ∈ args, '$' ∉ t → t.getLast? ≠ some '\n')
    (h : translateSegment u u.int source (first :: args) = .ok (.translated out ruleId)) :
    Carries u source target (first :: args) out := by
  unfold translateSegment at h
  dsimp only [List.headD_cons] at h
  split at h
  · cases h
  · rename_i hassignment
    split at h
    · cases h
    · obtain ⟨rfl, rfl⟩ | ⟨rfl, rfl⟩ := hdialects
      · refine applyRules_carry (posixRules_carry hascii (fun hnamed => ?_) (hdrive rfl) hline) h
        have hnot : isAssignment u first = false := by
          rw [← Bool.not_eq_true]
          exact fun hassigned => hassignment ⟨rfl, hassigned⟩
        intro digits hmem
        refine hdigits digits ?_
        unfold countTexts
        simp only [List.headD_cons, List.tail_cons, hnot, hnamed]
        exact hmem
      · refine applyRules_carry (powershellRules_carry hascii fun hnamed => ?_) h
        unfold countTexts at hdigits
        dsimp only [List.headD_cons, List.tail_cons] at hdigits
        rwa [if_pos hnamed] at hdigits

end Rules

end Dialects

end AgenticLocalApp
