import AgenticLocalApp.Shell.ReadsOnly

/-!
# The values of a word

By the quotes and escapes of a shell a word is a row of glyphs: characters that stand for themselves
and environment variables.  Under an assignment of the variables the glyphs give the values that a
program is handed.
-/

namespace AgenticLocalApp

/-- The characters that PowerShell takes into the name of a variable. -/
structure NameCharacters where
  isNameChar : Char → Bool
  isNameChar_ascii : ∀ c : Char, c.toNat < 128 →
    isNameChar c = (c.isAlphanum || c == '_' || c == '?')

inductive Glyph where
  /-- A quote that opens: the word is a value even when it is empty. -/
  | quote
  | literal (c : Char)
  /-- A variable within double quotes. -/
  | quoted (name : Text)
  | bare (name : Text)
  deriving DecidableEq

namespace ShellDialect

def isPosixNameChar (c : Char) : Bool := c.isAlphanum || c == '_'

def posixName : Text → Option Text
  | c :: rest =>
    if c.isAlpha || c == '_' then some (c :: rest.takeWhile isPosixNameChar) else none
  | [] => none

/-- The environment variable that a shell reads at the start of a text, and the length of the
reference. -/
def variableIn (names : NameCharacters) (d : ShellDialect) (text : Text) : Option (Text × Nat) :=
  match d with
  | .powershell =>
    match text with
    | '$' :: '{' :: e :: n :: v :: ':' :: rest =>
      if [e, n, v].map Char.toLower = ['e', 'n', 'v'] ∧ '}' ∈ rest then
        some (rest.takeWhile (· != '}'), (rest.takeWhile (· != '}')).length + 7)
      else none
    | '$' :: e :: n :: v :: ':' :: rest =>
      if [e, n, v].map Char.toLower = ['e', 'n', 'v'] ∧ rest.head?.any names.isNameChar then
        some (rest.takeWhile names.isNameChar, (rest.takeWhile names.isNameChar).length + 5)
      else none
    | _ => none
  | _ =>
    match text with
    | '$' :: '{' :: rest =>
      match posixName rest with
      | some name =>
        if (rest.drop name.length).head? = some '}' then some (name, name.length + 3) else none
      | none => none
    | '$' :: rest => (posixName rest).map fun name => (name, name.length + 1)
    | _ => none

def powershellEscape (c : Char) : Char :=
  (([('0', Char.ofNat 0), ('a', Char.ofNat 7), ('b', Char.ofNat 8), ('e', Char.ofNat 27),
    ('f', Char.ofNat 12), ('n', '\n'), ('r', '\r'), ('t', '\t'), ('v', Char.ofNat 11)] :
      List (Char × Char)).lookup c).getD c

/-- The characters that a backslash escapes within POSIX double quotes. -/
def isEscapable (c : Char) : Bool := ['$', '"', '\\', backquote, '\n'].contains c

/-- The glyphs of an escape, and how many of the characters after it they take. -/
def escaped (d : ShellDialect) (q : Quoting) (next : Option Char) : List Glyph × Nat :=
  match next with
  | none => (if d = .powershell then [] else [.literal '\\'], 0)
  | some c =>
    if d = .powershell then ([.literal (powershellEscape c)], 1)
    else if q = .double ∧ isEscapable c = false then ([.literal '\\'], 0)
    else if c = '\n' then ([], 1)
    else ([.literal c], 1)

end ShellDialect

section Values

variable (names : NameCharacters) (d : ShellDialect)

/-- The glyphs of a word, of which the first `skip` characters have been read. -/
def glyphsFrom : Nat → Quoting → Text → List Glyph
  | _, _, [] => []
  | skip + 1, q, _ :: rest => glyphsFrom skip q rest
  | 0, .single, c :: rest =>
    if d.isSingleQuote c then
      -- a doubled quote is the quote, to PowerShell
      if d = .powershell ∧ rest.head?.any d.isSingleQuote then
        .literal c :: glyphsFrom 1 .single rest
      else glyphsFrom 0 .bare rest
    else .literal c :: glyphsFrom 0 .single rest
  | 0, .double, c :: rest =>
    if d.isDoubleQuote c then
      if d = .powershell ∧ rest.head?.any d.isDoubleQuote then
        .literal c :: glyphsFrom 1 .double rest
      else glyphsFrom 0 .bare rest
    else if c = d.escapeChar then
      (d.escaped .double rest.head?).1 ++ glyphsFrom (d.escaped .double rest.head?).2 .double rest
    else
      match d.variableIn names (c :: rest) with
      | some (name, length) => .quoted name :: glyphsFrom (length - 1) .double rest
      | none => .literal c :: glyphsFrom 0 .double rest
  | 0, _, c :: rest =>
    if d.isSingleQuote c then .quote :: glyphsFrom 0 .single rest
    else if d.isDoubleQuote c then .quote :: glyphsFrom 0 .double rest
    else if c = d.escapeChar then
      (d.escaped .bare rest.head?).1 ++ glyphsFrom (d.escaped .bare rest.head?).2 .bare rest
    else
      match d.variableIn names (c :: rest) with
      | some (name, length) => .bare name :: glyphsFrom (length - 1) .bare rest
      | none => .literal c :: glyphsFrom 0 .bare rest

/-- A character of an expanded word, a quote that opened, or a blank of a variable that splits the
word. -/
inductive Expanded where
  | quote
  | char (c : Char)
  | splitting
  deriving DecidableEq

def Expanded.text : Expanded → Text
  | .char c => [c]
  | _ => []

/-- A glyph under an assignment; a POSIX shell splits what a variable outside quotes holds. -/
def Glyph.expand (env : Text → Text) : Glyph → List Expanded
  | .quote => [.quote]
  | .literal c => [.char c]
  | .quoted name => (env name).map .char
  | .bare name => (env name).map fun c =>
      if d = .posix ∧ (c = ' ' ∨ c = '\t' ∨ c = '\n') then .splitting else .char c

/-- The values that a word gives to a program. -/
def wordValues (env : Text → Text) (word : Text) : List Text :=
  let expanded := (glyphsFrom names d 0 .bare word).flatMap (Glyph.expand d env)
  if d = .posix then
    ((expanded.splitOnP (· == .splitting)).filter (· != [])).map (List.flatMap Expanded.text)
  else [expanded.flatMap Expanded.text]

end Values

/-! ## Pieces that both shells read alike -/

namespace Dialects

/-- The first character that pieces are written as. -/
def firstChar : List Piece → Option Char
  | [] => none
  | .char c :: _ => some c
  | .reference .. :: _ => some '$'

def isBraced (group : Text) : Bool := group.tail.head? == some '{'

/-- Both shells end the name of a variable at the last of its first ASCII characters. -/
def endsAlike (names : NameCharacters) (name group : Text) (ps : List Piece) : Bool :=
  (!isBraced group || name.all ShellDialect.isPosixNameChar) &&
    !((name.dropWhile ShellDialect.isPosixNameChar).head?.or (firstChar ps)).any names.isNameChar

/-- Over the pieces of a word neither shell reads an escape, PowerShell reads neither a doubled
quote nor a typographic one, and the variables are within double quotes, with names that end
where both shells end them. -/
def alikeFrom (names : NameCharacters) : Quoting → List Piece → Bool
  | _, [] => true
  | .single, .char c :: ps =>
    if c = '\'' then
      !(firstChar ps).any (ShellDialect.isSingleQuote .powershell) && alikeFrom names .bare ps
    else !ShellDialect.isSingleQuote .powershell c && alikeFrom names .single ps
  | .double, .char c :: ps =>
    if c = '"' then
      !(firstChar ps).any (ShellDialect.isDoubleQuote .powershell) && alikeFrom names .bare ps
    else !ShellDialect.isDoubleQuote .powershell c && c != ShellDialect.backquote &&
      !(c == '\\' && (firstChar ps).any ShellDialect.isEscapable) && alikeFrom names .double ps
  | .double, .reference name group _ :: ps =>
    endsAlike names name group ps && alikeFrom names .double ps
  | .bare, .char c :: ps =>
    if c = '\'' then alikeFrom names .single ps
    else if c = '"' then alikeFrom names .double ps
    else isInert c && alikeFrom names .bare ps
  | _, _ => false

/-- The glyphs of pieces that are read alike. -/
def glyphsOf : Quoting → List Piece → List Glyph
  | _, [] => []
  | .single, .char c :: ps =>
    if c = '\'' then glyphsOf .bare ps else .literal c :: glyphsOf .single ps
  | .double, .char c :: ps =>
    if c = '"' then glyphsOf .bare ps else .literal c :: glyphsOf .double ps
  | q, .reference name _ _ :: ps =>
    .quoted (name.takeWhile ShellDialect.isPosixNameChar) ::
      ((name.dropWhile ShellDialect.isPosixNameChar).map .literal ++ glyphsOf q ps)
  | _, .char c :: ps =>
    if c = '\'' then .quote :: glyphsOf .single ps
    else if c = '"' then .quote :: glyphsOf .double ps
    else .literal c :: glyphsOf .bare ps

variable {names : NameCharacters} {source d : ShellDialect} {name group rest : Text}

theorem takeWhile_append_stop {α : Type} {p : α → Bool} {a b : List α} (ha : ∀ x ∈ a, p x = true)
    (hb : ∀ x ∈ b.head?, p x = false) : (a ++ b).takeWhile p = a := by
  rw [List.takeWhile_append_of_pos ha]
  cases b with
  | nil => exact List.append_nil a
  | cons x b =>
    rw [List.takeWhile_cons_of_neg (by simp [hb x rfl]), List.append_nil]

/-- The start of a name that both dialects take for one. -/
def StartsName (name : Text) : Prop :=
  ∃ c rest, name = c :: rest ∧ (c.isAlpha || c == '_') = true

/-- How a source dialect writes a variable. -/
def IsWritten (source : ShellDialect) (name group : Text) : Prop :=
  if source = .posix then group = ['$', '{'] ++ name ++ ['}'] ∨ group = '$' :: name
  else ∃ e n v, [e, n, v].map Char.toLower = ['e', 'n', 'v'] ∧ group = ['$', e, n, v, ':'] ++ name

theorem isNameChar_of_posix {c : Char} (h : ShellDialect.isPosixNameChar c = true) :
    names.isNameChar c = true := by
  have hascii : c.toNat < 128 := by
    unfold ShellDialect.isPosixNameChar at h
    rw [Bool.or_eq_true, beq_iff_eq] at h
    obtain h | rfl := h
    · have := isAlphanum_bounds h
      omega
    · decide
  rw [names.isNameChar_ascii c hascii]
  unfold ShellDialect.isPosixNameChar at h
  rw [h, Bool.true_or]

theorem notPosix_of_notNameChar (h : ∀ c ∈ rest.head?, names.isNameChar c = false) :
    ∀ c ∈ rest.head?, ShellDialect.isPosixNameChar c = false := by
  intro c hc
  rw [← Bool.not_eq_true]
  intro htrue
  have hfalse := h c hc
  rw [isNameChar_of_posix htrue] at hfalse
  cases hfalse

theorem posixName_append (hstart : StartsName name)
    (hname : ∀ c ∈ name, ShellDialect.isPosixNameChar c = true)
    (hrest : ∀ c ∈ rest.head?, ShellDialect.isPosixNameChar c = false) :
    ShellDialect.posixName (name ++ rest) = some name := by
  obtain ⟨c, tail, rfl, hc⟩ := hstart
  rw [List.cons_append]
  unfold ShellDialect.posixName
  dsimp only
  rw [if_pos hc, takeWhile_append_stop (List.forall_mem_cons.1 hname).2 hrest]

theorem variableIn_none {c : Char} (hc : c ≠ '$') : d.variableIn names (c :: rest) = none := by
  unfold ShellDialect.variableIn
  split <;> split
  all_goals first
    | rfl
    | (rename_i heq; exact absurd (List.cons.inj heq).1 hc)

theorem variableIn_plain (hstart : StartsName name)
    (hname : ∀ c ∈ name, ShellDialect.isPosixNameChar c = true)
    (hrest : ∀ c ∈ rest.head?, ShellDialect.isPosixNameChar c = false) :
    ShellDialect.variableIn names .posix ('$' :: (name ++ rest)) =
      some (name, name.length + 1) := by
  have hposix := posixName_append hstart hname hrest
  obtain ⟨c, tail, rfl, hc⟩ := hstart
  have hbrace : c ≠ '{' := by
    rintro rfl
    cases hc
  unfold ShellDialect.variableIn
  dsimp only
  split
  · rename_i heq
    exact absurd (List.cons.inj (List.cons.inj heq).2).1 hbrace
  · rename_i heq
    rw [← (List.cons.inj heq).2, hposix]
    rfl
  · rename_i hnone
    exact absurd rfl (hnone _)

theorem variableIn_braced (hstart : StartsName name)
    (hname : ∀ c ∈ name, ShellDialect.isPosixNameChar c = true) :
    ShellDialect.variableIn names .posix ('$' :: '{' :: (name ++ '}' :: rest)) =
      some (name, name.length + 3) := by
  have hposix := @posixName_append name ('}' :: rest) hstart hname (by
    simp [ShellDialect.isPosixNameChar])
  unfold ShellDialect.variableIn
  dsimp only
  split
  · rename_i heq
    rw [← (List.cons.inj (List.cons.inj heq).2).2, hposix]
    dsimp only
    rw [List.drop_left]
    rfl
  · rename_i hbrace heq
    exact absurd (List.cons.inj heq).2.symm (hbrace _)
  · rename_i hbrace hnone
    exact absurd rfl (hnone _)

theorem variableIn_env {e n v : Char} (henv : [e, n, v].map Char.toLower = ['e', 'n', 'v'])
    (hstart : StartsName name) (hname : ∀ c ∈ name, names.isNameChar c = true)
    (hrest : ∀ c ∈ rest.head?, names.isNameChar c = false) :
    ShellDialect.variableIn names .powershell (['$', e, n, v, ':'] ++ (name ++ rest)) =
      some (name, name.length + 5) := by
  obtain ⟨c, tail, rfl, -⟩ := hstart
  have hbrace : e ≠ '{' := by
    rintro rfl
    cases (List.cons.inj henv).1
  have htake := takeWhile_append_stop hname hrest
  unfold ShellDialect.variableIn
  dsimp only [List.cons_append, List.nil_append] at htake ⊢
  split
  · rename_i heq
    exact absurd (List.cons.inj (List.cons.inj heq).2).1 hbrace
  · rename_i heq
    simp only [List.cons.injEq, true_and] at heq
    obtain ⟨rfl, rfl, rfl, rfl⟩ := heq
    rw [if_pos ⟨henv, hname c List.mem_cons_self⟩, htake]
  · rename_i hnone
    exact absurd rfl (hnone _ _ _ _)

/-! ## Glyph by glyph -/

theorem glyphsFrom_skip {q : Quoting} (a : Text) :
    glyphsFrom names d a.length q (a ++ rest) = glyphsFrom names d 0 q rest := by
  induction a with
  | nil => rfl
  | cons c a ih => exact ih

theorem isSingleQuote_of_powershell {c : Char}
    (h : ShellDialect.isSingleQuote .powershell c = false) : d.isSingleQuote c = false := by
  unfold ShellDialect.isSingleQuote at h ⊢
  rw [Bool.or_eq_false_iff] at h
  cases d <;> simp_all

theorem isDoubleQuote_of_powershell {c : Char}
    (h : ShellDialect.isDoubleQuote .powershell c = false) : d.isDoubleQuote c = false := by
  unfold ShellDialect.isDoubleQuote at h ⊢
  rw [Bool.or_eq_false_iff] at h
  cases d <;> simp_all

theorem glyphsFrom_bare {c : Char} (hinert : isInert c = true) (hc : c ≠ '$') :
    glyphsFrom names d 0 .bare (c :: rest) = .literal c :: glyphsFrom names d 0 .bare rest := by
  obtain ⟨hsingle, hdouble⟩ := @not_isQuote_of_inert d c hinert
  have hplain : PlainIn d c := plainIn_of_isPlain (isPlain_of_inert hinert)
  rw [glyphsFrom, if_neg (by simp [hsingle]), if_neg (by simp [hdouble]), if_neg hplain.ne_escape,
    variableIn_none hc]
  all_goals simp

/-- A character within double quotes that is neither a quote nor an escape. -/
theorem glyphsFrom_double {c : Char} (hd : d = .posix ∨ d = .powershell)
    (hquote : ShellDialect.isDoubleQuote .powershell c = false) (hback : c ≠ ShellDialect.backquote)
    (hslash : c = '\\' → rest.head?.any ShellDialect.isEscapable = false) (hc : c ≠ '$') :
    glyphsFrom names d 0 .double (c :: rest) = .literal c :: glyphsFrom names d 0 .double rest := by
  rw [glyphsFrom, if_neg (by simp [isDoubleQuote_of_powershell hquote]), variableIn_none hc]
  split
  · rename_i hescape
    obtain rfl | rfl := hd
    · obtain rfl : c = '\\' := hescape
      have hnot := hslash rfl
      cases hrest : rest.head? with
      | none => rfl
      | some next =>
        rw [hrest, Option.any_some] at hnot
        simp [ShellDialect.escaped, hnot]
    · exact absurd hescape hback
  · rfl

/-- Inert characters within double quotes. -/
theorem glyphsFrom_inert (hd : d = .posix ∨ d = .powershell) {text : Text}
    (h : ∀ c ∈ text, isInert c = true ∧ c ≠ '$') :
    glyphsFrom names d 0 .double (text ++ rest) =
      text.map .literal ++ glyphsFrom names d 0 .double rest := by
  induction text with
  | nil => rfl
  | cons c text ih =>
    obtain ⟨⟨hinert, hc⟩, htext⟩ := List.forall_mem_cons.1 h
    have hback : c ≠ ShellDialect.backquote := by
      rintro rfl
      cases hinert
    have hslash : c ≠ '\\' := by
      rintro rfl
      cases hinert
    rw [List.cons_append, glyphsFrom_double hd (not_isQuote_of_inert hinert).2 hback
      (fun heq => absurd heq hslash) hc, ih htext]
    rfl

/-- A writing of pieces that a shell reads as the pieces. -/
structure Writes (names : NameCharacters) (source d : ShellDialect) (w : Piece → Text) : Prop where
  char : ∀ c, w (.char c) = [c]
  head : ∀ {name group next}, IsWritten source name group →
    ∃ body, w (.reference name group next) = '$' :: body
  reference : ∀ {name group next rest}, StartsName name → IsWritten source name group →
    (isBraced group = true → ∀ c ∈ name, ShellDialect.isPosixNameChar c = true) →
    (∀ c ∈ (name.dropWhile ShellDialect.isPosixNameChar ++ rest).head?,
      names.isNameChar c = false) →
    ∃ body, w (.reference name group next) =
        '$' :: (body ++ name.dropWhile ShellDialect.isPosixNameChar) ∧
      d.variableIn names
          ('$' :: (body ++ (name.dropWhile ShellDialect.isPosixNameChar ++ rest))) =
        some (name.takeWhile ShellDialect.isPosixNameChar, body.length + 1)

/-- A piece that a source dialect writes. -/
def Sound (source : ShellDialect) : Piece → Prop
  | .char c => c ≠ '$'
  | .reference name group _ => StartsName name ∧ IsWritten source name group ∧ IsReference name

variable {w : Piece → Text} {ps : List Piece}

theorem Writes.head_eq (hw : Writes names source d w) (hps : ∀ p ∈ ps, Sound source p) :
    (ps.flatMap w).head? = firstChar ps := by
  cases ps with
  | nil => rfl
  | cons p ps =>
    rw [List.flatMap_cons]
    cases p with
    | char c =>
      rw [hw.char]
      rfl
    | reference name group next =>
      obtain ⟨body, hbody⟩ := hw.head (hps _ List.mem_cons_self).2.1
      rw [hbody]
      rfl

/-- Pieces that are read alike have the same glyphs in either writing. -/
theorem glyphsFrom_pieces (hd : d = .posix ∨ d = .powershell) (hw : Writes names source d w)
    {q : Quoting} (hq : q.InToken) (hps : ∀ p ∈ ps, Sound source p)
    (h : alikeFrom names q ps = true) :
    glyphsFrom names d 0 q (ps.flatMap w) = glyphsOf q ps := by
  induction ps generalizing q with
  | nil => cases q <;> rfl
  | cons p ps ih =>
    obtain ⟨hp, hsound⟩ := List.forall_mem_cons.1 hps
    have hhead := hw.head_eq hsound
    rw [List.flatMap_cons]
    cases p with
    | char c =>
      rw [hw.char, List.singleton_append]
      obtain rfl | rfl | rfl := hq
      · unfold alikeFrom at h
        unfold glyphsOf
        split_ifs at h ⊢ with hsingle hdouble
        · subst hsingle
          rw [← ih (.inr (.inl rfl)) hsound h]
          rfl
        · subst hdouble
          rw [← ih (.inr (.inr rfl)) hsound h]
          cases d <;> rfl
        · rw [Bool.and_eq_true] at h
          rw [glyphsFrom_bare h.1 hp, ih (.inl rfl) hsound h.2]
      · unfold alikeFrom at h
        unfold glyphsOf
        split_ifs at h ⊢ with hclose
        all_goals
          rw [Bool.and_eq_true, Bool.not_eq_true'] at h
          obtain ⟨hquote, hrest⟩ := h
        · subst hclose
          have hopen : d.isSingleQuote '\'' = true := by cases d <;> rfl
          rw [glyphsFrom, if_pos hopen, if_neg, ih (.inl rfl) hsound hrest]
          rintro ⟨rfl, hdoubled⟩
          rw [hhead, hquote] at hdoubled
          cases hdoubled
        · rw [glyphsFrom, if_neg (by simp [isSingleQuote_of_powershell hquote]),
            ih (.inr (.inl rfl)) hsound hrest]
      · unfold alikeFrom at h
        unfold glyphsOf
        split_ifs at h ⊢ with hclose
        · rw [Bool.and_eq_true, Bool.not_eq_true'] at h
          subst hclose
          have hopen : d.isDoubleQuote '"' = true := by cases d <;> rfl
          rw [glyphsFrom, if_pos hopen, if_neg, ih (.inl rfl) hsound h.2]
          rintro ⟨rfl, hdoubled⟩
          rw [hhead, h.1] at hdoubled
          cases hdoubled
        · simp only [Bool.and_eq_true, Bool.not_eq_true', bne_iff_ne, Bool.and_eq_false_iff,
            beq_eq_false_iff_ne] at h
          obtain ⟨⟨⟨hquote, hback⟩, hslash⟩, hrest⟩ := h
          rw [glyphsFrom_double hd hquote hback ?_ hp, ih (.inr (.inr rfl)) hsound hrest]
          rintro rfl
          rw [hhead]
          exact hslash.resolve_left (fun hne => hne rfl)
    | reference name group next =>
      obtain rfl | rfl | rfl := hq
      · cases h
      · cases h
      · unfold alikeFrom endsAlike at h
        simp only [Bool.and_eq_true, Bool.or_eq_true, Bool.not_eq_true', List.all_eq_true] at h
        obtain ⟨⟨hbraced, hnext⟩, hrest⟩ := h
        obtain ⟨body, hbody, hvariable⟩ :=
          @Writes.reference _ _ _ _ hw name group next (ps.flatMap w) hp.1 hp.2.1
            (fun htrue => hbraced.resolve_left (by simp [htrue])) (by
              rw [List.head?_append, hhead]
              intro c hc
              rw [Option.mem_def.1 hc] at hnext
              exact hnext)
        have hquote : d.isDoubleQuote '$' = false := by cases d <;> rfl
        have hescape : '$' ≠ d.escapeChar := by cases d <;> decide
        rw [hbody, List.cons_append, List.append_assoc, glyphsFrom, if_neg (by simp [hquote]),
          if_neg hescape, hvariable]
        dsimp only
        rw [Nat.add_sub_cancel, glyphsFrom_skip,
          glyphsFrom_inert hd fun c hc => hp.2.2.inert c ((List.dropWhile_sublist _).subset hc),
          ih (.inr (.inr rfl)) hsound hrest]
        rfl

/-! ## The value of a word and of its rewriting -/

theorem startsName_takeWhile (h : StartsName name) :
    StartsName (name.takeWhile ShellDialect.isPosixNameChar) := by
  obtain ⟨c, rest, rfl, hc⟩ := h
  have hposix : ShellDialect.isPosixNameChar c = true := by
    unfold ShellDialect.isPosixNameChar
    rw [Bool.or_eq_true] at hc ⊢
    exact hc.imp_left fun halpha => Bool.or_eq_true_iff.2 (.inl halpha)
  rw [List.takeWhile_cons_of_pos hposix]
  exact ⟨c, _, rfl, hc⟩

/-- The reference of PowerShell, up to where its name ends. -/
theorem variableIn_env_prefix {e n v : Char} (henv : [e, n, v].map Char.toLower = ['e', 'n', 'v'])
    (hstart : StartsName name)
    (hrest : ∀ c ∈ (name.dropWhile ShellDialect.isPosixNameChar ++ rest).head?,
      names.isNameChar c = false) :
    ∃ body, ['$', e, n, v, ':'] ++ name =
        '$' :: (body ++ name.dropWhile ShellDialect.isPosixNameChar) ∧
      ShellDialect.variableIn names .powershell
          ('$' :: (body ++ (name.dropWhile ShellDialect.isPosixNameChar ++ rest))) =
        some (name.takeWhile ShellDialect.isPosixNameChar, body.length + 1) := by
  refine ⟨[e, n, v, ':'] ++ name.takeWhile ShellDialect.isPosixNameChar, ?_, ?_⟩
  · rw [List.append_assoc, List.takeWhile_append_dropWhile]
    rfl
  · rw [List.append_assoc]
    refine (variableIn_env henv (startsName_takeWhile hstart)
      (fun c hc => isNameChar_of_posix (List.mem_takeWhile_imp hc)) hrest).trans ?_
    simp

/-- The reference of a POSIX shell, up to where its name ends. -/
theorem variableIn_plain_prefix (hstart : StartsName name)
    (hrest : ∀ c ∈ (name.dropWhile ShellDialect.isPosixNameChar ++ rest).head?,
      names.isNameChar c = false) :
    ∃ body, '$' :: name = '$' :: (body ++ name.dropWhile ShellDialect.isPosixNameChar) ∧
      ShellDialect.variableIn names .posix
          ('$' :: (body ++ (name.dropWhile ShellDialect.isPosixNameChar ++ rest))) =
        some (name.takeWhile ShellDialect.isPosixNameChar, body.length + 1) :=
  ⟨name.takeWhile ShellDialect.isPosixNameChar, by rw [List.takeWhile_append_dropWhile],
    variableIn_plain (startsName_takeWhile hstart) (fun _ hc => List.mem_takeWhile_imp hc)
      (notPosix_of_notNameChar hrest)⟩

theorem writes_written (hsource : source = .posix ∨ source = .powershell) :
    Writes names source source Piece.written where
  char _ := rfl
  head {name group next} h := by
    unfold IsWritten at h
    split_ifs at h
    · obtain rfl | rfl := h
      · exact ⟨_, rfl⟩
      · exact ⟨_, rfl⟩
    · obtain ⟨e, n, v, -, rfl⟩ := h
      exact ⟨_, rfl⟩
  reference {name group next rest} hstart hwritten hbraced hrest := by
    unfold IsWritten at hwritten
    obtain rfl | rfl := hsource
    · rw [if_pos rfl] at hwritten
      obtain rfl | rfl := hwritten
      · have hname := hbraced rfl
        have hnone : name.dropWhile ShellDialect.isPosixNameChar = [] :=
          List.dropWhile_eq_nil_iff.2 hname
        have hwhole : name.takeWhile ShellDialect.isPosixNameChar = name :=
          List.takeWhile_eq_self_iff.2 hname
        rw [hnone, hwhole, List.nil_append]
        refine ⟨'{' :: (name ++ ['}']), by rw [List.append_nil]; rfl, ?_⟩
        rw [List.cons_append, List.append_assoc, List.singleton_append,
          variableIn_braced hstart hname]
        simp
      · exact variableIn_plain_prefix hstart hrest
    · rw [if_neg (by decide)] at hwritten
      obtain ⟨e, n, v, henv, rfl⟩ := hwritten
      exact variableIn_env_prefix henv hstart hrest

/-- A dialect and the one that it is translated to. -/
def Translates (source target : ShellDialect) : Prop :=
  source = .posix ∧ target = .powershell ∨ source = .powershell ∧ target = .posix

variable {target : ShellDialect}

theorem writes_render (h : Translates source target) :
    Writes names source target (Piece.render source) where
  char _ := rfl
  head {name group next} _ := by
    obtain ⟨rfl, -⟩ | ⟨rfl, -⟩ := h
    · exact ⟨_, rfl⟩
    · exact ⟨_, rfl⟩
  reference {name group next rest} hstart _ _ hrest := by
    obtain ⟨rfl, rfl⟩ | ⟨rfl, rfl⟩ := h
    · exact variableIn_env_prefix (by decide) hstart hrest
    · exact variableIn_plain_prefix hstart hrest

theorem nameAt_starts {text after : Text} (h : nameAt u text = some (name, after)) :
    StartsName name := by
  unfold nameAt at h
  split at h
  · split at h
    · rename_i hc
      cases h
      exact ⟨_, _, rfl, hc⟩
    · cases h
  · cases h

theorem variableAt_written {text after : Text} (hsource : source = .posix ∨ source = .powershell)
    (h : variableAt u source text = some (name, group, after)) :
    StartsName name ∧ IsWritten source name group := by
  unfold IsWritten
  obtain rfl | rfl := hsource
  · rw [if_pos rfl]
    unfold variableAt at h
    dsimp only at h
    split at h
    · rename_i hbraced
      unfold bracedVariable at hbraced
      split at hbraced
      · split at hbraced
        · rename_i hname
          cases hbraced
          cases h
          exact ⟨nameAt_starts hname, .inl rfl⟩
        · cases hbraced
      · cases hbraced
    · split at h
      · rw [Option.map_eq_some_iff] at h
        obtain ⟨⟨name', after'⟩, hname, heq⟩ := h
        cases heq
        exact ⟨nameAt_starts hname, .inr rfl⟩
      · cases h
  · rw [if_neg (by decide)]
    unfold variableAt at h
    dsimp only at h
    split at h
    · rename_i e n v rest
      split at h
      · rename_i henv
        rw [Option.map_eq_some_iff] at h
        obtain ⟨⟨name', after'⟩, hname, heq⟩ := h
        cases heq
        exact ⟨nameAt_starts hname, e, n, v, henv, rfl⟩
      · cases h
    · cases h

theorem pieces_written {fuel : Nat} {text : Text}
    (hsource : source = .posix ∨ source = .powershell) :
    ∀ p ∈ pieces u source fuel text, p.isVariable = true → Sound source p := by
  induction fuel generalizing text with
  | zero => exact fun p hp => absurd hp List.not_mem_nil
  | succ fuel ih =>
    cases text with
    | nil => exact fun p hp => absurd hp List.not_mem_nil
    | cons c rest =>
      unfold pieces
      split
      · rename_i name group after hvariable
        rw [List.forall_mem_cons]
        obtain ⟨hstart, hwritten⟩ := variableAt_written hsource hvariable
        exact ⟨fun _ => ⟨hstart, hwritten, (variableAt_spec hvariable).2.1⟩, ih⟩
      · rw [List.forall_mem_cons]
        exact ⟨fun hvariable => absurd hvariable Bool.false_ne_true, ih⟩

/-- What a token is made of, before and after its variables are rewritten. -/
theorem rewriteVariables_pieces {raw token : Text} {changed : Bool}
    (hsource : source = .posix ∨ source = .powershell)
    (h : rewriteVariables u source raw = .ok (token, changed)) :
    (∀ p ∈ pieces u source raw.length raw, Sound source p) ∧
      (pieces u source raw.length raw).flatMap Piece.written = raw ∧
      (pieces u source raw.length raw).flatMap (Piece.render source) = token := by
  have hwritten : (pieces u source raw.length raw).flatMap Piece.written = raw :=
    pieces_source le_rfl
  have hcount := @wellFormed_of_count (pieces u source raw.length raw) pieces_variable
  rw [hwritten] at hcount
  have hsound : (pieces u source raw.length raw).countP Piece.isVariable = raw.count '$' →
      ∀ p ∈ pieces u source raw.length raw, Sound source p := by
    intro heq p hp
    have hwell := hcount.2 heq p hp
    cases p with
    | char c => exact hwell
    | reference name group next => exact pieces_written hsource _ hp rfl
  unfold rewriteVariables at h
  split at h
  · rename_i hdollar
    cases h
    have hzero : raw.count '$' = 0 := List.count_eq_zero.2 hdollar
    have hnone : (pieces u source raw.length raw).countP Piece.isVariable = 0 := by
      have hle := hcount.1
      omega
    refine ⟨hsound (hnone.trans hzero.symm), hwritten, ?_⟩
    rw [List.countP_eq_zero] at hnone
    refine Eq.trans (List.flatMap_congr fun p hp => ?_) hwritten
    cases p with
    | char c => rfl
    | reference name group next => exact absurd rfl (hnone _ hp)
  · dsimp only at h
    split at h
    · cases h
    · rename_i heq
      split at h
      · cases h
      · cases h
        exact ⟨hsound (not_not.1 heq), hwritten, rfl⟩

theorem bare_notMem_glyphsOf {q : Quoting} : Glyph.bare name ∉ glyphsOf q ps := by
  induction ps generalizing q with
  | nil => cases q <;> exact List.not_mem_nil
  | cons p ps ih =>
    cases p with
    | char c =>
      cases q
      all_goals
        unfold glyphsOf
        split_ifs <;> simp [ih]
    | reference name' group next =>
      cases q
      all_goals
        unfold glyphsOf
        simp [ih]

theorem expand_notSplitting {env : Text → Text} {g : Glyph} (hg : ∀ name, g ≠ .bare name) :
    g.expand d env = g.expand .posix env ∧ ∀ x ∈ g.expand d env, (x == .splitting) = false := by
  cases g with
  | quote => exact ⟨rfl, by simp [Glyph.expand]⟩
  | literal c => exact ⟨rfl, by simp [Glyph.expand]⟩
  | quoted name => exact ⟨rfl, by simp [Glyph.expand]⟩
  | bare name => exact absurd rfl (hg name)

/-- The one value of a word without variables outside quotes. -/
theorem wordValues_of_glyphs {word : Text} {glyphs : List Glyph} {env : Text → Text}
    (h : glyphsFrom names d 0 .bare word = glyphs) (hbare : ∀ name, Glyph.bare name ∉ glyphs)
    (hne : glyphs.flatMap (Glyph.expand .posix env) ≠ []) :
    wordValues names d env word =
      [(glyphs.flatMap (Glyph.expand .posix env)).flatMap Expanded.text] := by
  have hnot : ∀ g ∈ glyphs, ∀ name, g ≠ .bare name := by
    rintro g hg name rfl
    exact hbare name hg
  have heq : glyphs.flatMap (Glyph.expand d env) = glyphs.flatMap (Glyph.expand .posix env) :=
    List.flatMap_congr fun g hg => (expand_notSplitting (hnot g hg)).1
  unfold wordValues
  dsimp only
  rw [h, heq]
  split
  · rw [List.splitOnP_eq_singleton]
    · simp [hne]
    · intro x hx
      obtain ⟨g, hg, hx⟩ := List.mem_flatMap.1 hx
      exact (expand_notSplitting (hnot g hg)).2 x hx
  · rfl

/-- A word that is read alike has one value, and its rewriting has the same. -/
theorem wordValues_rewritten (hdialects : Translates source target) {raw token : Text}
    {changed : Bool} (h : rewriteVariables u source raw = .ok (token, changed)) (hne : raw ≠ [])
    (halike : alikeFrom names .bare (pieces u source raw.length raw) = true) (env : Text → Text) :
    ∃ value, wordValues names source env raw = [value] ∧
      wordValues names target env token = [value] := by
  have hsource : source = .posix ∨ source = .powershell := hdialects.imp And.left And.left
  have htarget : target = .posix ∨ target = .powershell :=
    (hdialects.imp And.right And.right).symm
  obtain ⟨hsound, hwritten, hrender⟩ := rewriteVariables_pieces hsource h
  have hread := glyphsFrom_pieces hsource (@writes_written names _ hsource) (.inl rfl) hsound halike
  have hrewritten := glyphsFrom_pieces htarget (@writes_render names _ _ hdialects) (.inl rfl)
    hsound halike
  rw [hwritten] at hread
  rw [hrender] at hrewritten
  have hglyphs : (glyphsOf .bare (pieces u source raw.length raw)).flatMap
      (Glyph.expand .posix env) ≠ [] := by
    cases hps : pieces u source raw.length raw with
    | nil =>
      rw [hps] at hwritten
      exact absurd hwritten.symm hne
    | cons p ps =>
      rw [hps] at halike
      cases p with
      | char c =>
        unfold glyphsOf
        split_ifs <;> simp [Glyph.expand]
      | reference name group next => cases halike
  exact ⟨_, wordValues_of_glyphs hread (fun name => bare_notMem_glyphsOf) hglyphs,
    wordValues_of_glyphs hrewritten (fun name => bare_notMem_glyphsOf) hglyphs⟩

end Dialects

end AgenticLocalApp
