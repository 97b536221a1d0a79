import AgenticLocalApp.Shell.CountTexts
import AgenticLocalApp.Shell.Reading
import Mathlib.Data.List.Infix
import Mathlib.Data.List.TakeWhile

/-!
# A translated command only reads

The scan refuses operators by the quotes of the source dialect.  When the target shell reads the
same quotes in the command, the rewritten text is simple commands of the table and nothing else; a
quote that the target escapes, or a backquote that it substitutes, is outside that.
-/

namespace AgenticLocalApp

namespace Dialects

/-! ## Quotes read alike -/

/-- The quotes of the scan. -/
def scanQuote : Option Char → Char → Option Char
  | some q, c => if c = q then none else some q
  | none, c => if c = '"' ∨ c = '\'' then some c else none

end Dialects

/-- A reader and the scan are within the same quotes. -/
def Quoting.agrees : Quoting → Option Char → Bool
  | .bare, quote => quote == none
  | .single, quote => quote == some '\''
  | .double, quote => quote == some '"'
  | .doubleEscaped, quote => quote == some '"'
  | _, _ => false

namespace Dialects

/-- At every point of the text the shell is within the same quotes as the scan, and substitutes no
command within them; and no quote opens what PowerShell may take for a here-string. -/
structure ReadAlike (d : ShellDialect) (text : Text) : Prop where
  quotes : ∀ p, p <+: text →
    (p.foldl d.quoteStep .bare).agrees (p.foldl scanQuote none) = true
  no_here_string : d = .powershell → ∀ p c, p ++ ['@', c] <+: text →
    p.foldl scanQuote none = none → ¬ (c = '"' ∨ c = '\'')

theorem ReadAlike.of_prefix {d : ShellDialect} {p text : Text} (h : ReadAlike d text)
    (hp : p <+: text) : ReadAlike d p where
  quotes q hq := h.quotes q (hq.trans hp)
  no_here_string hd q c hq := h.no_here_string hd q c (hq.trans hp)

/-- The scan is within no quotes but these. -/
theorem foldl_scanQuote {text : Text} {quote : Option Char}
    (h : ∀ q ∈ quote, q = '"' ∨ q = '\'') :
    ∀ q ∈ text.foldl scanQuote quote, q = '"' ∨ q = '\'' := by
  induction text generalizing quote with
  | nil => exact h
  | cons c text ih =>
    refine ih fun q hq => ?_
    unfold scanQuote at hq
    split at hq
    · split at hq
      · cases hq
      · exact h q hq
    · split at hq
      · rename_i hc
        cases hq
        exact hc
      · cases hq

/-- The programs that the target forms of the table begin with. -/
def targetPrograms : ShellDialect → List String
  | .posix => ["env", "ls", "head", "tail", "cat", "pwd", "echo", "command"]
  | .powershell =>
    ["Get-ChildItem", "Get-Content", "Get-Location", "Write-Output", "Get-Command"]
  | _ => []

/-- The shell reads simple commands of the table, and no construct that does more. -/
structure OnlyReads (d : ShellDialect) (text : Text) : Prop where
  no_construct : (Reading.run d {} text).quoting ≠ .construct
  no_here_string : (Reading.run d {} text).quoting ≠ .hereString
  heads : ∀ command ∈ (Reading.read d text).commands,
    ∃ name ∈ targetPrograms d, command.head? = some name.toList

variable {u : UnicodeTable} {d : ShellDialect}

theorem agrees_none {q : Quoting} : q.agrees none = true ↔ q = .bare := by
  cases q <;> simp [Quoting.agrees]

/-! ## Names and variables -/

theorem isWord_of_isAlpha {c : Char} (h : (c.isAlpha || c == '_') = true) : u.isWord c = true := by
  rw [Bool.or_eq_true, beq_iff_eq] at h
  obtain h | rfl := h
  · have halnum : c.isAlphanum = true := Bool.or_eq_true_iff.2 (.inl h)
    rw [u.isWord_ascii c (by have := isAlphanum_bounds halnum; omega), halnum, Bool.true_or]
  · exact u.isWord_ascii '_' (by decide)

/-- A word character is inert in both shells. -/
theorem isInert_of_isWord {c : Char} (h : u.isWord c = true) : isInert c = true := by
  have hblank : isBlankChar c = false := by
    rw [← Bool.not_eq_true]
    intro hb
    rw [u.isWord_blank c hb] at h
    cases h
  have hascii : ∀ xs : List Char,
      xs.all (fun x => x.toNat < 128 && !(x.isAlphanum || x == '_')) = true → c ∉ xs := by
    intro xs hxs hc
    have hx := List.all_eq_true.1 hxs c hc
    rw [Bool.and_eq_true, decide_eq_true_eq, Bool.not_eq_true'] at hx
    rw [u.isWord_ascii c hx.1, hx.2] at h
    cases h
  have hquotation : c ∉ ['‘', '’', '‚', '‛', '“', '”', '„'] := by
    intro hc
    rw [u.isWord_quotation c hc] at h
    cases h
  unfold isInert isPlain isQuotation
  simp only [hblank, Bool.and_eq_true, Bool.not_eq_true', List.contains_eq_mem,
    decide_eq_false_iff_not]
  refine ⟨⟨hascii _ (by decide), trivial⟩, fun hc => ?_⟩
  obtain hc | hc := List.mem_append.1 (show c ∈ ['\'', '"'] ++ _ from hc)
  · exact hascii _ (by decide) hc
  · exact hquotation hc

theorem not_quote_of_inert {c : Char} (h : isInert c = true) : ¬ (c = '"' ∨ c = '\'') := by
  rintro (rfl | rfl) <;> cases h

theorem nameAt_spec {text name after : Text} (h : nameAt u text = some (name, after)) :
    text = name ++ after ∧ name ≠ [] ∧ ∀ c ∈ name, u.isWord c = true := by
  unfold nameAt at h
  split at h
  · rename_i c rest
    split at h
    · rename_i hc
      cases h
      refine ⟨by rw [List.cons_append, List.takeWhile_append_dropWhile], List.cons_ne_nil _ _, ?_⟩
      rw [List.forall_mem_cons]
      exact ⟨isWord_of_isAlpha hc, fun x hx => List.mem_takeWhile_imp hx⟩
    · cases h
  · cases h

theorem bracedVariable_spec {text name after : Text}
    (h : bracedVariable u text = some (name, after)) :
    text = '$' :: '{' :: (name ++ '}' :: after) ∧ name ≠ [] ∧ ∀ c ∈ name, u.isWord c = true := by
  unfold bracedVariable at h
  split at h
  · rename_i rest
    split at h
    · rename_i name' after' hname
      cases h
      obtain ⟨hrest, hne, hword⟩ := nameAt_spec hname
      exact ⟨by rw [hrest], hne, hword⟩
    · cases h
  · cases h

/-! ## The tokens of a scan -/

/-- What the scan has put together of a token, when the target reads it alike. -/
structure RawToken (d : ShellDialect) (raw : Text) : Prop where
  alike : ReadAlike d raw
  plain : ∀ p c, p ++ [c] <+: raw → p.foldl scanQuote none = none →
    c = '"' ∨ c = '\'' ∨ isPlain c = true

theorem rawToken_nil : RawToken d [] where
  alike :=
    { quotes := fun p hp => by
        rw [List.prefix_nil.1 hp]
        rfl
      no_here_string := fun _ p c hp => absurd (List.prefix_nil.1 hp) (by simp) }
  plain p c hp := absurd (List.prefix_nil.1 hp) (by simp)

theorem RawToken.push {raw : Text} {c : Char} (h : RawToken d raw)
    (halike : ((raw ++ [c]).foldl d.quoteStep .bare).agrees
      ((raw ++ [c]).foldl scanQuote none) = true)
    (hhere : d = .powershell → ∀ p, raw = p ++ ['@'] → p.foldl scanQuote none = none →
      ¬ (c = '"' ∨ c = '\''))
    (hplain : raw.foldl scanQuote none = none → c = '"' ∨ c = '\'' ∨ isPlain c = true) :
    RawToken d (raw ++ [c]) where
  alike :=
    { quotes := fun p hp => by
        obtain rfl | hp := List.prefix_concat_iff.1 hp
        · exact halike
        · exact h.alike.quotes p hp
      no_here_string := fun hd p x hp hnone => by
        obtain heq | hp := List.prefix_concat_iff.1 hp
        · rw [List.append_cons] at heq
          obtain ⟨rfl, hx⟩ := List.append_inj' heq rfl
          cases hx
          exact hhere hd p rfl hnone
        · exact h.alike.no_here_string hd p x hp hnone }
  plain p x hp hnone := by
    obtain heq | hp := List.prefix_concat_iff.1 hp
    · obtain ⟨rfl, hx⟩ := List.append_inj' heq rfl
      cases hx
      exact hplain hnone
    · exact h.plain p x hp hnone

/-- A token as the scan hands it to the rules. -/
structure ScannedToken (u : UnicodeTable) (source d : ShellDialect) (token : Text) : Prop where
  exists_raw : ∃ raw changed, raw ≠ [] ∧ RawToken d raw ∧ raw.foldl scanQuote none = none ∧
    rewriteVariables u source raw = .ok (token, changed)

/-- The loop of the scan after `consumed`. -/
structure Scanning (u : UnicodeTable) (source d : ShellDialect) (consumed : Text)
    (quote : Option Char) (s : ScanState) : Prop where
  consumed_quote : consumed.foldl scanQuote none = quote
  token_quote : s.token.foldl scanQuote none = quote
  token_quoting : s.token.foldl d.quoteStep .bare = consumed.foldl d.quoteStep .bare
  token_suffix : s.token <:+ consumed
  raw : RawToken d s.token
  tokens : ∀ t ∈ s.tokens, ScannedToken u source d t
  segments : ∀ seg ∈ s.segments, seg ≠ [] ∧ ∀ t ∈ seg, ScannedToken u source d t

variable {source : ShellDialect} {consumed : Text} {quote : Option Char} {s : ScanState}

theorem Scanning.push {c : Char} (h : Scanning u source d consumed quote s)
    (halike : ReadAlike d (consumed ++ [c]))
    (hplain : quote = none → c = '"' ∨ c = '\'' ∨ isPlain c = true) :
    Scanning u source d (consumed ++ [c]) (scanQuote quote c) (s.push c) := by
  have htoken : (s.push c).token = s.token ++ [c] := rfl
  have hquote : (s.token ++ [c]).foldl scanQuote none = scanQuote quote c := by
    rw [List.foldl_append, h.token_quote]
    rfl
  have hquoting : (s.token ++ [c]).foldl d.quoteStep .bare =
      (consumed ++ [c]).foldl d.quoteStep .bare := by
    rw [List.foldl_append, List.foldl_append, h.token_quoting]
  have hconsumed : (consumed ++ [c]).foldl scanQuote none = scanQuote quote c := by
    rw [List.foldl_append, h.consumed_quote]
    rfl
  obtain ⟨before, hbefore⟩ := h.token_suffix
  refine ⟨hconsumed, hquote, hquoting, ?_, ?_, h.tokens, h.segments⟩
  · rw [htoken]
    exact ⟨before, by rw [← hbefore, List.append_assoc]⟩
  rw [htoken]
  refine h.raw.push ?_ (fun hd p hraw hnone => ?_) fun hnone =>
    hplain (h.token_quote.symm.trans hnone)
  · rw [hquoting, hquote, ← hconsumed]
    exact halike.quotes _ (List.prefix_refl _)
  · -- the quotes before the token are closed where those of the token are
    refine halike.no_here_string hd (before ++ p) c ?_ ?_
    · rw [← hbefore, hraw]
      simp
    · have htoken_quote := h.token_quote
      have hconsumed_quote := h.consumed_quote
      rw [hraw, List.foldl_append, hnone] at htoken_quote
      rw [← hbefore, hraw, ← List.append_assoc, List.foldl_append, ← htoken_quote] at hconsumed_quote
      cases hbefore_quote : (before ++ p).foldl scanQuote none with
      | none => rfl
      | some q =>
        rw [hbefore_quote] at hconsumed_quote
        obtain rfl | rfl := @foldl_scanQuote (before ++ p) none (by simp) q hbefore_quote <;>
          cases hconsumed_quote

/-- A token ends outside quotes. -/
theorem Scanning.endToken {s' : ScanState} (h : Scanning u source d consumed none s)
    (hend : s.endToken u source = .ok s') :
    s'.token = [] ∧ s'.segments = s.segments ∧ ∀ t ∈ s'.tokens, ScannedToken u source d t := by
  unfold ScanState.endToken at hend
  split at hend
  · rename_i hnil
    cases hend
    exact ⟨hnil, rfl, h.tokens⟩
  · rename_i hne
    split at hend
    · cases hend
    · rename_i rewritten changed hrewrite
      cases hend
      refine ⟨rfl, rfl, ?_⟩
      rw [List.forall_mem_append]
      refine ⟨h.tokens, ?_⟩
      rw [List.forall_mem_singleton]
      exact ⟨⟨s.token, changed, hne, h.raw, h.token_quote, hrewrite⟩⟩

/-- A blank or a separator after a token that has ended. -/
theorem Scanning.boundary {c : Char} {s' : ScanState} (h : Scanning u source d consumed none s)
    (halike : ReadAlike d (consumed ++ [c])) (hc : ¬ (c = '"' ∨ c = '\'')) (htoken : s'.token = [])
    (htokens : ∀ t ∈ s'.tokens, ScannedToken u source d t)
    (hsegments : ∀ seg ∈ s'.segments, seg ≠ [] ∧ ∀ t ∈ seg, ScannedToken u source d t) :
    Scanning u source d (consumed ++ [c]) none s' := by
  have hquote : (consumed ++ [c]).foldl scanQuote none = none := by
    rw [List.foldl_append, h.consumed_quote]
    exact if_neg hc
  have hbare := halike.quotes _ (List.prefix_refl _)
  rw [hquote, agrees_none] at hbare
  refine ⟨hquote, ?_, ?_, ?_, ?_, htokens, hsegments⟩
  · rw [htoken]
    rfl
  · rw [htoken, hbare]
    rfl
  · rw [htoken]
    exact List.nil_suffix
  · rw [htoken]
    exact rawToken_nil

/-- The simple commands of a scan are made of scanned tokens. -/
def ScannedSegments (u : UnicodeTable) (source d : ShellDialect) (segments : List (List Text)) :
    Prop :=
  ∀ seg ∈ segments, seg ≠ [] ∧ ∀ t ∈ seg, ScannedToken u source d t

theorem scannedSegments_endSegment (htokens : ∀ t ∈ s.tokens, ScannedToken u source d t)
    (hsegments : ScannedSegments u source d s.segments) :
    ScannedSegments u source d s.endSegment.segments := by
  unfold ScanState.endSegment
  split
  · exact hsegments
  · rename_i hne
    intro seg hseg
    obtain hseg | hseg := List.mem_append.1 hseg
    · exact hsegments seg hseg
    · rw [List.mem_singleton.1 hseg]
      exact ⟨hne, htokens⟩

theorem endSegment_token (s : ScanState) : s.endSegment.token = s.token := by
  unfold ScanState.endSegment
  split <;> rfl

theorem endSegment_tokens (s : ScanState) : s.endSegment.tokens = [] := by
  unfold ScanState.endSegment
  split
  · assumption
  · rfl

/-- What the scan puts together outside quotes is plain. -/
theorem isPlain_of_not_refused {c : Char} (hrefused : refusedCharacters.lookup c = none)
    (hsemi : c ≠ ';') (hblank : ¬ isBlankChar c = true) : isPlain c = true := by
  have hnot : c ∉ refusedCharacters.map Prod.fst := by
    intro hc
    obtain ⟨⟨x, what⟩, hmem, rfl⟩ := List.mem_map.1 hc
    have := List.lookup_eq_none_iff.1 hrefused _ hmem
    simp at this
  unfold isPlain
  simp only [Bool.and_eq_true, Bool.not_eq_true', List.contains_eq_mem, decide_eq_false_iff_not,
    Bool.not_eq_true] at hblank ⊢
  refine ⟨fun hc => ?_, hblank⟩
  have hcases : ['|', '&', '<', '>', '(', ')', ';', '\n', '#', '\\', ShellDialect.backquote].all
      (fun x => x == ';' || (refusedCharacters.map Prod.fst).contains x) = true := rfl
  have hx := List.all_eq_true.1 hcases c hc
  rw [Bool.or_eq_true, beq_iff_eq, List.contains_iff_mem] at hx
  obtain h | h := hx
  · exact hsemi h
  · exact hnot h

/-- What holds after every character of a scan, when it holds before one: a character is added to
the token, a blank ends the token, or a separator ends the simple command. -/
theorem scanFrom_rule {I : Text → Option Char → ScanState → Prop}
    (hpush : ∀ {c rest quote s}, I (c :: rest) quote s →
      (quote = none → c = '"' ∨ c = '\'' ∨ isPlain c = true) →
        I rest (scanQuote quote c) (s.push c))
    (hblank : ∀ {c rest s s'}, isBlankChar c = true → c ≠ '\n' → ¬ (c = '"' ∨ c = '\'') →
      I (c :: rest) none s → s.endToken u source = .ok s' → I rest none s')
    (hsemicolon : ∀ {rest s s'}, I (';' :: rest) none s → s.endToken u source = .ok s' →
      I rest none s'.endSegment)
    {copying : Nat} {rest : Text} {segments : List (List Text)} {hasVariables : Bool}
    (h : I rest quote s)
    (hcopying : 0 < copying → quote = none ∧
      ∀ c ∈ rest.take copying, isPlain c = true ∧ ¬ (c = '"' ∨ c = '\''))
    (hscan : scanFrom u source copying quote s rest = .ok (segments, hasVariables)) :
    ∃ s s', I [] none s ∧ s.endToken u source = .ok s' ∧ segments = s'.endSegment.segments := by
  induction rest generalizing copying quote s with
  | nil =>
    unfold scanFrom at hscan
    split at hscan
    · cases hscan
    · rename_i hquote
      rw [Bool.not_eq_true, Option.isSome_eq_false_iff, Option.isNone_iff_eq_none] at hquote
      subst hquote
      split at hscan
      · cases hscan
      · rename_i s' hend
        split at hscan
        · cases hscan
        · cases hscan
          exact ⟨s, s', h, hend, rfl⟩
  | cons c rest ih =>
    cases copying with
    | succ copying =>
      obtain ⟨rfl, hrest⟩ := hcopying (Nat.succ_pos _)
      rw [List.take_succ_cons, List.forall_mem_cons] at hrest
      obtain ⟨⟨hplain, hnotQuote⟩, hrest⟩ := hrest
      have hnext := hpush h fun _ => .inr (.inr hplain)
      rw [show scanQuote none c = none from if_neg hnotQuote] at hnext
      exact ih hnext (fun _ => ⟨rfl, hrest⟩) hscan
    | zero =>
      cases quote with
      | some q =>
        have hnext := hpush h fun hnone => absurd hnone (Option.some_ne_none q)
        exact ih hnext (fun hpos => absurd hpos (Nat.lt_irrefl 0)) hscan
      | none =>
        unfold scanFrom at hscan
        split at hscan
        · -- a quote opens
          rename_i hc
          have hnext := hpush h fun _ => hc.elim .inl fun hq => .inr (.inl hq)
          rw [show scanQuote none c = some c from if_pos hc] at hnext
          exact ih hnext (fun hpos => absurd hpos (Nat.lt_irrefl 0)) hscan
        · rename_i hnotQuote
          have hnone : scanQuote none c = none := if_neg hnotQuote
          split at hscan
          · cases hscan
          · split at hscan
            · -- a braced variable travels whole
              split at hscan
              · cases hscan
              · rename_i name after hbraced
                obtain ⟨heq, -, hword⟩ := bracedVariable_spec hbraced
                obtain ⟨rfl, hrest⟩ := List.cons_eq_cons.1 heq
                have hnext := hpush h fun _ => .inr (.inr (by decide))
                rw [hnone] at hnext
                refine ih hnext (fun _ => ⟨rfl, ?_⟩) hscan
                have htake : rest.take (name.length + 2) = '{' :: (name ++ ['}']) := by
                  rw [hrest, List.take_succ_cons, List.take_append,
                    List.take_of_length_le (by omega), Nat.add_sub_cancel_left]
                  rfl
                rw [htake, List.forall_mem_cons, List.forall_mem_append, List.forall_mem_singleton]
                refine ⟨by decide, fun x hx => ?_, by decide⟩
                have hinert : isInert x = true := isInert_of_isWord (hword x hx)
                exact ⟨isPlain_of_inert hinert, not_quote_of_inert hinert⟩
            · split at hscan
              · cases hscan
              · rename_i hrefused
                split at hscan
                · rename_i hsemi
                  subst hsemi
                  split at hscan
                  · cases hscan
                  · rename_i s' hend
                    exact ih (hsemicolon h hend) (fun hpos => absurd hpos (Nat.lt_irrefl 0)) hscan
                · rename_i hsemi
                  split at hscan
                  · rename_i hisBlank
                    have hline : c ≠ '\n' := by
                      rintro rfl
                      cases hrefused
                    split at hscan
                    · cases hscan
                    · rename_i s' hend
                      exact ih (hblank hisBlank hline hnotQuote h hend)
                        (fun hpos => absurd hpos (Nat.lt_irrefl 0)) hscan
                  · rename_i hnotBlank
                    have hnext := hpush h fun _ =>
                      .inr (.inr (isPlain_of_not_refused hrefused hsemi hnotBlank))
                    rw [hnone] at hnext
                    exact ih hnext (fun hpos => absurd hpos (Nat.lt_irrefl 0)) hscan

/-- The scan after `consumed`, of a text that the shell reads alike. -/
def ScanningOf (u : UnicodeTable) (source d : ShellDialect) (cmd rest : Text) (quote : Option Char)
    (s : ScanState) : Prop :=
  ∃ consumed, cmd = consumed ++ rest ∧ Scanning u source d consumed quote s

variable {cmd rest : Text}

theorem ScanningOf.push {c : Char} (halike : ReadAlike d cmd)
    (h : ScanningOf u source d cmd (c :: rest) quote s)
    (hplain : quote = none → c = '"' ∨ c = '\'' ∨ isPlain c = true) :
    ScanningOf u source d cmd rest (scanQuote quote c) (s.push c) := by
  obtain ⟨consumed, rfl, hscanning⟩ := h
  refine ⟨consumed ++ [c], by simp, hscanning.push (halike.of_prefix ?_) hplain⟩
  exact ⟨rest, by rw [List.append_assoc, List.singleton_append]⟩

theorem ScanningOf.blank {c : Char} {s' : ScanState} (halike : ReadAlike d cmd)
    (hc : ¬ (c = '"' ∨ c = '\'')) (h : ScanningOf u source d cmd (c :: rest) none s)
    (hend : s.endToken u source = .ok s') : ScanningOf u source d cmd rest none s' := by
  obtain ⟨consumed, rfl, hscanning⟩ := h
  obtain ⟨htoken, hsegments, htokens⟩ := hscanning.endToken hend
  refine ⟨consumed ++ [c], by simp, hscanning.boundary (halike.of_prefix ?_) hc
    htoken htokens ?_⟩
  · exact ⟨rest, by rw [List.append_assoc, List.singleton_append]⟩
  · rw [hsegments]
    exact hscanning.segments

theorem ScanningOf.semicolon {s' : ScanState} (halike : ReadAlike d cmd)
    (h : ScanningOf u source d cmd (';' :: rest) none s) (hend : s.endToken u source = .ok s') :
    ScanningOf u source d cmd rest none s'.endSegment := by
  obtain ⟨consumed, rfl, hscanning⟩ := h
  obtain ⟨htoken, hsegments, htokens⟩ := hscanning.endToken hend
  refine ⟨consumed ++ [';'], by simp, hscanning.boundary (halike.of_prefix ?_)
    (by decide) ?_ ?_ (scannedSegments_endSegment htokens ?_)⟩
  · exact ⟨rest, by rw [List.append_assoc, List.singleton_append]⟩
  · rw [endSegment_token, htoken]
  · rw [endSegment_tokens]
    exact fun t ht => absurd ht List.not_mem_nil
  · rw [hsegments]
    exact hscanning.segments

/-! ## The variables of a token -/

def Piece.written : Piece → Text
  | .char c => [c]
  | .reference _ group _ => group

/-- A piece that the rewriting has read. -/
def Piece.WellFormed : Piece → Prop
  | .char c => c ≠ '$'
  | .reference name group _ => IsReference name ∧ ∃ body, group = '$' :: body ∧ IsReference body

theorem isReference_of_isWord {name : Text} (hne : name ≠ [])
    (h : ∀ c ∈ name, u.isWord c = true) : IsReference name where
  ne_nil := hne
  inert c hc := by
    refine ⟨isInert_of_isWord (h c hc), ?_⟩
    rintro rfl
    have hdollar := h '$' hc
    rw [u.isWord_ascii '$' (by decide)] at hdollar
    cases hdollar
  no_at hc := by
    have hat := h '@' hc
    rw [u.isWord_ascii '@' (by decide)] at hat
    cases hat

theorem isAlphanum_of_toLower {c x : Char} (hx : x ∈ ['e', 'n', 'v']) (h : c.toLower = x) :
    c.isAlphanum = true := by
  unfold Char.toLower at h
  split at h
  · rename_i hupper
    have hisUpper : c.isUpper = true := decide_eq_true hupper
    have hisAlpha : c.isAlpha = true := Bool.or_eq_true_iff.2 (.inl hisUpper)
    exact Bool.or_eq_true_iff.2 (.inl hisAlpha)
  · rw [h]
    exact List.all_eq_true.1 (by decide : ['e', 'n', 'v'].all Char.isAlphanum = true) x hx

theorem inert_of_isAlphanum (u : UnicodeTable) {c : Char} (h : c.isAlphanum = true) :
    isInert c = true ∧ c ≠ '$' := by
  have hword : u.isWord c = true := by
    rw [u.isWord_ascii c (by have := isAlphanum_bounds h; omega), h, Bool.true_or]
  refine ⟨isInert_of_isWord hword, ?_⟩
  rintro rfl
  cases h

theorem variableAt_spec {text name group after : Text}
    (h : variableAt u source text = some (name, group, after)) :
    text = group ++ after ∧ Piece.WellFormed (.reference name group after.head?) := by
  unfold variableAt at h
  split at h
  · split at h
    · rename_i name' after' hbraced
      obtain ⟨htext, hne, hword⟩ := bracedVariable_spec hbraced
      cases h
      have hname := isReference_of_isWord hne hword
      refine ⟨by rw [htext]; simp, hname, '{' :: (name ++ ['}']), rfl, List.cons_ne_nil _ _, ?_, ?_⟩
      · rw [List.forall_mem_cons, List.forall_mem_append, List.forall_mem_singleton]
        exact ⟨by decide, hname.inert, by decide⟩
      · simp [hname.no_at]
    · split at h
      · rename_i rest
        rw [Option.map_eq_some_iff] at h
        obtain ⟨⟨name', after'⟩, hname', heq⟩ := h
        obtain ⟨htext, hne, hword⟩ := nameAt_spec hname'
        cases heq
        have hname := isReference_of_isWord hne hword
        exact ⟨by rw [htext]; rfl, hname, name, rfl, hname⟩
      · cases h
  · split at h
    · rename_i e n v rest
      split at h
      · rename_i henv
        rw [Option.map_eq_some_iff] at h
        obtain ⟨⟨name', after'⟩, hname', heq⟩ := h
        obtain ⟨htext, hne, hword⟩ := nameAt_spec hname'
        cases heq
        have hname := isReference_of_isWord hne hword
        rw [List.map_cons, List.map_cons, List.map_singleton, List.cons.injEq, List.cons.injEq,
          List.cons.injEq] at henv
        obtain ⟨he, hn, hv, -⟩ := henv
        have hat : '@' ∉ [e, n, v, ':'] := by
          simp only [List.mem_cons, List.not_mem_nil, or_false]
          rintro (rfl | rfl | rfl | hcolon)
          · exact absurd he (by decide)
          · exact absurd hn (by decide)
          · exact absurd hv (by decide)
          · exact absurd hcolon (by decide)
        refine ⟨by rw [htext]; rfl, hname, [e, n, v, ':'] ++ name, rfl, hname.append_left ?_ hat⟩
        simp only [List.forall_mem_cons]
        exact ⟨inert_of_isAlphanum u (isAlphanum_of_toLower (by decide) he),
          inert_of_isAlphanum u (isAlphanum_of_toLower (by decide) hn),
          inert_of_isAlphanum u (isAlphanum_of_toLower (by decide) hv), by decide,
          fun x hx => absurd hx List.not_mem_nil⟩
      · cases h
    · cases h

theorem pieces_source {fuel : Nat} {text : Text} (h : text.length ≤ fuel) :
    (pieces u source fuel text).flatMap Piece.written = text := by
  induction fuel generalizing text with
  | zero =>
    rw [List.eq_nil_of_length_eq_zero (Nat.le_zero.1 h)]
    rfl
  | succ fuel ih =>
    cases text with
    | nil => rfl
    | cons c rest =>
      unfold pieces
      split
      · rename_i name group after hvariable
        obtain ⟨htext, -, body, hgroup, -⟩ := variableAt_spec hvariable
        have hlength := congrArg List.length htext
        rw [hgroup, List.length_append, List.length_cons, List.length_cons] at hlength
        rw [List.length_cons] at h
        rw [List.flatMap_cons, ih (by omega)]
        exact htext.symm
      · rw [List.flatMap_cons, ih (by rw [List.length_cons] at h; omega)]
        rfl

theorem pieces_variable {fuel : Nat} {text : Text} :
    ∀ p ∈ pieces u source fuel text, p.isVariable = true → p.WellFormed := by
  induction fuel generalizing text with
  | zero => exact fun p hp => absurd hp List.not_mem_nil
  | succ fuel ih =>
    cases text with
    | nil => exact fun p hp => absurd hp List.not_mem_nil
    | cons c rest =>
      unfold pieces
      split
      · rename_i name group after hvariable
        rw [List.forall_mem_cons]
        exact ⟨fun _ => (variableAt_spec hvariable).2, ih⟩
      · rw [List.forall_mem_cons]
        exact ⟨fun hvariable => absurd hvariable Bool.false_ne_true, ih⟩

theorem count_reference {body : Text} (h : IsReference body) : ('$' :: body).count '$' = 1 := by
  rw [List.count_cons_self, List.count_eq_zero.2 fun hmem => (h.inert '$' hmem).2 rfl]

/-- Every `$` belongs to a variable when there are as many variables. -/
theorem wellFormed_of_count {ps : List Piece}
    (hvariable : ∀ p ∈ ps, p.isVariable = true → p.WellFormed) :
    ps.countP Piece.isVariable ≤ (ps.flatMap Piece.written).count '$' ∧
      (ps.countP Piece.isVariable = (ps.flatMap Piece.written).count '$' →
        ∀ p ∈ ps, p.WellFormed) := by
  induction ps with
  | nil => exact ⟨le_rfl, fun _ p hp => absurd hp List.not_mem_nil⟩
  | cons p ps ih =>
    obtain ⟨hp, hps⟩ := List.forall_mem_cons.1 hvariable
    obtain ⟨hle, hall⟩ := ih hps
    rw [List.flatMap_cons, List.count_append, List.forall_mem_cons]
    cases p with
    | char c =>
      rw [List.countP_cons_of_neg Bool.false_ne_true]
      refine ⟨hle.trans (Nat.le_add_left _ _), fun heq => ⟨?_, hall ?_⟩⟩
      · rintro rfl
        have hone : (Piece.char '$').written.count '$' = 1 := rfl
        omega
      · omega
    | reference name group next =>
      obtain ⟨hname, body, rfl, hbody⟩ := hp rfl
      have hone : (Piece.reference name ('$' :: body) next).written.count '$' = 1 :=
        count_reference hbody
      rw [List.countP_cons_of_pos rfl, hone]
      exact ⟨by omega, fun heq => ⟨⟨hname, body, rfl, hbody⟩, hall (by omega)⟩⟩

/-! ## The target reads a rewritten token -/

theorem inToken_of_agrees {q : Quoting} {quote : Option Char} (h : q.agrees quote = true) :
    q.afterEscape.InToken := by
  cases q with
  | bare => exact .inl rfl
  | single => exact .inr (.inl rfl)
  | double | doubleEscaped => exact .inr (.inr rfl)
  | bareEscaped | comment | construct | hereString => cases quote <;> cases h

theorem quote_of_agrees {q : Quoting} {quote : Option Char} (h : q.agrees quote = true) :
    ∀ c ∈ quote, c = '"' ∨ c = '\'' := by
  rintro c rfl
  cases q with
  | single => exact .inr (by simpa [Quoting.agrees] using h)
  | double | doubleEscaped => exact .inl (by simpa [Quoting.agrees] using h)
  | bare | bareEscaped | comment | construct | hereString => cases h

/-- A character that the target and the scan read alike. -/
theorem step_agrees {r : Reading} {quote : Option Char} {c : Char}
    (h : r.quoting.agrees quote = true) (hdollar : r.dollar = false) (hc : c ≠ '$')
    (hnext : (d.quoteStep r.quoting c).agrees (scanQuote quote c) = true)
    (hhere : d.opensHereString r.word = true → quote = none → ¬ (c = '"' ∨ c = '\''))
    (hplain : quote = none → c = '"' ∨ c = '\'' ∨ isPlain c = true) :
    Reading.step d r c = r.push (d.quoteStep r.quoting c) c false := by
  cases hquoting : r.quoting with
  | bare =>
    rw [hquoting] at h hnext
    obtain rfl : quote = none := beq_iff_eq.1 h
    by_cases hquote : d.quoteStep .bare c = .bare
    · have hnot : ¬ (c = '"' ∨ c = '\'') := by
        rintro (rfl | rfl)
        · cases d <;> cases hquote
        · cases d <;> cases hquote
      rw [hquote]
      refine Reading.step_plain hquoting hquote ?_
      obtain h | h | h := hplain rfl
      · exact absurd (.inl h) hnot
      · exact absurd (.inr h) hnot
      · exact h
    · have hc : c = '"' ∨ c = '\'' := by
        by_contra hnot
        rw [scanQuote, if_neg hnot, agrees_none] at hnext
        exact hquote hnext
      refine Reading.step_quote hquoting hquote ?_
      rw [← Bool.not_eq_true]
      exact fun hopens => hhere hopens rfl hc
  | single =>
    rw [← hquoting]
    exact Reading.step_quoted (.inl hquoting) (.inl hdollar) hc
  | double =>
    rw [← hquoting]
    exact Reading.step_quoted (.inr (.inl hquoting)) (.inl hdollar) hc
  | doubleEscaped =>
    rw [← hquoting]
    exact Reading.step_quoted (.inr (.inr hquoting)) (.inl hdollar) hc
  | bareEscaped | comment | construct | hereString =>
    rw [hquoting] at h
    cases quote <;> cases h

/-- The name of a reference as the target writes it. -/
theorem render_reference (source : ShellDialect) {name group : Text} {next : Option Char}
    (h : IsReference name) :
    ∃ body, (Piece.reference name group next).render source = '$' :: body ∧ IsReference body := by
  by_cases hposix : source = .posix
  · have henv : ['e', 'n', 'v', ':'].all (fun c => isInert c && c != '$') = true := by decide
    refine ⟨['e', 'n', 'v', ':'] ++ name, if_pos hposix,
      h.append_left (fun c hc => ?_) (by decide)⟩
    have hinert := List.all_eq_true.1 henv c hc
    rw [Bool.and_eq_true, bne_iff_ne] at hinert
    exact hinert
  · exact ⟨name, if_neg hposix, h⟩

/-- A writing of pieces that keeps their characters, and writes a variable as a reference. -/
structure IsWriting (w : Piece → Text) : Prop where
  char : ∀ c, w (.char c) = [c]
  reference : ∀ {name group next}, Piece.WellFormed (.reference name group next) →
    ∃ body, w (.reference name group next) = '$' :: body ∧ IsReference body

theorem isWriting_render (source : ShellDialect) : IsWriting (Piece.render source) where
  char _ := rfl
  reference h := render_reference source h.1

theorem isWriting_written : IsWriting Piece.written where
  char _ := rfl
  reference h := h.2

/-- Over the pieces of a token a shell goes through the quotes that it goes through over the text
that they are written as. -/
theorem run_pieces {w : Piece → Text} (hw : IsWriting w) {ps : List Piece} {r : Reading}
    {quote : Option Char} (hps : ∀ p ∈ ps, p.WellFormed) (hdollar : r.dollar = false)
    (halike : ∀ p, p <+: ps.flatMap Piece.written →
      (p.foldl d.quoteStep r.quoting).agrees (p.foldl scanQuote quote) = true)
    (hnone : d = .powershell → ∀ p c, p ++ ['@', c] <+: ps.flatMap Piece.written →
      p.foldl scanQuote quote = none → ¬ (c = '"' ∨ c = '\''))
    (hfirst : d.opensHereString r.word = true → ∀ c, [c] <+: ps.flatMap Piece.written →
      quote = none → ¬ (c = '"' ∨ c = '\''))
    (hplain : ∀ p c, p ++ [c] <+: ps.flatMap Piece.written → p.foldl scanQuote quote = none →
      c = '"' ∨ c = '\'' ∨ isPlain c = true) :
    Reading.run d r (ps.flatMap w) =
      { r with quoting := (ps.flatMap Piece.written).foldl d.quoteStep r.quoting,
               word := r.word ++ ps.flatMap w } := by
  induction ps generalizing r quote with
  | nil =>
    rw [List.flatMap_nil, Reading.run_nil, List.append_nil]
    rfl
  | cons p ps ih =>
    obtain ⟨hp, hrest⟩ := List.forall_mem_cons.1 hps
    rw [List.flatMap_cons] at halike hnone hfirst hplain
    have hnow : r.quoting.agrees quote = true := halike [] List.nil_prefix
    let next : Reading :=
      { r with quoting := p.written.foldl d.quoteStep r.quoting, word := r.word ++ w p }
    have hnext : Reading.run d r (w p) = next := by
      cases p with
      | char c =>
        have hstep : Reading.step d r c = r.push (d.quoteStep r.quoting c) c false :=
          step_agrees hnow hdollar hp (halike [c] (List.prefix_append _ _))
            (fun hopens => hfirst hopens c (List.prefix_append _ _)) (hplain [] c (List.prefix_append _ _))
        rw [hw.char, Reading.run_cons, hstep, Reading.run_nil]
        unfold Reading.push
        simp only [next, hdollar, hw.char]
        rfl
      | reference name group after =>
        obtain ⟨rendered, hrender, hrendered⟩ := hw.reference hp
        obtain ⟨-, body, hgroup, hbody⟩ := hp
        have hin := inToken_of_agrees hnow
        rw [hrender, run_reference hin hrendered, ← foldl_reference hin hbody, ← hgroup, ← hrender]
        simp only [next, hdollar]
        rfl
    have hih := @ih next (p.written.foldl scanQuote quote) hrest hdollar ?_ ?_ ?_ ?_
    · rw [List.flatMap_cons, List.flatMap_cons, Reading.run_append, hnext, hih, List.foldl_append,
        List.append_assoc]
    · intro q hq
      have hwhole := halike (p.written ++ q) ((List.prefix_append_right_inj _).2 hq)
      rwa [List.foldl_append, List.foldl_append] at hwhole
    · intro hd q c hq hclosed
      refine hnone hd (p.written ++ q) c ?_ (by rwa [List.foldl_append])
      rw [List.append_assoc]
      exact (List.prefix_append_right_inj _).2 hq
    · intro hopens c hc hclosed
      unfold ShellDialect.opensHereString at hopens
      rw [Bool.and_eq_true, beq_iff_eq, beq_iff_eq] at hopens
      obtain ⟨hd, hlast⟩ := hopens
      cases p with
      | char x =>
        have hx : x = '@' := by
          have hword : (r.word ++ w (.char x)).getLast? = some '@' := hlast
          rw [hw.char, List.getLast?_concat] at hword
          exact Option.some.inj hword
        subst hx
        refine hnone hd [] c ?_ ?_
        · exact (List.prefix_append_right_inj ['@']).2 hc
        · have hquote : scanQuote quote '@' = none := hclosed
          cases hopen : quote with
          | none => rfl
          | some q =>
            rw [hopen] at hquote hnow
            obtain rfl | rfl := quote_of_agrees hnow q rfl <;> cases hquote
      | reference name group after =>
        obtain ⟨body, hrender, hbody⟩ := hw.reference hp
        have hword : (r.word ++ '$' :: body).getLast? = some '@' := hrender ▸ hlast
        rw [List.getLast?_append_of_ne_nil _ (List.cons_ne_nil _ _), List.getLast?_cons,
          List.getLast?_eq_some_getLast hbody.ne_nil] at hword
        have hat : '@' ∈ body := by
          rw [← Option.some.inj hword]
          exact List.getLast_mem hbody.ne_nil
        exact absurd hat hbody.no_at
    · intro q c hq hclosed
      refine hplain (p.written ++ q) c ?_ (by rwa [List.foldl_append])
      rw [List.append_assoc]
      exact (List.prefix_append_right_inj _).2 hq

theorem written_ne_nil {w : Piece → Text} (hw : IsWriting w) {ps : List Piece}
    (hps : ∀ p ∈ ps, p.WellFormed) :
    ps.flatMap w = [] → ps.flatMap Piece.written = [] := by
  cases ps with
  | nil => exact fun _ => rfl
  | cons p ps =>
    intro hnil
    rw [List.flatMap_cons, List.append_eq_nil_iff] at hnil
    cases p with
    | char c =>
      rw [hw.char] at hnil
      cases hnil.1
    | reference name group next =>
      obtain ⟨body, hrender, -⟩ := hw.reference (hps _ List.mem_cons_self)
      rw [hrender] at hnil
      cases hnil.1

/-- A token that is rewritten piece by piece is a word. -/
theorem isWord_of_pieces {w : Piece → Text} (hw : IsWriting w) {ps : List Piece} {raw : Text}
    (hps : ∀ p ∈ ps, p.WellFormed)
    (hraw : ps.flatMap Piece.written = raw) (hne : raw ≠ []) (h : RawToken d raw)
    (hclosed : raw.foldl scanQuote none = none) : IsWord d (ps.flatMap w) where
  ne_nil hnil := hne (hraw.symm.trans (written_ne_nil hw hps hnil))
  reads r hbare hdollar hword := by
    subst hraw
    have hend : (ps.flatMap Piece.written).foldl d.quoteStep .bare = .bare := by
      have hagrees := h.alike.quotes _ (List.prefix_refl _)
      rwa [hclosed, agrees_none] at hagrees
    have hfirst : d.opensHereString r.word = false := by
      rw [hword]
      exact Bool.and_false _
    have hrun := @run_pieces d w hw ps r none hps hdollar (by rw [hbare]; exact h.alike.quotes)
      h.alike.no_here_string (fun hopens => absurd (hfirst.symm.trans hopens) (by decide)) h.plain
    rw [hrun, hbare, hend, hword, List.nil_append]

theorem ScannedToken.isWord {token : Text} (h : ScannedToken u source d token) :
    IsWord d token := by
  obtain ⟨raw, changed, hne, hraw, hclosed, hrewrite⟩ := h.exists_raw
  unfold rewriteVariables at hrewrite
  split at hrewrite
  · rename_i hdollar
    cases hrewrite
    have hrender : (token.map Piece.char).flatMap (Piece.render source) = token := by
      rw [List.flatMap_map]
      exact List.flatMap_singleton' token
    have hwritten : (token.map Piece.char).flatMap Piece.written = token := by
      rw [List.flatMap_map]
      exact List.flatMap_singleton' token
    rw [← hrender]
    refine isWord_of_pieces (isWriting_render source) ?_ hwritten hne hraw hclosed
    rw [List.forall_mem_map]
    rintro c hc rfl
    exact hdollar hc
  · dsimp only at hrewrite
    split at hrewrite
    · cases hrewrite
    · rename_i hcount
      split at hrewrite
      · cases hrewrite
      · cases hrewrite
        have hwritten : (pieces u source raw.length raw).flatMap Piece.written = raw :=
          pieces_source le_rfl
        refine isWord_of_pieces (isWriting_render source)
          ((wellFormed_of_count pieces_variable).2 ?_) hwritten hne hraw hclosed
        rw [hwritten]
        exact not_not.1 hcount

/-! ## The rules -/

theorem isWord_of_inert {text : Text} (hne : text ≠ []) (h : ∀ c ∈ text, isInert c = true) :
    IsWord d text := (reads_of_inert h).isWord hne

theorem isWord_toString (n : Nat) : IsWord d (toString n).toList := by
  have hdigits : (toString n).toList = Nat.toDigits 10 n := String.toList_ofList
  rw [hdigits]
  refine isWord_of_inert Nat.toDigits_ne_nil fun c hc => ?_
  have hdigit : c.isDigit = true := Nat.isDigit_of_mem_toDigits (by decide) (by decide) hc
  have halnum : c.isAlphanum = true := Bool.or_eq_true_iff.2 (.inr hdigit)
  exact (inert_of_isAlphanum superscripts halnum).1

/-- What a rule makes of a simple command: a program of the target side, and arguments that are
operands of the command or words of the rule. -/
structure Emits (d : ShellDialect) (segment out : List Text) : Prop where
  exists_args : ∃ name ∈ targetPrograms d, ∃ args, out = name.toList :: args ∧
    ∀ a ∈ args, a ∈ segment ∨ IsWord d a

/-- The words that the rules bring themselves. -/
def ruleWords : List String :=
  ["Get-ChildItem", "-Force", "Env:", "Get-Content", "-TotalCount", "-Tail", "Get-Location",
    "Write-Output", "Get-Command", "env", "ls", "-a", "head", "tail", "-n", "cat", "pwd", "echo",
    "command", "-v"]

theorem isWord_literal : ∀ name ∈ ruleWords, IsWord d name.toList := by
  have hinert : ruleWords.all
      (fun name => name.toList != [] && name.toList.all isInert) = true := by decide
  intro name hname
  have hword := List.all_eq_true.1 hinert name hname
  rw [Bool.and_eq_true, bne_iff_ne, List.all_eq_true] at hword
  exact isWord_of_inert hword.1 hword.2

theorem mem_of_singleOperand {tokens : List Text} {operand : Text}
    (h : singleOperand tokens = some operand) : operand ∈ tokens := by
  unfold singleOperand at h
  split at h
  · rename_i x htail
    split at h
    · cases h
    · cases h
      exact List.mem_of_mem_tail (by rw [htail]; exact List.mem_singleton_self _)
  · cases h

theorem mem_posixListArguments {force force' : Bool} {paths paths' tokens : List Text}
    (h : posixListArguments force paths tokens = some (force', paths')) :
    ∀ p ∈ paths', p ∈ paths ∨ p ∈ tokens := by
  induction tokens generalizing force paths with
  | nil =>
    cases h
    exact fun p hp => .inl hp
  | cons token rest ih =>
    unfold posixListArguments at h
    split at h
    · dsimp only at h
      split at h
      · cases h
      · exact fun p hp => (ih h p hp).imp_right (List.mem_cons_of_mem _)
    · intro p hp
      obtain hp | hp := ih h p hp
      · obtain hp | hp := List.mem_append.1 hp
        · exact .inl hp
        · rw [List.mem_singleton.1 hp]
          exact .inr List.mem_cons_self
      · exact .inr (List.mem_cons_of_mem _ hp)

theorem mem_powershellListArguments {force force' : Bool} {paths paths' tokens : List Text}
    (h : powershellListArguments u force paths tokens = some (force', paths')) :
    ∀ p ∈ paths', p ∈ paths ∨ p ∈ tokens := by
  induction tokens generalizing force paths with
  | nil =>
    cases h
    exact fun p hp => .inl hp
  | cons token rest ih =>
    unfold powershellListArguments at h
    split at h
    · exact fun p hp => (ih h p hp).imp_right (List.mem_cons_of_mem _)
    · split at h
      · cases h
      · intro p hp
        obtain hp | hp := ih h p hp
        · obtain hp | hp := List.mem_append.1 hp
          · exact .inl hp
          · rw [List.mem_singleton.1 hp]
            exact .inr List.mem_cons_self
        · exact .inr (List.mem_cons_of_mem _ hp)

variable {int : Text → Except Exc Nat}

theorem mem_linesAndFile {count n : Nat} {file : Option Text} {tokens : List Text} {f : Text}
    (h : linesAndFile u int count file tokens = .ok (some (n, f))) :
    file = some f ∨ f ∈ tokens := by
  fun_induction lineCounts u file tokens generalizing count with
  | case1 file =>
    cases file with
    | none => cases h
    | some file =>
      cases h
      exact .inl rfl
  | case3 file token rest hdash digits hline ih =>
    unfold linesAndFile at h
    simp only [hdash, hline, if_true] at h
    cases hn : int digits <;> simp only [hn, reduceCtorEq] at h
    exact (ih h).imp_right (List.mem_cons_of_mem _)
  | case5 file token hdash hline digits rest hdigit ih =>
    unfold linesAndFile at h
    simp only [hdash, hline, hdigit, if_true] at h
    cases hn : int digits <;> simp only [hn, reduceCtorEq] at h
    exact (ih h).imp_right fun hf => List.mem_cons_of_mem _ (List.mem_cons_of_mem _ hf)
  | case7 token rest hdash ih =>
    unfold linesAndFile at h
    simp only [hdash] at h
    obtain heq | hf := ih h
    · cases heq
      exact .inr List.mem_cons_self
    · exact .inr (List.mem_cons_of_mem _ hf)
  -- the loop answers nothing
  | _ =>
    unfold linesAndFile at h
    simp_all

theorem mem_getContentArguments {count n : Nat} {file : Option Text}
    {mode mode' : Option ContentMode} {tokens : List Text} {f : Text}
    (h : getContentArguments u int file mode count tokens = .ok (some (f, mode', n))) :
    file = some f ∨ f ∈ tokens := by
  fun_induction contentCounts u file mode tokens generalizing count with
  | case1 file =>
    cases file with
    | none => cases h
    | some file =>
      cases h
      exact .inl rfl
  | case2 file token asked hasked digits rest hdigit ih =>
    unfold getContentArguments at h
    simp only [hasked, hdigit, if_true] at h
    cases hn : int digits <;> simp only [hn, reduceCtorEq] at h
    exact (ih h).imp_right fun hf => List.mem_cons_of_mem _ (List.mem_cons_of_mem _ hf)
  | case4 file mode token rest asked hasked hother =>
    unfold getContentArguments at h
    simp only [hasked] at h
    cases h
  | case6 mode token rest hasked hdash ih =>
    unfold getContentArguments at h
    simp only [hasked, hdash] at h
    obtain heq | hf := ih h
    · cases heq
      exact .inr List.mem_cons_self
    · exact .inr (List.mem_cons_of_mem _ hf)
  | _ =>
    unfold getContentArguments at h
    simp_all

variable {segment : List Text}

/-- The command of a rule, with its arguments one by one. -/
theorem emits_of {name : String} {args : List Text} (hname : name ∈ targetPrograms d)
    (hargs : ∀ a ∈ args, a ∈ segment ∨ IsWord d a) : Emits d segment (name.toList :: args) :=
  ⟨⟨name, hname, args, rfl, hargs⟩⟩

theorem literal {name : String} (h : name ∈ ruleWords) :
    name.toList ∈ segment ∨ IsWord d name.toList := .inr (isWord_literal name h)

theorem emits_nil {name : String} (hname : name ∈ targetPrograms d) :
    Emits d segment [name.toList] := emits_of hname fun _ ha => absurd ha List.not_mem_nil

theorem emits_singleOperand {name : String} {out : List Text} (hname : name ∈ targetPrograms d)
    (h : (singleOperand segment).map (fun operand => [name.toList, operand]) = some out) :
    Emits d segment out := by
  obtain ⟨operand, hoperand, rfl⟩ := Option.map_eq_some_iff.1 h
  refine emits_of hname ?_
  rw [List.forall_mem_singleton]
  exact .inl (mem_of_singleOperand hoperand)

theorem posixListDirectory_emits {out : List Text} (h : posixListDirectory segment = some out) :
    Emits .powershell segment out := by
  unfold posixListDirectory at h
  split at h
  · cases h
  · rename_i force paths hpaths
    split at h
    · cases h
    · cases h
      refine emits_of (by decide) (List.forall_mem_append.2 ⟨?_, fun p hp => ?_⟩)
      · split
        · rw [List.forall_mem_singleton]
          exact literal (by decide)
        · exact fun a ha => absurd ha List.not_mem_nil
      · obtain hp | hp := mem_posixListArguments hpaths p hp
        · exact absurd hp List.not_mem_nil
        · exact .inl (List.mem_of_mem_tail hp)

theorem posixLines_emits {option : String} {out : List Text}
    (hoption : option ∈ ["-TotalCount", "-Tail"])
    (h : posixLines u int option segment = .ok (some out)) : Emits .powershell segment out := by
  unfold posixLines at h
  split at h
  · cases h
  · rename_i parsed hparsed
    rw [Except.ok.injEq, Option.map_eq_some_iff] at h
    obtain ⟨⟨count, file⟩, rfl, rfl⟩ := h
    refine emits_of (by decide) ?_
    simp only [List.forall_mem_cons]
    refine ⟨?_, ?_, .inr (isWord_toString count), fun a ha => absurd ha List.not_mem_nil⟩
    · obtain hnone | hmem := mem_linesAndFile hparsed
      · cases hnone
      · exact .inl (List.mem_of_mem_tail hmem)
    · exact literal
        ((by decide : ∀ o ∈ ["-TotalCount", "-Tail"], o ∈ ruleWords) option hoption)

theorem posixRules_emit : ∀ rule ∈ posixToPowershell u int, ∀ out,
    rule.apply segment = .ok (some out) → Emits .powershell segment out := by
  unfold posixToPowershell
  simp only [List.forall_mem_cons]
  refine ⟨?env, ?ls, fun out h => posixLines_emits (by decide) h,
    fun out h => posixLines_emits (by decide) h, ?cat, ?pwd, ?echo, ?which,
    fun rule hmem => absurd hmem List.not_mem_nil⟩
  case env =>
    intro out h
    rw [Except.ok.injEq] at h
    unfold posixEnv at h
    split at h
    · cases h
      refine emits_of (by decide) ?_
      rw [List.forall_mem_singleton]
      exact literal (by decide)
    · cases h
  case ls => exact fun out h => posixListDirectory_emits (Except.ok.inj h)
  case cat => exact fun out h => emits_singleOperand (by decide) (Except.ok.inj h)
  case echo => exact fun out h => emits_singleOperand (by decide) (Except.ok.inj h)
  case which => exact fun out h => emits_singleOperand (by decide) (Except.ok.inj h)
  case pwd =>
    intro out h
    rw [Except.ok.injEq] at h
    unfold posixPwd at h
    split at h
    · cases h
      exact emits_nil (by decide)
    · cases h

theorem mem_of_powershellOperands {operand : Text}
    (h : powershellOperands segment = some [operand]) : operand ∈ segment := by
  unfold powershellOperands at h
  split at h
  · cases h
  · rw [Option.some.injEq] at h
    exact List.mem_of_mem_tail (by rw [h]; exact List.mem_singleton_self _)

theorem powershellListDirectory_emits {out : List Text}
    (h : powershellListDirectory u segment = some out) : Emits .posix segment out := by
  unfold powershellListDirectory at h
  split at h
  · cases h
  · rename_i force paths hpaths
    split at h
    · cases h
    · cases h
      refine emits_of (by decide) (List.forall_mem_append.2 ⟨?_, fun p hp => ?_⟩)
      · split
        · rw [List.forall_mem_singleton]
          exact literal (by decide)
        · exact fun a ha => absurd ha List.not_mem_nil
      · obtain hp | hp := mem_powershellListArguments hpaths p hp
        · exact absurd hp List.not_mem_nil
        · exact .inl (List.mem_of_mem_tail hp)

theorem mem_of_powershellGetContent {file : Text} {mode : Option ContentMode} {count : Nat}
    (h : powershellGetContent u int segment = .ok (some (file, mode, count))) : file ∈ segment := by
  obtain hnone | hmem := mem_getContentArguments h
  · cases hnone
  · exact List.mem_of_mem_tail hmem

theorem powershellLines_emits {wanted : ContentMode} {program : String} {out : List Text}
    (hprogram : program ∈ targetPrograms .posix)
    (h : powershellLines u int wanted program segment = .ok (some out)) :
    Emits .posix segment out := by
  unfold powershellLines at h
  split at h
  · cases h
  · rename_i file mode count hcontent
    rw [Except.ok.injEq] at h
    split at h
    · cases h
      refine emits_of hprogram ?_
      simp only [List.forall_mem_cons]
      exact ⟨literal (by decide), .inr (isWord_toString count),
        .inl (mem_of_powershellGetContent hcontent), fun a ha => absurd ha List.not_mem_nil⟩
    · cases h
  · cases h

theorem powershellPrintFile_emits {out : List Text}
    (h : powershellPrintFile u int segment = .ok (some out)) : Emits .posix segment out := by
  unfold powershellPrintFile at h
  split at h
  · cases h
  · rename_i file count hcontent
    cases h
    refine emits_of (by decide) ?_
    rw [List.forall_mem_singleton]
    exact .inl (mem_of_powershellGetContent hcontent)
  · cases h

theorem powershellRules_emit : ∀ rule ∈ powershellToPosix u int, ∀ out,
    rule.apply segment = .ok (some out) → Emits .posix segment out := by
  unfold powershellToPosix
  simp only [List.forall_mem_cons]
  refine ⟨?env, ?ls, fun out h => powershellLines_emits (by decide) h,
    fun out h => powershellLines_emits (by decide) h, fun out h => powershellPrintFile_emits h,
    ?pwd, ?echo, ?which, fun rule hmem => absurd hmem List.not_mem_nil⟩
  case env =>
    intro out h
    rw [Except.ok.injEq] at h
    unfold powershellListEnvironment at h
    split at h
    · split at h
      · cases h
        exact emits_nil (by decide)
      · cases h
    · cases h
  case ls => exact fun out h => powershellListDirectory_emits (Except.ok.inj h)
  case pwd =>
    intro out h
    rw [Except.ok.injEq] at h
    unfold powershellPwd at h
    split at h
    · cases h
      exact emits_nil (by decide)
    · cases h
  case echo =>
    intro out h
    rw [Except.ok.injEq] at h
    unfold powershellEcho at h
    split at h
    · rename_i operand hoperand
      cases h
      refine emits_of (by decide) ?_
      rw [List.forall_mem_singleton]
      exact .inl (mem_of_powershellOperands hoperand)
    · cases h
  case which =>
    intro out h
    rw [Except.ok.injEq] at h
    unfold powershellWhich at h
    split at h
    · rename_i operand hoperand
      cases h
      refine emits_of (by decide) ?_
      simp only [List.forall_mem_cons]
      exact ⟨literal (by decide), .inl (mem_of_powershellOperands hoperand),
        fun a ha => absurd ha List.not_mem_nil⟩
    · cases h

theorem rulesFor_emit (hd : d = .posix ∨ d = .powershell) :
    ∀ rule ∈ rulesFor u int (sourceDialectFor d), ∀ out,
      rule.apply segment = .ok (some out) → Emits d segment out := by
  obtain rfl | rfl := hd
  · exact powershellRules_emit
  · exact posixRules_emit

theorem applyRules_emits {program : Text} {claimed rules : List TranslationRule} {out : List Text}
    {ruleId : String}
    (hrules : ∀ rule ∈ rules, ∀ out, rule.apply segment = .ok (some out) → Emits d segment out)
    (h : applyRules program segment claimed rules = .ok (.translated out ruleId)) :
    Emits d segment out := by
  induction rules generalizing claimed with
  | nil => cases h
  | cons rule rules ih =>
    obtain ⟨hrule, hrest⟩ := List.forall_mem_cons.1 hrules
    unfold applyRules at h
    split at h
    · split at h
      · cases h
      · rename_i tokens htokens
        cases h
        exact hrule _ htokens
      · exact ih hrest h
    · exact ih hrest h

theorem translateSegment_emits {out : List Text} {ruleId : String}
    (hd : d = .posix ∨ d = .powershell)
    (h : translateSegment u int (sourceDialectFor d) segment = .ok (.translated out ruleId)) :
    Emits d segment out := by
  unfold translateSegment at h
  dsimp only at h
  split at h
  · cases h
  · split at h
    · cases h
    · exact applyRules_emits (rulesFor_emit hd) h

/-! ## The command line -/

/-- The simple commands of a rewritten command line, one for each of the command line. -/
theorem translateSegments_outs {rewritten result : List Text} {fired fired' : List String}
    {segments : List (List Text)}
    (h : translateSegments u int source rewritten fired segments = .ok (.ok (result, fired'))) :
    ∃ outs : List (List Text), result = rewritten ++ outs.map (List.intercalate [' ']) ∧
      List.Forall₂ (fun segment out => ∃ ruleId,
        translateSegment u int source segment = .ok (.translated out ruleId)) segments outs := by
  induction segments generalizing rewritten fired with
  | nil =>
    cases h
    exact ⟨[], (List.append_nil _).symm, .nil⟩
  | cons segment segments ih =>
    unfold translateSegments at h
    split at h
    · cases h
    · cases h
    · rename_i tokens ruleId hsegment
      obtain ⟨outs, rfl, houts⟩ := ih h
      refine ⟨tokens :: outs, ?_, .cons ⟨ruleId, hsegment⟩ houts⟩
      rw [List.append_assoc, List.map_cons]
      rfl

/-- The rewritten segments are simple commands of the table. -/
theorem outs_emit {segments outs : List (List Text)} (hd : d = .posix ∨ d = .powershell)
    (h : List.Forall₂ (fun segment out => ∃ ruleId,
      translateSegment u int (sourceDialectFor d) segment = .ok (.translated out ruleId))
        segments outs) :
    ∀ out ∈ outs, ∃ segment ∈ segments, Emits d segment out := by
  induction h with
  | nil => exact fun out hout => absurd hout List.not_mem_nil
  | @cons segment out segments outs hsegment _ ih =>
    obtain ⟨ruleId, hsegment⟩ := hsegment
    rw [List.forall_mem_cons]
    refine ⟨⟨segment, List.mem_cons_self, translateSegment_emits hd hsegment⟩, fun out' hout => ?_⟩
    obtain ⟨seg, hseg, hemits⟩ := ih out' hout
    exact ⟨seg, List.mem_cons_of_mem _ hseg, hemits⟩

theorem scanning_start : Scanning u source d [] none {} :=
  ⟨rfl, rfl, rfl, List.suffix_refl _, rawToken_nil, fun _ ht => absurd ht List.not_mem_nil,
    fun _ hseg => absurd hseg List.not_mem_nil⟩

theorem scan_spec {segments : List (List Text)} {hasVariables : Bool}
    (halike : ReadAlike d cmd) (h : scan u source cmd = .ok (segments, hasVariables)) :
    ScannedSegments u source d segments := by
  have hstart : ScanningOf u source d cmd cmd none {} := ⟨[], rfl, scanning_start⟩
  obtain ⟨s, s', ⟨consumed, -, hscanning⟩, hend, rfl⟩ :=
    scanFrom_rule (ScanningOf.push halike) (fun _ _ hc => ScanningOf.blank halike hc)
      (ScanningOf.semicolon halike) hstart (fun hpos => absurd hpos (Nat.lt_irrefl 0)) h
  obtain ⟨-, hsegments, htokens⟩ := hscanning.endToken hend
  refine scannedSegments_endSegment htokens ?_
  rw [hsegments]
  exact hscanning.segments

theorem isWord_targetProgram {name : String} (h : name ∈ targetPrograms d) :
    IsWord d name.toList := by
  have hsub : ∀ d', ∀ n ∈ targetPrograms d', n ∈ ruleWords := by
    intro d'
    cases d' <;> decide
  exact isWord_literal name (hsub d name h)

theorem emitted_words {segments outs : List (List Text)}
    (hsegments : ScannedSegments u source d segments)
    (houts : ∀ out ∈ outs, ∃ segment ∈ segments, Emits d segment out) :
    ∀ out ∈ outs, ∃ name ∈ targetPrograms d, ∃ args, out = name.toList :: args ∧
      ∀ a ∈ args, IsWord d a := by
  intro out hout
  obtain ⟨segment, hsegment, hemits⟩ := houts out hout
  obtain ⟨name, hname, args, rfl, hargs⟩ := hemits.exists_args
  refine ⟨name, hname, args, rfl, fun a ha => ?_⟩
  obtain hmem | hword := hargs a ha
  · exact ((hsegments segment hsegment).2 a hmem).isWord
  · exact hword

/-- Rewritten segments joined as the translator joins them are read back. -/
theorem read_emitted {segments outs : List (List Text)}
    (hsegments : ScannedSegments u source d segments)
    (houts : ∀ out ∈ outs, ∃ segment ∈ segments, Emits d segment out) :
    (Reading.run d {}
        (List.intercalate [';', ' '] (outs.map (List.intercalate [' '])))).quoting = .bare ∧
      (Reading.read d (List.intercalate [';', ' '] (outs.map (List.intercalate [' '])))).commands =
        outs := by
  refine read_joined fun out hout => ?_
  obtain ⟨name, hname, args, rfl, hargs⟩ := emitted_words hsegments houts out hout
  exact ⟨name.toList, args, rfl, isWord_targetProgram hname, hargs⟩

theorem onlyReads_joined {segments outs : List (List Text)}
    (hsegments : ScannedSegments u source d segments)
    (houts : ∀ out ∈ outs, ∃ segment ∈ segments, Emits d segment out) :
    OnlyReads d (List.intercalate [';', ' '] (outs.map (List.intercalate [' ']))) := by
  have hread := read_emitted hsegments houts
  refine ⟨?_, ?_, ?_⟩
  · rw [hread.1]
    decide
  · rw [hread.1]
    decide
  · rw [hread.2]
    intro out hout
    obtain ⟨name, hname, args, rfl, -⟩ := emitted_words hsegments houts out hout
    exact ⟨name, hname, rfl⟩

/-- What has happened when a command has been rewritten. -/
theorem translated_spec {target : ShellDialect} {enabled : Bool} {cmd : String}
    {t : CommandTranslation} (h : translate u target enabled (some cmd) = .ok (some t))
    (htranslated : t.translated = true) :
    (target = .posix ∨ target = .powershell) ∧ t.source = sourceDialectFor target ∧
      t.target = target ∧ t.original = cmd ∧
      ∃ segments hasVariables outs,
        scan u (sourceDialectFor target) cmd.toList = .ok (segments, hasVariables) ∧
          List.Forall₂ (fun segment out => ∃ ruleId,
            translateSegment u u.int (sourceDialectFor target) segment =
              .ok (.translated out ruleId)) segments outs ∧
          t.executed.toList =
            List.intercalate [';', ' '] (outs.map (List.intercalate [' '])) := by
  unfold translate translateWith at h
  dsimp only at h
  split at h
  · cases h
  · rename_i henabled
    have htarget : target = .posix ∨ target = .powershell :=
      (not_not.1 (not_or.1 henabled).1).2
    split at h
    · cases h
    · split at h
      · cases h
        cases htranslated
      · rename_i segments hasVariables hscan
        split at h
        · cases h
        · cases h
          cases htranslated
        · rename_i result fired hresult
          cases h
          obtain ⟨outs, rfl, houts⟩ := translateSegments_outs hresult
          refine ⟨htarget, rfl, rfl, rfl, segments, hasVariables, outs, hscan, houts, ?_⟩
          dsimp only
          rw [String.toList_ofList]
          rfl

/-- A command that the target shell reads by the same quotes as the scan is rewritten to simple
commands of the table, and to no construct of the target that does more. -/
theorem translate_only_reads {target : ShellDialect} {enabled : Bool} {cmd : String}
    {t : CommandTranslation} (h : translate u target enabled (some cmd) = .ok (some t))
    (htranslated : t.translated = true) (halike : ReadAlike target cmd.toList) :
    OnlyReads target t.executed.toList := by
  obtain ⟨htarget, -, -, -, segments, hasVariables, outs, hscan, houts, hexecuted⟩ :=
    translated_spec h htranslated
  rw [hexecuted]
  exact onlyReads_joined (scan_spec halike hscan) (outs_emit htarget houts)

/-- Reading a file whose name substitutes a command in a POSIX shell. -/
theorem backquote_runs_rm :
    ∃ t, translate superscripts .posix true (some "Get-Content \"a`rm x`\"") = .ok (some t) ∧
      t.translated = true ∧ ¬ OnlyReads .posix t.executed.toList := by
  have hblank : isBlank "Get-Content \"a`rm x`\"" = false := rfl
  have hrecognises : recognises superscripts superscripts.int .powershell
      "Get-Content \"a`rm x`\"".toList = true := rfl
  have hscan : scan superscripts .powershell "Get-Content \"a`rm x`\"".toList =
      .ok ([["Get-Content".toList, "\"a`rm x`\"".toList]], false) := rfl
  have hsegment : translateSegment superscripts superscripts.int .powershell
      ["Get-Content".toList, "\"a`rm x`\"".toList] =
      .ok (.translated ["cat".toList, "\"a`rm x`\"".toList] "print-file") := rfl
  refine ⟨⟨.powershell, .posix, "Get-Content \"a`rm x`\"", "cat \"a`rm x`\"", ["print-file"], none⟩,
    ?_, rfl, fun h => h.no_construct rfl⟩
  unfold translate
  rw [translateWith_scanned (.inl rfl) hblank hrecognises hscan]
  unfold translateSegments
  rw [show sourceDialectFor .posix = .powershell from rfl, hsegment]
  rfl

/-- A command whose quotes both shells read alike. -/
theorem translate_only_reads_quoted :
    OnlyReads .posix "cat \"a b\"".toList := by
  have hblank : isBlank "Get-Content \"a b\"" = false := rfl
  have hrecognises : recognises superscripts superscripts.int .powershell
      "Get-Content \"a b\"".toList = true := rfl
  have hscan : scan superscripts .powershell "Get-Content \"a b\"".toList =
      .ok ([["Get-Content".toList, "\"a b\"".toList]], false) := rfl
  have hsegment : translateSegment superscripts superscripts.int .powershell
      ["Get-Content".toList, "\"a b\"".toList] =
      .ok (.translated ["cat".toList, "\"a b\"".toList] "print-file") := rfl
  have htranslate : translate superscripts .posix true (some "Get-Content \"a b\"") =
      .ok (some ⟨.powershell, .posix, "Get-Content \"a b\"", "cat \"a b\"", ["print-file"],
        none⟩) := by
    unfold translate
    rw [translateWith_scanned (.inl rfl) hblank hrecognises hscan]
    unfold translateSegments
    rw [show sourceDialectFor .posix = .powershell from rfl, hsegment]
    rfl
  have halike : ∀ p ∈ "Get-Content \"a b\"".toList.inits,
      (p.foldl ShellDialect.posix.quoteStep .bare).agrees (p.foldl scanQuote none) = true := by
    decide
  exact translate_only_reads htranslate rfl
    ⟨fun p hp => halike p ((List.mem_inits _ _).2 hp), fun hd => absurd hd (by decide)⟩

end Dialects

end AgenticLocalApp
