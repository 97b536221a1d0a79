import AgenticLocalApp.Execution.TextCuts

/-!
# Halving a text

`_halve` cuts the UTF-8 bytes of a text and decodes what it keeps.  A cut inside a character leaves
continuation bytes, and each of them comes back as a replacement character of three bytes, so that
halving a text again and again need not reach the empty text.
-/

namespace AgenticLocalApp

/-! ## What decoding leaves at the end -/

theorem Char.toNat_ofNat_of_valid {v : Nat} (h : v.isValidChar) : (Char.ofNat v).toNat = v := by
  unfold Char.ofNat
  rw [dif_pos h]
  rfl

/-- A character that takes more than one byte. -/
def Wide (c : Char) : Prop := 0x80 ≤ c.toNat

instance (c : Char) : Decidable (Wide c) := inferInstanceAs (Decidable (0x80 ≤ c.toNat))

theorem wide_replacementChar : Wide replacementChar := by decide

theorem wide_ofNat {v : Nat} (h : 0x80 ≤ v) (hvalid : v.isValidChar) : Wide (Char.ofNat v) := by
  unfold Wide
  rwa [Char.toNat_ofNat_of_valid hvalid]

theorem decodeContinuation_suffix (n lo hi code : Nat) (rest : List UInt8) :
    (decodeContinuation n lo hi code rest).2 <:+ rest := by
  induction n generalizing lo hi code rest with
  | zero => exact List.suffix_refl _
  | succ n ih =>
    cases rest with
    | nil => exact List.suffix_refl _
    | cons b rest =>
      unfold decodeContinuation
      split
      · exact (ih _ _ _ _).trans (List.suffix_cons _ _)
      · exact List.suffix_refl _

theorem decodeHead_suffix (b : UInt8) (rest : List UInt8) : (decodeHead b rest).2 <:+ rest := by
  unfold decodeHead
  dsimp only
  repeat' split
  all_goals first | exact List.suffix_refl _ | exact decodeContinuation_suffix _ _ _ _ _

/-- The character that a sequence stands for, between the least and the greatest that its first
bytes allow. -/
theorem decodeContinuation_bounds {n lo hi code : Nat} {rest : List UInt8} (hlo : 0x80 ≤ lo)
    (hhi : hi ≤ 0xBF) :
    (decodeContinuation n lo hi code rest).1 = replacementChar ∨
      ∃ v, (decodeContinuation n lo hi code rest).1 = Char.ofNat v ∧
        (n = 0 → v = code) ∧
        (0 < n → (code * 64 + (lo - 0x80)) * 64 ^ (n - 1) ≤ v ∧
          v < (code * 64 + (hi - 0x80) + 1) * 64 ^ (n - 1)) := by
  induction n generalizing lo hi code rest with
  | zero => exact .inr ⟨code, rfl, fun _ => rfl, fun h => absurd h (by omega)⟩
  | succ n ih =>
    cases rest with
    | nil => exact .inl rfl
    | cons b rest =>
      unfold decodeContinuation
      split
      · rename_i hb
        obtain heq | ⟨v, hv, hzero, hpos⟩ :=
          @ih 0x80 0xBF (code * 64 + (b.toNat - 0x80)) rest le_rfl le_rfl
        · exact .inl heq
        · refine .inr ⟨v, hv, fun h => absurd h (by omega), fun _ => ?_⟩
          rw [Nat.add_sub_cancel]
          cases n with
          | zero =>
            rw [hzero rfl, pow_zero]
            omega
          | succ n =>
            have hbounds := hpos (by omega)
            rw [Nat.add_sub_cancel] at hbounds
            have hpow : (64 : Nat) ^ (n + 1) = 64 * 64 ^ n := by rw [pow_succ, Nat.mul_comm]
            have hlow := Nat.mul_le_mul_right (64 ^ n) (show
              (code * 64 + (lo - 0x80)) * 64 ≤ (code * 64 + (b.toNat - 0x80)) * 64 + (0x80 - 0x80) by
                omega)
            have hhigh := Nat.mul_le_mul_right (64 ^ n) (show
              (code * 64 + (b.toNat - 0x80)) * 64 + (0xBF - 0x80) + 1 ≤
                (code * 64 + (hi - 0x80) + 1) * 64 by omega)
            rw [hpow, ← Nat.mul_assoc, ← Nat.mul_assoc]
            omega
      · exact .inl rfl

theorem wide_decodeContinuation {n lo hi code : Nat} {rest : List UInt8} (hn : 0 < n)
    (hlo : 0x80 ≤ lo) (hhi : hi ≤ 0xBF) (hwide : 0x80 ≤ (code * 64 + (lo - 0x80)) * 64 ^ (n - 1))
    (hvalid : (code * 64 + (hi - 0x80) + 1) * 64 ^ (n - 1) ≤ 0xD800 ∨
      0xE000 ≤ (code * 64 + (lo - 0x80)) * 64 ^ (n - 1) ∧
        (code * 64 + (hi - 0x80) + 1) * 64 ^ (n - 1) ≤ 0x110000) :
    Wide (decodeContinuation n lo hi code rest).1 := by
  obtain heq | ⟨v, hv, -, hpos⟩ := @decodeContinuation_bounds n lo hi code rest hlo hhi
  · rw [heq]
    exact wide_replacementChar
  · obtain ⟨hlow, hhigh⟩ := hpos hn
    rw [hv]
    refine wide_ofNat (hwide.trans hlow) ?_
    unfold Nat.isValidChar
    omega

theorem wide_decodeHead {b : UInt8} (rest : List UInt8) (h : 0x80 ≤ b.toNat) :
    Wide (decodeHead b rest).1 := by
  have hb : b.toNat < 256 := b.toNat_lt
  unfold decodeHead
  dsimp only
  rw [if_neg (by omega)]
  split
  · exact wide_replacementChar
  · split
    · exact wide_decodeContinuation (by omega) (by omega) (by omega) (by omega) (.inl (by omega))
    · split
      · exact wide_decodeContinuation (by omega) (by omega) (by omega) (by omega) (.inl (by omega))
      · split
        · exact wide_decodeContinuation (by omega) (by omega) (by omega) (by omega)
            (.inl (by omega))
        · split
          · refine wide_decodeContinuation (by omega) (by omega) (by omega) (by omega) ?_
            by_cases hsurrogate : b.toNat < 0xED
            · exact .inl (by omega)
            · exact .inr ⟨by omega, by omega⟩
          · split
            · exact wide_decodeContinuation (by omega) (by omega) (by omega) (by omega)
                (.inr ⟨by omega, by omega⟩)
            · split
              · exact wide_decodeContinuation (by omega) (by omega) (by omega) (by omega)
                  (.inr ⟨by omega, by omega⟩)
              · split
                · exact wide_decodeContinuation (by omega) (by omega) (by omega) (by omega)
                    (.inr ⟨by omega, by omega⟩)
                · exact wide_replacementChar

/-- Bytes whose last is not ASCII are decoded to characters whose last is not ASCII. -/
theorem wide_getLast_decodeChars {fuel : Nat} {bytes : List UInt8} (hfuel : bytes.length ≤ fuel)
    {last : UInt8} (hlast : bytes.getLast? = some last) (h : 0x80 ≤ last.toNat) :
    ∃ c, (decodeChars fuel bytes).getLast? = some c ∧ Wide c := by
  induction fuel generalizing bytes with
  | zero =>
    have hnil : bytes = [] := List.eq_nil_of_length_eq_zero (by omega)
    rw [hnil] at hlast
    cases hlast
  | succ fuel ih =>
    cases bytes with
    | nil => cases hlast
    | cons b rest =>
      have hsuffix := decodeHead_suffix b rest
      have hwide := wide_decodeHead (b := b) rest
      unfold decodeChars
      cases hhead : decodeHead b rest with
      | mk c rest' =>
        rw [hhead] at hsuffix hwide
        dsimp only at hsuffix hwide ⊢
        cases rest' with
        | nil =>
          have hnil : decodeChars fuel [] = [] := by cases fuel <;> rfl
          rw [hnil]
          refine ⟨c, rfl, hwide ?_⟩
          by_contra hsmall
          have hrest : (decodeHead b rest).2 = rest := by
            unfold decodeHead
            dsimp only
            rw [if_pos (by omega)]
          rw [hhead] at hrest
          dsimp only at hrest
          subst hrest
          rw [List.getLast?_singleton] at hlast
          cases hlast
          omega
        | cons d rest' =>
          have hlength := hsuffix.length_le
          have hrest : (d :: rest').getLast? = some last := by
            obtain ⟨front, hfront⟩ := hsuffix
            rw [← hlast, ← hfront, ← List.cons_append, List.getLast?_append_of_ne_nil _ (by simp)]
          obtain ⟨c', hc', hw⟩ := ih (by simp only [List.length_cons] at hfuel hlength ⊢; omega) hrest
          refine ⟨c', ?_, hw⟩
          rw [← List.singleton_append, List.getLast?_append_of_ne_nil]
          · exact hc'
          · intro hnil
            rw [hnil] at hc'
            cases hc'

/-! ## Halving -/

namespace PayloadGuard

/-- What `_halve` leaves of a text. -/
def halveText (s : String) : String :=
  decodeOutput (lastBytes ((encodeText s).length / 2) (encodeText s))

/-- The text is empty once it has been halved often enough. -/
def Vanishes (s : String) : Prop := ∃ n, halveText^[n] s = ""

theorem halveText_empty : halveText "" = "" := rfl

theorem vanishes_halveText {s : String} : Vanishes (halveText s) ↔ Vanishes s := by
  constructor
  · rintro ⟨n, hn⟩
    exact ⟨n + 1, hn⟩
  · rintro ⟨n, hn⟩
    refine ⟨n, ?_⟩
    rw [← Function.iterate_succ_apply, Function.iterate_succ_apply', hn]
    exact halveText_empty

theorem vanishes_empty : Vanishes "" := ⟨0, rfl⟩

/-- The halvings left before a text is empty, as one function on texts. -/
theorem exists_halvings_left :
    ∃ left : String → Nat, ∀ s, Vanishes s → s ≠ "" → left (halveText s) < left s := by
  classical
  refine ⟨fun s => if h : Vanishes s then Nat.find h else 0, fun s hs hne => ?_⟩
  have hspec : halveText^[Nat.find hs] s = "" := Nat.find_spec hs
  dsimp only
  rw [dif_pos hs, dif_pos (vanishes_halveText.2 hs)]
  cases hfind : Nat.find hs with
  | zero =>
    rw [hfind] at hspec
    exact absurd hspec hne
  | succ n =>
    rw [hfind] at hspec
    exact Nat.lt_succ_of_le (Nat.find_min' _ hspec)

/-- Half of a text: a replacement character for every byte left of the character that the cut falls
in, and the characters behind it. -/
theorem halveText_spec (s : String) :
    ∃ (k : Nat) (front back : List Char), s.toList = front ++ back ∧
      halveText s = .ofList (.replicate k replacementChar ++ back) ∧
      k + utf8Length back = (encodeText s).length / 2 ∧
      (k = 0 ∨ ∃ front' c, front = front' ++ [c] ∧ k < c.utf8Size) := by
  obtain ⟨stray, front, back, hcs, hdrop, hstray, hfront⟩ := drop_flatMap_utf8EncodeChar s.toList
    ((encodeText s).length - (encodeText s).length / 2)
  have hkept : lastBytes ((encodeText s).length / 2) (encodeText s) =
      stray ++ back.flatMap String.utf8EncodeChar := hdrop
  refine ⟨stray.length, front, back, hcs, ?_, ?_, ?_⟩
  · unfold halveText decodeOutput
    rw [hkept, decodeChars_continues hstray back le_rfl]
  · unfold utf8Length
    rw [← List.length_append, ← hkept]
    unfold lastBytes
    rw [List.length_drop]
    omega
  · exact hfront.imp_left fun h => by rw [h, List.length_nil]

/-! ### The texts that never vanish, and texts that always do -/

theorem exists_getLast_utf8EncodeChar (c : Char) (h : Wide c) :
    2 ≤ (String.utf8EncodeChar c).length ∧
      ∃ b, (String.utf8EncodeChar c).getLast? = some b ∧ 0x80 ≤ b.toNat := by
  unfold Wide at h
  have hlast : 0x80 ≤ (UInt8.ofNat (c.val.toNat % 0x40 + 0x80)).toNat := by
    rw [UInt8.toNat_ofNat_of_lt' (by simp only [UInt8.size]; omega)]
    omega
  unfold String.utf8EncodeChar
  dsimp only
  split
  · rename_i hsmall
    exact absurd h (by unfold Char.toNat; omega)
  · split
    · exact ⟨le_rfl, _, rfl, hlast⟩
    · split
      · exact ⟨by simp, _, rfl, hlast⟩
      · exact ⟨by simp, _, rfl, hlast⟩

/-- A text whose last character is not ASCII is halved to a text whose last character is not ASCII
either. -/
theorem wide_getLast_halveText {s : String} {c : Char} (hlast : s.toList.getLast? = some c)
    (h : Wide c) : ∃ c', (halveText s).toList.getLast? = some c' ∧ Wide c' := by
  obtain ⟨front, hfront⟩ := List.getLast?_eq_some_iff.1 hlast
  obtain ⟨hlength, b, hb, hwide⟩ := exists_getLast_utf8EncodeChar c h
  have hbytes : encodeText s = front.flatMap String.utf8EncodeChar ++ String.utf8EncodeChar c := by
    unfold encodeText
    rw [hfront, List.flatMap_append, List.flatMap_singleton]
  have hencoded : (encodeText s).getLast? = some b := by
    rw [hbytes, List.getLast?_append, hb]
    rfl
  have hkept : (lastBytes ((encodeText s).length / 2) (encodeText s)).getLast? = some b := by
    have hsize : 2 ≤ (encodeText s).length := by
      rw [hbytes, List.length_append]
      omega
    unfold lastBytes
    rw [List.getLast?_drop, if_neg (by omega), hencoded]
  unfold halveText decodeOutput
  rw [String.toList_ofList]
  exact wide_getLast_decodeChars le_rfl hkept hwide

theorem not_vanishes_of_wide {s : String} {c : Char} (hlast : s.toList.getLast? = some c)
    (h : Wide c) : ¬ Vanishes s := by
  rintro ⟨n, hn⟩
  induction n generalizing s c with
  | zero =>
    rw [Function.iterate_zero_apply] at hn
    rw [hn] at hlast
    cases hlast
  | succ n ih =>
    obtain ⟨c', hc', hw⟩ := wide_getLast_halveText hlast h
    exact ih hc' hw hn

theorem utf8EncodeChar_narrow {c : Char} (h : ¬ Wide c) :
    String.utf8EncodeChar c = [UInt8.ofNat c.toNat] := by
  unfold Wide Char.toNat at h
  unfold String.utf8EncodeChar
  dsimp only
  rw [if_pos (by omega)]
  rfl

theorem encodeText_narrow {cs : List Char} (h : ∀ c ∈ cs, ¬ Wide c) :
    cs.flatMap String.utf8EncodeChar = cs.map fun c => UInt8.ofNat c.toNat := by
  induction cs with
  | nil => rfl
  | cons c cs ih =>
    rw [List.flatMap_cons, List.map_cons, utf8EncodeChar_narrow (h c List.mem_cons_self),
      ih fun d hd => h d (.tail _ hd)]
    rfl

theorem decodeChars_narrow {cs : List Char} (h : ∀ c ∈ cs, ¬ Wide c) {fuel : Nat}
    (hfuel : cs.length ≤ fuel) :
    decodeChars fuel (cs.map fun c => UInt8.ofNat c.toNat) = cs := by
  induction cs generalizing fuel with
  | nil => cases fuel <;> rfl
  | cons c cs ih =>
    cases fuel with
    | zero => exact absurd hfuel (by simp)
    | succ fuel =>
      have hnarrow := h c List.mem_cons_self
      unfold Wide at hnarrow
      have hbyte : (UInt8.ofNat c.toNat).toNat = c.toNat :=
        UInt8.toNat_ofNat_of_lt' (by simp only [UInt8.size]; omega)
      rw [List.map_cons, decodeChars, decodeHead]
      dsimp only
      rw [hbyte, if_pos (by omega), Char.ofNat_toNat, ih (fun d hd => h d (.tail _ hd))]
      simp only [List.length_cons] at hfuel
      omega

/-- A text in ASCII is halved to the second half of its characters. -/
theorem halveText_narrow {cs : List Char} (h : ∀ c ∈ cs, ¬ Wide c) :
    halveText (.ofList cs) = .ofList (cs.drop (cs.length - cs.length / 2)) := by
  have hdrop : ∀ c ∈ cs.drop (cs.length - cs.length / 2), ¬ Wide c :=
    fun c hc => h c (List.mem_of_mem_drop hc)
  unfold halveText encodeText lastBytes decodeOutput
  rw [String.toList_ofList, encodeText_narrow h, List.length_map, ← List.map_drop, List.length_map,
    decodeChars_narrow hdrop le_rfl]

theorem vanishes_of_narrow {s : String} (h : ∀ c ∈ s.toList, ¬ Wide c) : Vanishes s := by
  induction hn : s.toList.length using Nat.strong_induction_on generalizing s with
  | _ n ih =>
    cases n with
    | zero =>
      have hempty : s = "" := String.toList_inj.1 (List.eq_nil_of_length_eq_zero hn)
      rw [hempty]
      exact vanishes_empty
    | succ n =>
      have hhalf : halveText s = .ofList (s.toList.drop (s.toList.length - s.toList.length / 2)) := by
        have := halveText_narrow h
        rwa [String.ofList_toList] at this
      refine vanishes_halveText.1 (ih (s.toList.length / 2) (by omega) ?_ ?_)
      · rw [hhalf, String.toList_ofList]
        exact fun c hc => h c (List.mem_of_mem_drop hc)
      · rw [hhalf, String.toList_ofList, List.length_drop]
        omega

/-! ### Cuts between characters -/

/-- Every half, half of a half and so on of the bytes of the text begins with a character. -/
def CutsBetween (s : String) : Prop :=
  ∀ k, ∃ front back, s.toList = front ++ back ∧ utf8Length back = (encodeText s).length / 2 ^ k

/-- The text ends in three characters of one byte. -/
def NarrowEnd (s : String) : Prop :=
  ∃ front back, s.toList = front ++ back ∧ 3 ≤ back.length ∧ ∀ c ∈ back, ¬ Wide c

theorem CutsBetween.halveText {s : String} (h : CutsBetween s) :
    CutsBetween (halveText s) ∧
      (encodeText (halveText s)).length = (encodeText s).length / 2 := by
  obtain ⟨front, back, hs, hback⟩ := h 1
  rw [pow_one] at hback
  have henc : encodeText s = front.flatMap String.utf8EncodeChar ++
      back.flatMap String.utf8EncodeChar := by
    unfold encodeText
    rw [hs, List.flatMap_append]
  have hhalf : PayloadGuard.halveText s = .ofList back := by
    unfold PayloadGuard.halveText decodeOutput lastBytes
    rw [← hback, henc, List.length_append]
    unfold utf8Length
    rw [Nat.add_sub_cancel, List.drop_left,
      decodeChars_flatMap back le_rfl]
  have hsize : (encodeText (PayloadGuard.halveText s)).length = (encodeText s).length / 2 := by
    rw [← hback, hhalf]
    unfold encodeText utf8Length
    rw [String.toList_ofList]
  refine ⟨fun k => ?_, hsize⟩
  obtain ⟨front', back', hs', hback'⟩ := h (k + 1)
  have hless : utf8Length back' ≤ utf8Length back := by
    rw [hback, hback', Nat.pow_succ, Nat.mul_comm, ← Nat.div_div_eq_div_mul]
    exact Nat.div_le_self _ _
  have hsuffix : back' <:+ back := by
    have hback'' : back' <:+ s.toList := ⟨front', hs'.symm⟩
    rcases List.suffix_or_suffix_of_suffix hback'' ⟨front, hs.symm⟩ with hin | ⟨more, hmore⟩
    · exact hin
    · have hlength := length_le_utf8Length more
      rw [← hmore, utf8Length_append] at hless
      have hnil : more = [] := List.eq_nil_of_length_eq_zero (by omega)
      have hsame : back' = back := by rw [← hmore, hnil, List.nil_append]
      exact hsame ▸ List.suffix_refl _
  obtain ⟨middle, hmiddle⟩ := hsuffix
  refine ⟨middle, back', by rw [hhalf, String.toList_ofList, hmiddle], ?_⟩
  rw [hsize, hback', Nat.pow_succ, Nat.mul_comm, ← Nat.div_div_eq_div_mul]

/-- A text that no cut falls in a character of is halved to nothing. -/
theorem vanishes_of_cutsBetween {s : String} (h : CutsBetween s) : Vanishes s := by
  induction hn : (encodeText s).length using Nat.strong_induction_on generalizing s with
  | _ n ih =>
    cases n with
    | zero =>
      have hlength := length_le_utf8Length s.toList
      have hempty : s = "" := String.toList_inj.1 (List.eq_nil_of_length_eq_zero (by
        unfold utf8Length at hlength
        unfold encodeText at hn
        omega))
      rw [hempty]
      exact vanishes_empty
    | succ n =>
      obtain ⟨hhalf, hsize⟩ := h.halveText
      exact vanishes_halveText.1 (ih _ (by omega) hhalf rfl)

/-! ### Texts that end in ASCII -/

theorem utf8Size_narrow {c : Char} (h : ¬ Wide c) : c.utf8Size = 1 := by
  rw [← String.length_utf8EncodeChar, utf8EncodeChar_narrow h]
  rfl

theorem utf8Length_narrow {cs : List Char} (h : ∀ c ∈ cs, ¬ Wide c) : utf8Length cs = cs.length := by
  unfold utf8Length
  rw [encodeText_narrow h, List.length_map]

/-- The characters of four bytes. -/
def fourBytes (cs : List Char) : Nat := cs.countP fun c => c.utf8Size = 4

theorem fourBytes_replicate (k : Nat) : fourBytes (.replicate k replacementChar) = 0 := by
  unfold fourBytes
  rw [List.countP_replicate, if_neg (by decide)]

/-- Behind a cut before its end, a text that ends in ASCII still does; what the cut adds is less than
what it takes off, but where three bytes of a character of four are left. -/
theorem vanishes_of_narrowEnd {s : String} (h : NarrowEnd s) : Vanishes s := by
  induction hn : utf8Length s.toList + fourBytes s.toList using Nat.strong_induction_on
    generalizing s with
  | _ n ih =>
    obtain ⟨front, tail, hs, hthree, hnarrow⟩ := h
    obtain ⟨k, front', back, hs', hhalf, hsize, hcut⟩ := halveText_spec s
    have hsizes : utf8Length front' + utf8Length back = (encodeText s).length := by
      rw [← utf8Length_append, ← hs']
      rfl
    have htotal : (encodeText s).length = utf8Length s.toList := rfl
    refine vanishes_halveText.1 ?_
    have hback : back <:+ s.toList := ⟨front', hs'.symm⟩
    have htail : tail <:+ s.toList := ⟨front, hs.symm⟩
    by_cases hshort : back.length < tail.length
    · -- the cut falls in the ASCII end: no byte of it is left over
      obtain ⟨more, hmore⟩ := List.suffix_of_suffix_length_le hback htail hshort.le
      have hone : ∀ c ∈ more ++ back, ¬ Wide c := hmore ▸ hnarrow
      have hzero : k = 0 := by
        obtain hzero | ⟨front'', c, hfront, hk⟩ := hcut
        · exact hzero
        · have hlast : front ++ more = front'' ++ [c] := by
            refine List.append_cancel_right (?_ : _ ++ back = _ ++ back)
            rw [List.append_assoc, hmore, ← hs, hs', hfront]
          have hmem : c ∈ more := by
            cases hm : more.reverse with
            | nil =>
              rw [List.reverse_eq_nil_iff] at hm
              rw [hm, List.nil_append] at hmore
              rw [hmore] at hshort
              exact absurd hshort (Nat.lt_irrefl _)
            | cons d more' =>
              have hd : more = more'.reverse ++ [d] := by
                rw [← List.reverse_reverse more, hm, List.reverse_cons]
              rw [hd, ← List.append_assoc] at hlast
              have hdc := (List.append_inj' hlast rfl).2
              cases hdc
              rw [hd]
              exact List.mem_append_right _ List.mem_cons_self
          have hsize := utf8Size_narrow (hone c (List.mem_append_left _ hmem))
          omega
      rw [hhalf, hzero]
      refine vanishes_of_narrow fun c hc => ?_
      rw [String.toList_ofList] at hc
      exact hone c (List.mem_append_right _ hc)
    · obtain ⟨more, hmore⟩ := List.suffix_of_suffix_length_le htail hback (by omega)
      have hkept : (halveText s).toList = .replicate k replacementChar ++ back := by
        rw [hhalf, String.toList_ofList]
      have hlong : 3 ≤ utf8Length back := by
        have hlength := length_le_utf8Length back
        omega
      have hfour : fourBytes s.toList = fourBytes front' + fourBytes back := by
        unfold fourBytes
        rw [hs', List.countP_append]
      have hnext : utf8Length (halveText s).toList + fourBytes (halveText s).toList =
          3 * k + utf8Length back + fourBytes back := by
        have hnone := fourBytes_replicate k
        unfold fourBytes at hnone ⊢
        rw [hkept, utf8Length_append, utf8Length_replicate, List.countP_append, hnone, Nat.zero_add]
      refine ih _ ?_ ⟨.replicate k replacementChar ++ more, tail, ?_, hthree, hnarrow⟩ rfl
      · rw [hnext, ← hn, hfour, ← htotal]
        obtain hzero | ⟨front'', c, hfront, hk⟩ := hcut
        · omega
        · have hfit := c.utf8Size_le_four
          by_cases hfour' : c.utf8Size = 4
          · have hcount : 0 < fourBytes front' := by
              unfold fourBytes
              rw [hfront]
              exact List.countP_pos_iff.2
                ⟨c, List.mem_append_right _ List.mem_cons_self, decide_eq_true hfour'⟩
            omega
          · omega
      · rw [hkept, List.append_assoc, hmore]

/-! ### Texts that stay within their range -/

/-- The last characters, the last first: none of more than two bytes ends the text, and no single
byte stands behind a character of four. -/
def endsSteady : List Char → Prop
  | [] => True
  | c :: before => c.utf8Size = 2 ∨ c.utf8Size = 1 ∧ ∀ d ∈ before.head?, d.utf8Size ≤ 3

/-- A cut of the text, and of what is left of it, leaves at most one byte more of a character than
of whole characters behind it. -/
def SteadyEnd (s : String) : Prop :=
  s = .ofList [replacementChar] ∨ endsSteady s.toList.reverse

theorem steadyEnd_halveText {s : String} (h : SteadyEnd s) :
    SteadyEnd (halveText s) ∧
      (encodeText (halveText s)).length / 2 ≤ (encodeText s).length / 2 := by
  obtain rfl | h := h
  · have hsame : halveText (.ofList [replacementChar]) = .ofList [replacementChar] := by decide
    rw [hsame]
    exact ⟨.inl rfl, le_rfl⟩
  · obtain ⟨k, front, back, hs, hhalf, hsize, hcut⟩ := halveText_spec s
    have hlength : (encodeText (halveText s)).length = 3 * k + utf8Length back := by
      have happend := utf8Length_append (.replicate k replacementChar) back
      rw [utf8Length_replicate] at happend
      rw [hhalf, ← happend]
      unfold encodeText utf8Length
      rw [String.toList_ofList]
    rw [hlength]
    unfold SteadyEnd
    rw [hhalf, String.toList_ofList, List.reverse_append, List.reverse_replicate]
    rw [hs, List.reverse_append] at h
    cases hback : back.reverse with
    | nil =>
      rw [List.reverse_eq_nil_iff] at hback
      subst hback
      obtain rfl | ⟨front', c, rfl, hk⟩ := hcut
      · exact ⟨.inr trivial, by omega⟩
      · rw [List.reverse_nil, List.nil_append, List.reverse_append, List.reverse_singleton,
          List.singleton_append] at h
        have hsmall : c.utf8Size ≤ 2 := by
          obtain h | ⟨h, -⟩ := h <;> omega
        obtain rfl | rfl : k = 0 ∨ k = 1 := by omega
        · exact ⟨.inr trivial, by omega⟩
        · exact ⟨.inl rfl, by omega⟩
    | cons c before =>
      have hparts : utf8Length back = utf8Length before.reverse + c.utf8Size := by
        rw [← List.reverse_reverse back, hback, List.reverse_cons, utf8Length_append,
          utf8Length_singleton]
      rw [hback, List.cons_append] at h
      rw [List.cons_append]
      cases before with
      | nil =>
        refine ⟨.inr ?_, ?_⟩
        · obtain htwo | ⟨hone, -⟩ := h
          · exact .inl htwo
          · refine .inr ⟨hone, fun d hd => ?_⟩
            rw [List.nil_append, List.head?_replicate] at hd
            split at hd
            · cases hd
            · cases hd
              decide
        · obtain rfl | ⟨front', d, rfl, hk⟩ := hcut
          · omega
          · have hfit := d.utf8Size_le_four
            obtain htwo | ⟨hone, hbefore⟩ := h
            · omega
            · have hd : d.utf8Size ≤ 3 := hbefore d (by
                rw [List.nil_append, List.reverse_append]
                rfl)
              omega
      | cons d before =>
        refine ⟨.inr ?_, ?_⟩
        · obtain htwo | ⟨hone, hbefore⟩ := h
          · exact .inl htwo
          · exact .inr ⟨hone, hbefore⟩
        · have hd := d.utf8Size_pos
          rw [List.reverse_cons, utf8Length_append, utf8Length_singleton] at hparts
          have hc := c.utf8Size_pos
          obtain rfl | ⟨front', e, rfl, hk⟩ := hcut
          · omega
          · have hfit := e.utf8Size_le_four
            omega

end PayloadGuard

end AgenticLocalApp
