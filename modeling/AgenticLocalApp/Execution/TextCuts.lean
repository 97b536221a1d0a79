import AgenticLocalApp.Execution.PayloadGuard

/-!
# Cutting the bytes of a text

The bytes of a text, cut anywhere and decoded again, are the characters behind the cut, after a
replacement character for every byte that is left of the character that the cut falls in.
-/

namespace AgenticLocalApp

/-- A byte that goes on a character. -/
def Continues (b : UInt8) : Prop := 0x80 ≤ b.toNat ∧ b.toNat ≤ 0xBF

theorem decodeHead_continues {b : UInt8} (h : Continues b) (rest : List UInt8) :
    decodeHead b rest = (replacementChar, rest) := by
  obtain ⟨hlow, hhigh⟩ := h
  unfold decodeHead
  dsimp only
  rw [if_neg (by omega), if_pos (by omega)]

theorem continues_ofNat {n : Nat} : Continues (UInt8.ofNat (n % 0x40 + 0x80)) := by
  unfold Continues
  rw [UInt8.toNat_ofNat_of_lt' (by simp only [UInt8.size]; omega)]
  omega

/-- The bytes of a character: the first says how many go on from it. -/
theorem utf8EncodeChar_cases (c : Char) :
    (c.toNat ≤ 0x7F ∧ String.utf8EncodeChar c = [UInt8.ofNat c.toNat]) ∨
    (0x7F < c.toNat ∧ c.toNat ≤ 0x7FF ∧ String.utf8EncodeChar c =
      [UInt8.ofNat (c.toNat / 0x40 % 0x20 + 0xC0), UInt8.ofNat (c.toNat % 0x40 + 0x80)]) ∨
    (0x7FF < c.toNat ∧ c.toNat ≤ 0xFFFF ∧ String.utf8EncodeChar c =
      [UInt8.ofNat (c.toNat / 0x1000 % 0x10 + 0xE0), UInt8.ofNat (c.toNat / 0x40 % 0x40 + 0x80),
        UInt8.ofNat (c.toNat % 0x40 + 0x80)]) ∨
    (0xFFFF < c.toNat ∧ String.utf8EncodeChar c =
      [UInt8.ofNat (c.toNat / 0x40000 % 0x08 + 0xF0),
        UInt8.ofNat (c.toNat / 0x1000 % 0x40 + 0x80), UInt8.ofNat (c.toNat / 0x40 % 0x40 + 0x80),
        UInt8.ofNat (c.toNat % 0x40 + 0x80)]) := by
  have hval : c.val.toNat = c.toNat := rfl
  unfold String.utf8EncodeChar
  dsimp only
  rw [hval]
  split
  · exact .inl ⟨by omega, rfl⟩
  · split
    · exact .inr (.inl ⟨by omega, by omega, rfl⟩)
    · split
      · exact .inr (.inr (.inl ⟨by omega, by omega, rfl⟩))
      · exact .inr (.inr (.inr ⟨by omega, rfl⟩))

theorem decodeContinuation_step {n lo hi code v : Nat} {rest : List UInt8} (hlo : lo ≤ v)
    (hhi : v ≤ hi) (hv : v < 256) :
    decodeContinuation (n + 1) lo hi code (UInt8.ofNat v :: rest) =
      decodeContinuation n 0x80 0xBF (code * 64 + (v - 0x80)) rest := by
  have hbyte : (UInt8.ofNat v).toNat = v :=
    UInt8.toNat_ofNat_of_lt' (by simp only [UInt8.size]; omega)
  rw [decodeContinuation, hbyte, if_pos ⟨hlo, hhi⟩]

/-- Reading the bytes of a character gives it back. -/
theorem decodeHead_utf8EncodeChar (c : Char) (rest : List UInt8) :
    ∃ b bytes, String.utf8EncodeChar c = b :: bytes ∧ decodeHead b (bytes ++ rest) = (c, rest) := by
  have hvalid : c.toNat.isValidChar := c.valid
  have hback : Char.ofNat c.toNat = c := Char.ofNat_toNat c
  have hbyte : ∀ v < 256, (UInt8.ofNat v).toNat = v := fun v hv =>
    UInt8.toNat_ofNat_of_lt' (by simp only [UInt8.size]; omega)
  unfold Nat.isValidChar at hvalid
  obtain ⟨h, henc⟩ | ⟨hlow, hhigh, henc⟩ | ⟨hlow, hhigh, henc⟩ | ⟨hlow, henc⟩ :=
    utf8EncodeChar_cases c
  · refine ⟨_, _, henc, ?_⟩
    unfold decodeHead
    dsimp only
    rw [hbyte _ (by omega), if_pos (by omega), hback]
    rfl
  · refine ⟨_, _, henc, ?_⟩
    unfold decodeHead
    dsimp only
    rw [hbyte _ (by omega), if_neg (by omega), if_neg (by omega), if_pos (by omega),
      List.cons_append, decodeContinuation_step (by omega) (by omega) (by omega),
      decodeContinuation, show (c.toNat / 0x40 % 0x20 + 0xC0 - 0xC0) * 64 +
        (c.toNat % 0x40 + 0x80 - 0x80) = c.toNat by omega, hback]
    rfl
  · refine ⟨_, _, henc, ?_⟩
    have hcode : ∀ code, code = c.toNat / 0x1000 →
        (code * 64 + (c.toNat / 0x40 % 0x40 + 0x80 - 0x80)) * 64 + (c.toNat % 0x40 + 0x80 - 0x80) =
          c.toNat := by
      intro code hcode
      omega
    unfold decodeHead
    dsimp only
    rw [hbyte _ (by omega), if_neg (by omega), if_neg (by omega), if_neg (by omega)]
    split
    · rw [List.cons_append, decodeContinuation_step (by omega) (by omega) (by omega),
        List.cons_append, decodeContinuation_step (by omega) (by omega) (by omega),
        decodeContinuation, hcode _ (by omega), hback]
      rfl
    · split
      · rw [List.cons_append, decodeContinuation_step (by omega) (by omega) (by omega),
          List.cons_append, decodeContinuation_step (by omega) (by omega) (by omega),
          decodeContinuation, hcode _ (by omega), hback]
        rfl
      · rw [if_pos (by omega), List.cons_append,
          decodeContinuation_step (by omega) (by omega) (by omega),
          List.cons_append, decodeContinuation_step (by omega) (by omega) (by omega),
          decodeContinuation, hcode _ (by omega), hback]
        rfl
  · refine ⟨_, _, henc, ?_⟩
    have hcode : ∀ code, code = c.toNat / 0x40000 →
        ((code * 64 + (c.toNat / 0x1000 % 0x40 + 0x80 - 0x80)) * 64 +
          (c.toNat / 0x40 % 0x40 + 0x80 - 0x80)) * 64 + (c.toNat % 0x40 + 0x80 - 0x80) =
            c.toNat := by
      intro code hcode
      omega
    unfold decodeHead
    dsimp only
    rw [hbyte _ (by omega), if_neg (by omega), if_neg (by omega), if_neg (by omega),
      if_neg (by omega), if_neg (by omega), if_neg (by omega)]
    split
    · rw [List.cons_append, decodeContinuation_step (by omega) (by omega) (by omega),
        List.cons_append, decodeContinuation_step (by omega) (by omega) (by omega),
        List.cons_append, decodeContinuation_step (by omega) (by omega) (by omega),
        decodeContinuation, hcode _ (by omega), hback]
      rfl
    · split
      · rw [List.cons_append, decodeContinuation_step (by omega) (by omega) (by omega),
          List.cons_append, decodeContinuation_step (by omega) (by omega) (by omega),
          List.cons_append, decodeContinuation_step (by omega) (by omega) (by omega),
          decodeContinuation, hcode _ (by omega), hback]
        rfl
      · rw [if_pos (by omega), List.cons_append,
          decodeContinuation_step (by omega) (by omega) (by omega),
          List.cons_append, decodeContinuation_step (by omega) (by omega) (by omega),
          List.cons_append, decodeContinuation_step (by omega) (by omega) (by omega),
          decodeContinuation, hcode _ (by omega), hback]
        rfl

/-- Reading the bytes of characters gives them back. -/
theorem decodeChars_flatMap (cs : List Char) {fuel : Nat}
    (hfuel : (cs.flatMap String.utf8EncodeChar).length ≤ fuel) :
    decodeChars fuel (cs.flatMap String.utf8EncodeChar) = cs := by
  induction cs generalizing fuel with
  | nil => cases fuel <;> rfl
  | cons c cs ih =>
    obtain ⟨b, bytes, henc, hhead⟩ :=
      decodeHead_utf8EncodeChar c (cs.flatMap String.utf8EncodeChar)
    rw [List.flatMap_cons, henc, List.cons_append, List.length_cons, List.length_append] at hfuel
    rw [List.flatMap_cons, henc, List.cons_append]
    cases fuel with
    | zero => omega
    | succ fuel =>
      rw [decodeChars, hhead]
      dsimp only
      rw [ih (by omega)]

/-- Bytes that go on a character that is not there are one replacement character each. -/
theorem decodeChars_continues {stray : List UInt8} (h : ∀ b ∈ stray, Continues b) (cs : List Char)
    {fuel : Nat} (hfuel : (stray ++ cs.flatMap String.utf8EncodeChar).length ≤ fuel) :
    decodeChars fuel (stray ++ cs.flatMap String.utf8EncodeChar) =
      .replicate stray.length replacementChar ++ cs := by
  induction stray generalizing fuel with
  | nil => exact decodeChars_flatMap cs hfuel
  | cons b stray ih =>
    rw [List.cons_append, List.length_cons] at hfuel
    cases fuel with
    | zero => omega
    | succ fuel =>
      rw [List.cons_append, decodeChars, decodeHead_continues (h b List.mem_cons_self)]
      dsimp only
      rw [ih (fun d hd => h d (.tail _ hd)) (by omega), List.length_cons, List.replicate_succ,
        List.cons_append]

/-- The bytes of characters in UTF-8. -/
def utf8Length (cs : List Char) : Nat := (cs.flatMap String.utf8EncodeChar).length

theorem utf8Length_append (cs ds : List Char) :
    utf8Length (cs ++ ds) = utf8Length cs + utf8Length ds := by
  unfold utf8Length
  rw [List.flatMap_append, List.length_append]

theorem utf8Length_singleton (c : Char) : utf8Length [c] = c.utf8Size := by
  unfold utf8Length
  rw [List.flatMap_singleton, String.length_utf8EncodeChar]

theorem length_le_utf8Length (cs : List Char) : cs.length ≤ utf8Length cs := by
  induction cs with
  | nil => exact Nat.zero_le _
  | cons c cs ih =>
    have hpos := c.utf8Size_pos
    rw [← List.singleton_append, utf8Length_append, utf8Length_singleton, List.length_append,
      List.length_singleton]
    omega

theorem utf8Length_replicate (k : Nat) : utf8Length (.replicate k replacementChar) = 3 * k := by
  induction k with
  | zero => rfl
  | succ k ih =>
    rw [List.replicate_succ, ← List.singleton_append, utf8Length_append, ih, utf8Length_singleton,
      show replacementChar.utf8Size = 3 from rfl]
    omega

/-- What is behind the first byte of a character goes on it. -/
theorem continues_drop_utf8EncodeChar (c : Char) {n : Nat} (hn : 0 < n) :
    ∀ b ∈ (String.utf8EncodeChar c).drop n, Continues b := by
  obtain ⟨n, rfl⟩ : ∃ m, n = m + 1 := ⟨n - 1, by omega⟩
  intro b hb
  obtain ⟨-, henc⟩ | ⟨-, -, henc⟩ | ⟨-, -, henc⟩ | ⟨-, henc⟩ := utf8EncodeChar_cases c <;>
    rw [henc, List.drop_succ_cons] at hb <;> have hmem := List.mem_of_mem_drop hb
  · cases hmem
  · simp only [List.mem_cons, List.not_mem_nil, or_false] at hmem
    rw [hmem]
    exact continues_ofNat
  · simp only [List.mem_cons, List.not_mem_nil, or_false] at hmem
    obtain rfl | rfl := hmem <;> exact continues_ofNat
  · simp only [List.mem_cons, List.not_mem_nil, or_false] at hmem
    obtain rfl | rfl | rfl := hmem <;> exact continues_ofNat

/-- A cut in the bytes of characters leaves a few bytes of the character that it falls in, and the
characters behind it. -/
theorem drop_flatMap_utf8EncodeChar (cs : List Char) (n : Nat) :
    ∃ (stray : List UInt8) (front back : List Char), cs = front ++ back ∧
      (cs.flatMap String.utf8EncodeChar).drop n = stray ++ back.flatMap String.utf8EncodeChar ∧
      (∀ b ∈ stray, Continues b) ∧
      (stray = [] ∨ ∃ front' c, front = front' ++ [c] ∧ stray.length < c.utf8Size) := by
  induction cs generalizing n with
  | nil => exact ⟨[], [], [], rfl, by simp, by simp, .inl rfl⟩
  | cons c cs ih =>
    by_cases hzero : n = 0
    · exact ⟨[], [], c :: cs, rfl, by rw [hzero]; rfl, by simp, .inl rfl⟩
    · by_cases hsize : n < c.utf8Size
      · refine ⟨(String.utf8EncodeChar c).drop n, [c], cs, rfl, ?_,
          continues_drop_utf8EncodeChar c (by omega), .inr ⟨[], c, rfl, ?_⟩⟩
        · rw [List.flatMap_cons, List.drop_append_of_le_length]
          rw [String.length_utf8EncodeChar]
          omega
        · rw [List.length_drop, String.length_utf8EncodeChar]
          omega
      · obtain ⟨stray, front, back, hcs, hdrop, hstray, hfront⟩ := ih (n - c.utf8Size)
        refine ⟨stray, c :: front, back, by rw [hcs, List.cons_append], ?_, hstray, ?_⟩
        · rw [List.flatMap_cons, List.drop_append, String.length_utf8EncodeChar, hdrop,
            List.drop_eq_nil_of_le (by rw [String.length_utf8EncodeChar]; omega), List.nil_append]
        · obtain h | ⟨front', d, h, hd⟩ := hfront
          · exact .inl h
          · exact .inr ⟨c :: front', d, by rw [h, List.cons_append], hd⟩

end AgenticLocalApp
