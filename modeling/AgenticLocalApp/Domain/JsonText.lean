import AgenticLocalApp.Domain.Canonical
import Mathlib.Data.List.Sort

/-!
# Reading canonical JSON back

A value written as canonical JSON is read back as the same value with its keys in order, and the
text written from that is the text it was read from.
-/

namespace AgenticLocalApp

namespace Json

/-! ## Keys in order -/

mutual

/-- The value with the fields of every object in the order of their keys. -/
def sorted : Json → Json
  | arr items => arr (sortedItems items)
  | obj fields => obj (sortFields (sortedFields fields))
  | null => null
  | bool b => bool b
  | int n => int n
  | float repr => float repr
  | str s => str s

def sortedItems : List Json → List Json
  | [] => []
  | x :: xs => sorted x :: sortedItems xs

def sortedFields : List (String × Json) → List (String × Json)
  | [] => []
  | (k, v) :: rest => (k, sorted v) :: sortedFields rest

end

mutual

/-- The text of a value, its fields as they come. -/
def render : Json → List Char
  | null => "null".toList
  | bool true => "true".toList
  | bool false => "false".toList
  | int n => ofInt n
  | float repr => repr.toList
  | str s => quote s
  | arr items => '[' :: commas (renderItems items) ++ [']']
  | obj fields => '{' :: commas (renderFields fields) ++ ['}']

def renderItems : List Json → List (List Char)
  | [] => []
  | x :: xs => render x :: renderItems xs

def renderFields : List (String × Json) → List (List Char)
  | [] => []
  | (k, v) :: rest => (quote k ++ ':' :: render v) :: renderFields rest

end

theorem renderFields_eq_map (fields : List (String × Json)) :
    renderFields fields = fields.map fun f => quote f.1 ++ ':' :: render f.2 := by
  induction fields with
  | nil => rfl
  | cons f rest ih =>
    obtain ⟨k, v⟩ := f
    rw [renderFields, ih]
    rfl

theorem sortedFields_eq_map (fields : List (String × Json)) :
    sortedFields fields = fields.map fun f => (f.1, sorted f.2) := by
  induction fields with
  | nil => rfl
  | cons f rest ih =>
    obtain ⟨k, v⟩ := f
    rw [sortedFields, ih]
    rfl

/-- The order of fields by their keys. -/
def keyLe {α : Type} (a b : String × α) : Prop := a.1 ≤ b.1

instance {α : Type} : DecidableRel (@keyLe α) := fun a b =>
  inferInstanceAs (Decidable (a.1 ≤ b.1))

instance {α : Type} : Std.Total (@keyLe α) := ⟨fun a b => String.le_total a.1 b.1⟩

instance {α : Type} : IsTrans (String × α) keyLe := ⟨fun _ _ _ h h' => String.le_trans h h'⟩

theorem sortFields_eq {α : Type} (fields : List (String × α)) :
    sortFields fields = fields.insertionSort keyLe := rfl

/-- Sorting by the keys does not look at the values. -/
theorem sortFields_map {α β : Type} (g : α → β) (fields : List (String × α)) :
    sortFields (fields.map fun f => (f.1, g f.2)) =
      (sortFields fields).map fun f => (f.1, g f.2) := by
  rw [sortFields_eq, sortFields_eq, List.map_insertionSort keyLe keyLe]
  exact fun _ _ _ _ => Iff.rfl

theorem sortFields_sortFields {α : Type} (fields : List (String × α)) :
    sortFields (sortFields fields) = sortFields fields := by
  rw [sortFields_eq (sortFields fields)]
  exact (List.pairwise_insertionSort keyLe fields).insertionSort_eq

mutual

/-- The canonical text is the text of the sorted value. -/
theorem render_sorted : ∀ j : Json, render (sorted j) = canonical j
  | null | bool true | bool false | int _ | float _ | str _ => rfl
  | arr items => by rw [sorted, render, canonical, renderItems_sorted items]
  | obj fields => by
    have hfields := renderFields_sorted fields
    have hmap : (sortFields (sortedFields fields)).map (fun f => quote f.1 ++ ':' :: render f.2) =
        (sortFields (canonicalFields fields)).map fun f => quote f.1 ++ ':' :: f.2 := by
      rw [← hfields, sortFields_map, List.map_map]
      rfl
    rw [sorted, render, canonical, renderFields_eq_map, hmap]

theorem renderItems_sorted : ∀ items : List Json,
    renderItems (sortedItems items) = canonicalItems items
  | [] => rfl
  | x :: xs => by rw [sortedItems, renderItems, canonicalItems, render_sorted x, renderItems_sorted xs]

theorem renderFields_sorted : ∀ fields : List (String × Json),
    ((sortedFields fields).map fun f => (f.1, render f.2)) = canonicalFields fields
  | [] => rfl
  | (k, v) :: rest => by
    rw [sortedFields, List.map_cons, render_sorted v, renderFields_sorted rest, canonicalFields]

end

mutual

theorem sorted_sorted : ∀ j : Json, sorted (sorted j) = sorted j
  | null | bool _ | int _ | float _ | str _ => rfl
  | arr items => by rw [sorted, sorted, sortedItems_sortedItems items]
  | obj fields => by
    have hmap : sortedFields (sortFields (sortedFields fields)) =
        sortFields (sortedFields fields) := by
      rw [sortedFields_eq_map, ← sortFields_map, ← sortedFields_eq_map,
        sortedFields_sortedFields fields]
    rw [sorted, sorted, hmap, sortFields_sortFields]

theorem sortedItems_sortedItems : ∀ items : List Json,
    sortedItems (sortedItems items) = sortedItems items
  | [] => rfl
  | x :: xs => by rw [sortedItems, sortedItems, sorted_sorted x, sortedItems_sortedItems xs]

theorem sortedFields_sortedFields : ∀ fields : List (String × Json),
    sortedFields (sortedFields fields) = sortedFields fields
  | [] => rfl
  | (k, v) :: rest => by
    rw [sortedFields, sortedFields, sorted_sorted v, sortedFields_sortedFields rest]

end

/-- Sorting the fields of a value leaves its canonical text as it is. -/
theorem canonical_sorted (j : Json) : canonical (sorted j) = canonical j := by
  rw [← render_sorted (sorted j), sorted_sorted, render_sorted]

/-! ## Reading a text -/

/-- The value of a hexadecimal digit as the encoder writes it. -/
def hexValue (c : Char) : Option Nat :=
  if '0' ≤ c ∧ c ≤ '9' then some (c.toNat - '0'.toNat)
  else if 'a' ≤ c ∧ c ≤ 'f' then some (c.toNat - 'a'.toNat + 10)
  else none

/-- The character of an escape, and what follows it.  The encoder writes no escape beyond the
control characters. -/
def readEscape : List Char → Option (Char × List Char)
  | '"' :: r => some ('"', r)
  | '\\' :: r => some ('\\', r)
  | 'n' :: r => some ('\n', r)
  | 'r' :: r => some ('\r', r)
  | 't' :: r => some ('\t', r)
  | 'b' :: r => some (Char.ofNat 8, r)
  | 'f' :: r => some (Char.ofNat 12, r)
  | 'u' :: '0' :: '0' :: a :: b :: r => do
    return (Char.ofNat ((← hexValue a) * 16 + (← hexValue b)), r)
  | _ => none

/-- The characters of a string up to its closing quote, and what follows it. -/
def readString : (fuel : Nat) → List Char → Option (List Char × List Char)
  | 0, _ => none
  | fuel + 1, cs =>
    match cs with
    | [] => none
    | c :: r =>
      if c = '"' then some ([], r)
      else if c = '\\' then
        match readEscape r with
        | some (c, r) => (readString fuel r).map fun p => (c :: p.1, p.2)
        | none => none
      else (readString fuel r).map fun p => (c :: p.1, p.2)

/-- A character of a number. -/
def isNumberChar (c : Char) : Bool := c.isDigit || c ∈ ['-', '+', '.', 'e', 'E']

/-- A number that has neither a fraction nor an exponent is an integer; any other is kept as the
text of a float. -/
def readNumber (token : List Char) : Option Json :=
  if token = [] then none
  else if token.any fun c => c ∈ ['.', 'e', 'E'] then some (.float (.ofList token))
  else if token.head? = some '-' then some (.int (-(Nat.ofDigitChars 10 token.tail 0 : Int)))
  else some (.int (Nat.ofDigitChars 10 token 0))

mutual

/-- The value at the start of a text, and what follows it; `fuel` bounds the depth. -/
def readValue : (fuel : Nat) → List Char → Option (Json × List Char)
  | 0, _ => none
  | fuel + 1, cs =>
    match cs with
    | 'n' :: 'u' :: 'l' :: 'l' :: r => some (null, r)
    | 't' :: 'r' :: 'u' :: 'e' :: r => some (bool true, r)
    | 'f' :: 'a' :: 'l' :: 's' :: 'e' :: r => some (bool false, r)
    | '"' :: r => (readString (r.length + 1) r).map fun p => (str (.ofList p.1), p.2)
    | '[' :: ']' :: r => some (arr [], r)
    | '[' :: r => (readItems fuel r).map fun p => (arr p.1, p.2)
    | '{' :: '}' :: r => some (obj [], r)
    | '{' :: r => (readFields fuel r).map fun p => (obj p.1, p.2)
    | cs => (readNumber (cs.takeWhile isNumberChar)).map fun j => (j, cs.dropWhile isNumberChar)

/-- The items of a list up to its closing bracket, at least one. -/
def readItems : (fuel : Nat) → List Char → Option (List Json × List Char)
  | 0, _ => none
  | fuel + 1, cs =>
    match readValue fuel cs with
    | some (x, ',' :: r) => (readItems fuel r).map fun p => (x :: p.1, p.2)
    | some (x, ']' :: r) => some ([x], r)
    | _ => none

/-- The fields of an object up to its closing brace, at least one. -/
def readFields : (fuel : Nat) → List Char → Option (List (String × Json) × List Char)
  | 0, _ => none
  | fuel + 1, cs =>
    match cs with
    | '"' :: r =>
      match readString (r.length + 1) r with
      | some (k, ':' :: r) =>
        match readValue fuel r with
        | some (v, ',' :: r) =>
          (readFields fuel r).map fun p => ((.ofList k, v) :: p.1, p.2)
        | some (v, '}' :: r) => some ([(.ofList k, v)], r)
        | _ => none
      | _ => none
    | _ => none

end

/-- `json.loads`, of a text that holds one value and nothing else. -/
def loads (cs : List Char) : Option Json :=
  match readValue (cs.length + 1) cs with
  | some (j, []) => some j
  | _ => none

/-! ## What is written is read back -/

/-- The text of a float: of the characters of a number, and not of an integer. -/
def FloatText (repr : String) : Prop :=
  (∀ c ∈ repr.toList, isNumberChar c) ∧ ∃ c ∈ repr.toList, c ∈ ['.', 'e', 'E']

mutual

/-- Every float of the value has a text that a float is printed as. -/
def Valid : Json → Prop
  | float repr => FloatText repr
  | arr items => ValidItems items
  | obj fields => ValidFields fields
  | null | bool _ | int _ | str _ => True

def ValidItems : List Json → Prop
  | [] => True
  | x :: xs => Valid x ∧ ValidItems xs

def ValidFields : List (String × Json) → Prop
  | [] => True
  | (_, v) :: rest => Valid v ∧ ValidFields rest

end

theorem hexValue_hexDigit : ∀ d < 16, hexValue (hexDigit d) = some d := by decide

theorem readString_escape {c : Char} {cs r : List Char} (h : readEscape cs = some (c, r))
    (fuel : Nat) :
    readString (fuel + 1) ('\\' :: cs) = (readString fuel r).map fun p => (c :: p.1, p.2) := by
  rw [readString, if_neg (by decide), if_pos rfl, h]

theorem readString_escapeChar (c : Char) (fuel : Nat) (rest : List Char) :
    readString (fuel + 1) (escapeChar c ++ rest) =
      (readString fuel rest).map fun p => (c :: p.1, p.2) := by
  unfold escapeChar
  split
  · rename_i h
    subst h
    exact readString_escape rfl fuel
  split
  · rename_i h
    subst h
    exact readString_escape rfl fuel
  split
  · rename_i h
    subst h
    exact readString_escape rfl fuel
  split
  · rename_i h
    subst h
    exact readString_escape rfl fuel
  split
  · rename_i h
    subst h
    exact readString_escape rfl fuel
  split
  · rename_i h
    have hc : Char.ofNat 8 = c := h ▸ Char.ofNat_toNat c
    exact readString_escape (hc ▸ rfl) fuel
  split
  · rename_i h
    have hc : Char.ofNat 12 = c := h ▸ Char.ofNat_toNat c
    exact readString_escape (hc ▸ rfl) fuel
  split
  · rename_i h
    have hc : Char.ofNat (c.toNat / 16 * 16 + c.toNat % 16) = c := by
      rw [show c.toNat / 16 * 16 + c.toNat % 16 = c.toNat by omega]
      exact Char.ofNat_toNat c
    have hhigh := hexValue_hexDigit (c.toNat / 16) (by omega)
    have hlow := hexValue_hexDigit (c.toNat % 16) (by omega)
    refine readString_escape (r := rest) ?_ fuel
    simp [readEscape, hhigh, hlow, hc]
  · rename_i hquote hslash _ _ _ _ _ _
    rw [List.singleton_append, readString, if_neg hquote, if_neg hslash]

/-- A quoted string is read back, its opening quote being read already. -/
theorem readString_quote : ∀ (cs : List Char) (fuel : Nat) (r : List Char), cs.length < fuel →
    readString fuel (cs.flatMap escapeChar ++ '"' :: r) = some (cs, r)
  | _, 0, _, h => by omega
  | [], fuel + 1, r, _ => by rw [List.flatMap_nil, List.nil_append, readString, if_pos rfl]
  | c :: cs, fuel + 1, r, h => by
    rw [List.flatMap_cons, List.append_assoc, readString_escapeChar,
      readString_quote cs fuel r (by simpa using h)]
    rfl

/-- What follows a value does not continue a number. -/
def NoNumberHead (r : List Char) : Prop := ∀ c ∈ r.head?, isNumberChar c = false

theorem NoNumberHead.takeWhile {r : List Char} (h : NoNumberHead r) :
    r.takeWhile isNumberChar = [] := by
  cases r with
  | nil => rfl
  | cons c r => rw [List.takeWhile_cons, h c rfl]; rfl

theorem NoNumberHead.dropWhile {r : List Char} (h : NoNumberHead r) :
    r.dropWhile isNumberChar = r := by
  cases r with
  | nil => rfl
  | cons c r => rw [List.dropWhile_cons, h c rfl]; rfl

theorem isDigit_of_mem_digits {c : Char} {n : Nat} (h : c ∈ Nat.toDigits 10 n) :
    c.isDigit = true := Nat.isDigit_of_mem_toDigits (by decide) (by decide) h

theorem isNumberChar_of_isDigit {c : Char} (h : c.isDigit = true) : isNumberChar c = true := by
  simp [isNumberChar, h]

theorem not_fraction_of_isDigit {c : Char} (h : c.isDigit = true) : c ∉ ['.', 'e', 'E'] := by
  intro hc
  simp only [List.mem_cons, List.not_mem_nil, or_false] at hc
  rcases hc with rfl | rfl | rfl <;> exact absurd h (by decide)

theorem digits_no_fraction (n : Nat) :
    ((Nat.toDigits 10 n).any fun c => c ∈ ['.', 'e', 'E']) = false := by
  rw [List.any_eq_false]
  intro c hc
  simpa using not_fraction_of_isDigit (isDigit_of_mem_digits hc)

theorem ofInt_ne_nil (n : Int) : ofInt n ≠ [] := by
  unfold ofInt
  split
  · exact List.cons_ne_nil _ _
  · exact Nat.toDigits_ne_nil

theorem isNumberChar_ofInt (n : Int) : ∀ c ∈ ofInt n, isNumberChar c := by
  intro c hc
  unfold ofInt at hc
  split at hc
  · rcases List.mem_cons.1 hc with rfl | hc
    · decide
    · exact isNumberChar_of_isDigit (isDigit_of_mem_digits hc)
  · exact isNumberChar_of_isDigit (isDigit_of_mem_digits hc)

theorem readNumber_ofInt (n : Int) : readNumber (ofInt n) = some (int n) := by
  unfold readNumber
  rw [if_neg (ofInt_ne_nil n)]
  unfold ofInt
  by_cases hn : n < 0
  · have hany : (('-' :: Nat.toDigits 10 n.natAbs).any fun c => c ∈ ['.', 'e', 'E']) = false := by
      rw [List.any_cons, digits_no_fraction]
      rfl
    rw [if_pos hn, hany, if_neg (by decide), if_pos List.head?_cons, List.tail_cons,
      Nat.ofDigitChars_ten_toDigits]
    congr 2
    omega
  · have hhead : (Nat.toDigits 10 n.natAbs).head? ≠ some '-' := by
      intro h
      exact absurd (isDigit_of_mem_digits (List.mem_of_head? h)) (by decide)
    rw [if_neg hn, digits_no_fraction, if_neg (by decide), if_neg hhead,
      Nat.ofDigitChars_ten_toDigits]
    congr 2
    omega

/-- A number is read up to its end. -/
theorem readValue_number {token r : List Char} (hne : token ≠ [])
    (htoken : ∀ c ∈ token, isNumberChar c) (hr : NoNumberHead r) (fuel : Nat) :
    readValue (fuel + 1) (token ++ r) = (readNumber token).map fun j => (j, r) := by
  obtain ⟨c, cs, rfl⟩ := List.exists_cons_of_ne_nil hne
  have hc := htoken c (by simp)
  have htake : (c :: cs ++ r).takeWhile isNumberChar = c :: cs := by
    rw [List.takeWhile_append_of_pos htoken, hr.takeWhile, List.append_nil]
  have hdrop : (c :: cs ++ r).dropWhile isNumberChar = r := by
    rw [List.dropWhile_append_of_pos htoken, hr.dropWhile]
  rw [readValue, htake, hdrop]
  -- no other value starts with a character of a number
  all_goals
    intro r h
    rw [(List.cons.inj h).1] at hc
    exact absurd hc (by decide)

theorem readNumber_float {repr : String} (h : FloatText repr) :
    readNumber repr.toList = some (float repr) := by
  obtain ⟨c, hc, hfrac⟩ := h.2
  have hany : (repr.toList.any fun c => c ∈ ['.', 'e', 'E']) = true :=
    List.any_eq_true.2 ⟨c, hc, by simpa using hfrac⟩
  unfold readNumber
  rw [if_neg (List.ne_nil_of_mem hc), if_pos hany, String.ofList_toList]

theorem length_le_escaped (cs : List Char) : cs.length ≤ (cs.flatMap escapeChar).length := by
  induction cs with
  | nil => exact Nat.zero_le _
  | cons c cs ih =>
    have hc : 1 ≤ (escapeChar c).length := by
      unfold escapeChar
      split_ifs <;> simp
    rw [List.flatMap_cons, List.length_append, List.length_cons]
    omega

theorem readString_string (s : String) (r : List Char) :
    readString ((s.toList.flatMap escapeChar ++ '"' :: r).length + 1)
      (s.toList.flatMap escapeChar ++ '"' :: r) = some (s.toList, r) := by
  have hle := length_le_escaped s.toList
  exact readString_quote _ _ _ (by rw [List.length_append]; omega)

/-- A list that is not empty is read from its first item on. -/
theorem readValue_items {fuel : Nat} {cs r : List Char} {items : List Json}
    (h : readItems fuel cs = some (items, r)) :
    readValue (fuel + 1) ('[' :: cs) = some (arr items, r) := by
  rw [readValue, h]
  · rfl
  · rintro r' rfl
    cases fuel with
    | zero => cases h
    | succ fuel => cases fuel <;> cases h

theorem readValue_fields {fuel : Nat} {cs r : List Char} {fields : List (String × Json)}
    (h : readFields fuel cs = some (fields, r)) :
    readValue (fuel + 1) ('{' :: cs) = some (obj fields, r) := by
  rw [readValue, h]
  · rfl
  · rintro r' rfl
    cases fuel <;> cases h

theorem quote_append (k : String) (rest : List Char) :
    quote k ++ rest = '"' :: (k.toList.flatMap escapeChar ++ '"' :: rest) := by
  simp [quote]

/-- The last field of an object. -/
theorem readFields_last {fuel : Nat} {k : String} {v : Json} {value r : List Char}
    (h : readValue fuel (value ++ '}' :: r) = some (v, '}' :: r)) :
    readFields (fuel + 1) (quote k ++ ':' :: value ++ '}' :: r) = some ([(k, v)], r) := by
  rw [List.append_assoc, quote_append, readFields, readString_string]
  simp only [List.cons_append, h, String.ofList_toList]

/-- A field with others after it. -/
theorem readFields_more {fuel : Nat} {k : String} {v : Json} {value r r' : List Char}
    {fields : List (String × Json)} (h : readValue fuel (value ++ ',' :: r) = some (v, ',' :: r))
    (hrest : readFields fuel r = some (fields, r')) :
    readFields (fuel + 1) (quote k ++ ':' :: value ++ ',' :: r) = some ((k, v) :: fields, r') := by
  rw [List.append_assoc, quote_append, readFields, readString_string]
  simp only [List.cons_append, h, hrest, String.ofList_toList, Option.map_some]

theorem noNumberHead_cons {c : Char} (h : isNumberChar c = false) (r : List Char) :
    NoNumberHead (c :: r) := fun d hd => by
  rw [List.head?_cons, Option.mem_some_iff] at hd
  rwa [← hd]

mutual

/-- The text of a value is read back as the value, whatever follows it. -/
theorem readValue_render : ∀ (j : Json) (fuel : Nat) (r : List Char), Valid j → NoNumberHead r →
    (render j).length < fuel → readValue fuel (render j ++ r) = some (j, r)
  | _, 0, _, _, _, h => by omega
  | null, fuel + 1, r, _, _, _ => rfl
  | bool true, fuel + 1, r, _, _, _ => rfl
  | bool false, fuel + 1, r, _, _, _ => rfl
  | int n, fuel + 1, r, _, hr, _ => by
    rw [render, readValue_number (ofInt_ne_nil n) (isNumberChar_ofInt n) hr, readNumber_ofInt]
    rfl
  | float repr, fuel + 1, r, hv, hr, _ => by
    obtain ⟨c, hc, -⟩ := hv.2
    rw [render, readValue_number (List.ne_nil_of_mem hc) hv.1 hr, readNumber_float hv]
    rfl
  | str s, fuel + 1, r, _, _, _ => by
    rw [render, quote, List.append_assoc, List.cons_append, List.singleton_append, readValue,
      readString_string]
    simp
  | arr [], fuel + 1, r, _, _, _ => rfl
  | arr (x :: xs), fuel + 1, r, hv, _, h => by
    rw [render, List.length_append, List.length_cons, List.length_singleton] at h
    rw [render, List.append_assoc, List.cons_append]
    exact readValue_items (readItems_render x xs fuel r hv (by omega))
  | obj [], fuel + 1, r, _, _, _ => rfl
  | obj ((k, v) :: rest), fuel + 1, r, hv, _, h => by
    rw [render, List.length_append, List.length_cons, List.length_singleton] at h
    rw [render, List.append_assoc, List.cons_append]
    exact readValue_fields (readFields_render k v rest fuel r hv (by omega))

theorem readItems_render : ∀ (x : Json) (xs : List Json) (fuel : Nat) (r : List Char),
    ValidItems (x :: xs) → (commas (renderItems (x :: xs))).length + 1 < fuel →
    readItems fuel (commas (renderItems (x :: xs)) ++ ']' :: r) = some (x :: xs, r)
  | _, _, 0, _, _, h => by omega
  | x, [], fuel + 1, r, hv, h => by
    rw [renderItems, renderItems, commas] at h ⊢
    rw [readItems, readValue_render x fuel (']' :: r) hv.1 (noNumberHead_cons rfl r) (by omega)]
    rfl
  | x, y :: ys, fuel + 1, r, hv, h => by
    rw [renderItems, renderItems, commas, ← renderItems] at h ⊢
    rw [List.length_append, List.length_cons] at h
    have htail := readItems_render y ys fuel r hv.2 (by omega)
    rw [readItems, List.append_assoc, List.cons_append,
      readValue_render x fuel _ hv.1 (noNumberHead_cons rfl _) (by omega)]
    show (readItems fuel _).map _ = _
    rw [htail]
    rfl

theorem readFields_render : ∀ (k : String) (v : Json) (rest : List (String × Json)) (fuel : Nat)
    (r : List Char), ValidFields ((k, v) :: rest) →
    (commas (renderFields ((k, v) :: rest))).length + 1 < fuel →
    readFields fuel (commas (renderFields ((k, v) :: rest)) ++ '}' :: r) = some ((k, v) :: rest, r)
  | _, _, _, 0, _, _, h => by omega
  | k, v, [], fuel + 1, r, hv, h => by
    rw [renderFields, renderFields, commas] at h ⊢
    rw [List.length_append, List.length_cons] at h
    have hvalue := readValue_render v fuel ('}' :: r) hv.1 (noNumberHead_cons rfl r) (by omega)
    exact readFields_last hvalue
  | k, v, (k', v') :: rest, fuel + 1, r, hv, h => by
    rw [renderFields, renderFields, commas, ← renderFields] at h ⊢
    rw [List.length_append, List.length_append, List.length_cons, List.length_cons] at h
    have htail := readFields_render k' v' rest fuel r hv.2 (by omega)
    have hvalue := readValue_render v fuel
      (',' :: (commas (renderFields ((k', v') :: rest)) ++ '}' :: r)) hv.1
      (noNumberHead_cons rfl _) (by omega)
    rw [List.append_assoc, List.cons_append]
    exact readFields_more hvalue htail

end

theorem validFields_iff {fields : List (String × Json)} :
    ValidFields fields ↔ ∀ f ∈ fields, Valid f.2 := by
  induction fields with
  | nil => simp [ValidFields]
  | cons f rest ih =>
    obtain ⟨k, v⟩ := f
    rw [ValidFields, ih, List.forall_mem_cons]

mutual

theorem Valid.sorted : ∀ {j : Json}, Valid j → Valid (sorted j)
  | null, h | bool _, h | int _, h | float _, h | str _, h => h
  | arr items, h => (show ValidItems items from h).sortedItems
  | obj fields, h => by
    have hfields := validFields_iff.1 (show ValidFields fields from h).sortedFields
    exact validFields_iff.2 fun f hf => hfields f ((List.mem_insertionSort _).1 hf)

theorem ValidItems.sortedItems : ∀ {items : List Json}, ValidItems items →
    ValidItems (sortedItems items)
  | [], h => h
  | _ :: _, h => ⟨h.1.sorted, h.2.sortedItems⟩

theorem ValidFields.sortedFields : ∀ {fields : List (String × Json)}, ValidFields fields →
    ValidFields (sortedFields fields)
  | [], h => h
  | _ :: _, h => ⟨h.1.sorted, h.2.sortedFields⟩

end

/-- What is written as canonical JSON is read back with its keys in order. -/
theorem loads_canonical {j : Json} (h : Valid j) : loads (canonical j) = some (sorted j) := by
  have hread := readValue_render (sorted j) ((canonical j).length + 1) [] h.sorted nofun
    (by rw [render_sorted]; exact Nat.lt_succ_self _)
  rw [render_sorted, List.append_nil] at hread
  unfold loads
  rw [hread]

end Json

end AgenticLocalApp
