import AgenticLocalApp.Domain.Canonical
import Mathlib.Algebra.BigOperators.Group.List.Basic
import Mathlib.Algebra.Order.BigOperators.Group.List
import Mathlib.Algebra.Order.Ring.Nat

/-!
# The size of a canonical text

The size of an object is a sum over its fields, whatever their order, so that it changes by as much
as one of its values does.
-/

namespace AgenticLocalApp

namespace Json

/-- The size of a text in UTF-8. -/
def textSize (cs : List Char) : Nat := (cs.map Char.utf8Size).sum

@[simp] theorem textSize_nil : textSize [] = 0 := rfl

@[simp] theorem textSize_cons (c : Char) (cs : List Char) :
    textSize (c :: cs) = c.utf8Size + textSize cs := by
  simp [textSize]

@[simp] theorem textSize_append (cs ds : List Char) :
    textSize (cs ++ ds) = textSize cs + textSize ds := by
  simp [textSize]

theorem sizeBytes_eq (j : Json) : j.sizeBytes = textSize j.canonical := rfl

/-- Every part counts one comma more, but for one. -/
theorem textSize_commas {parts : List (List Char)} (h : parts ≠ []) :
    textSize (commas parts) + 1 = (parts.map fun p => textSize p + 1).sum := by
  induction parts with
  | nil => exact absurd rfl h
  | cons p rest ih =>
    cases rest with
    | nil => simp [commas]
    | cons q rest =>
      have hrest := ih (by simp)
      have hcomma : ','.utf8Size = 1 := by decide
      rw [List.map_cons, List.sum_cons, ← hrest]
      simp only [commas, textSize_append, textSize_cons, hcomma]
      omega

theorem canonicalItems_eq (items : List Json) : canonicalItems items = items.map canonical := by
  induction items with
  | nil => rfl
  | cons x rest ih => rw [canonicalItems, ih, List.map_cons]

theorem canonicalFields_eq (fields : List (String × Json)) :
    canonicalFields fields = fields.map fun f => (f.1, f.2.canonical) := by
  induction fields with
  | nil => rfl
  | cons f rest ih =>
    obtain ⟨k, v⟩ := f
    rw [canonicalFields, ih, List.map_cons]

theorem sizeBytes_arr {items : List Json} (h : items ≠ []) :
    sizeBytes (.arr items) = 1 + (items.map fun x => x.sizeBytes + 1).sum := by
  have hne : canonicalItems items ≠ [] := by simpa [canonicalItems_eq]
  have hcommas := textSize_commas hne
  have hopen : '['.utf8Size = 1 := by decide
  have hclose : ']'.utf8Size = 1 := by decide
  rw [canonicalItems_eq, List.map_map] at hcommas
  rw [sizeBytes_eq, canonical, canonicalItems_eq]
  simp only [textSize_append, textSize_cons, textSize_nil, hopen, hclose]
  simp only [sizeBytes_eq, Function.comp_def] at hcommas ⊢
  omega

/-- A field with its colon and its comma. -/
def fieldSize (k : String) (v : Json) : Nat := textSize (quote k) + v.sizeBytes + 2

theorem sizeBytes_obj {fields : List (String × Json)} (h : fields ≠ []) :
    sizeBytes (.obj fields) = 1 + (fields.map fun f => fieldSize f.1 f.2).sum := by
  have hperm : (sortFields (canonicalFields fields)).Perm (canonicalFields fields) :=
    List.perm_insertionSort _ _
  have hne : sortFields (canonicalFields fields) ≠ [] := by
    intro hnil
    have hlen := hperm.length_eq
    rw [hnil, canonicalFields_eq, List.length_map] at hlen
    exact h (List.length_eq_zero_iff.1 hlen.symm)
  have hparts : ((sortFields (canonicalFields fields)).map fun f => quote f.1 ++ ':' :: f.2) ≠ [] :=
    by simpa
  have hcommas := textSize_commas hparts
  have hopen : '{'.utf8Size = 1 := by decide
  have hclose : '}'.utf8Size = 1 := by decide
  have hcolon : ':'.utf8Size = 1 := by decide
  rw [List.map_map, (hperm.map _).sum_eq, canonicalFields_eq, List.map_map] at hcommas
  rw [sizeBytes_eq, canonical]
  simp only [textSize_append, textSize_cons, textSize_nil, hopen, hclose]
  simp only [canonicalFields_eq, Function.comp_def, textSize_append, textSize_cons, hcolon,
    sizeBytes_eq, fieldSize] at hcommas ⊢
  have hsum : (fields.map fun f => textSize (quote f.1) + (1 + textSize f.2.canonical) + 1) =
      fields.map fun f => textSize (quote f.1) + textSize f.2.canonical + 2 :=
    List.map_congr_left fun f _ => by omega
  rw [hsum] at hcommas
  omega

/-- A field of a record, which may be absent. -/
def recordFieldSize (f : String × Option Json) : Nat := f.2.elim 0 (fieldSize f.1)

theorem sum_fieldSize_filterMap (fields : List (String × Option Json)) :
    ((fields.filterMap fun f => f.2.map fun v => (f.1, v)).map fun f => fieldSize f.1 f.2).sum =
      (fields.map recordFieldSize).sum := by
  induction fields with
  | nil => rfl
  | cons f rest ih =>
    obtain ⟨k, v⟩ := f
    cases v with
    | none =>
      rw [List.filterMap_cons_none rfl, ih]
      simp [recordFieldSize]
    | some v =>
      rw [List.filterMap_cons, Option.map_some, List.map_cons, List.sum_cons, ih]
      simp [recordFieldSize]

/-- The size of a record whose first field is always there. -/
theorem sizeBytes_record_cons (k : String) (v : Json) (rest : List (String × Option Json)) :
    sizeBytes (record ((k, some v) :: rest)) =
      1 + (fieldSize k v + (rest.map recordFieldSize).sum) := by
  have hsum := sum_fieldSize_filterMap ((k, some v) :: rest)
  unfold record
  rw [sizeBytes_obj (by simp), hsum, List.map_cons, List.sum_cons]
  rfl

/-! ## Smaller documents -/

theorem sizeBytes_arr_eq (items : List Json) :
    sizeBytes (.arr items) = 1 + max 1 (items.map fun x => x.sizeBytes + 1).sum := by
  cases items with
  | nil =>
    have hempty : sizeBytes (.arr []) = 2 := by decide +kernel
    rw [hempty]
    rfl
  | cons x rest =>
    rw [sizeBytes_arr (List.cons_ne_nil x rest), List.map_cons, List.sum_cons]
    omega

theorem sizeBytes_obj_eq (fields : List (String × Json)) :
    sizeBytes (.obj fields) = 1 + max 1 (fields.map fun f => fieldSize f.1 f.2).sum := by
  cases fields with
  | nil =>
    have hempty : sizeBytes (.obj []) = 2 := by decide +kernel
    rw [hempty]
    rfl
  | cons f rest =>
    have hfield : 0 < fieldSize f.1 f.2 := by
      unfold fieldSize
      omega
    rw [sizeBytes_obj (List.cons_ne_nil f rest), List.map_cons, List.sum_cons]
    omega

theorem sizeBytes_record_eq (fields : List (String × Option Json)) :
    sizeBytes (record fields) = 1 + max 1 (fields.map recordFieldSize).sum := by
  unfold record
  rw [sizeBytes_obj_eq, sum_fieldSize_filterMap]

/-- A list without some of its items. -/
theorem sizeBytes_arr_le {xs ys : List Json} (h : xs.Sublist ys) :
    sizeBytes (.arr xs) ≤ sizeBytes (.arr ys) := by
  have hsum := (h.map fun x => x.sizeBytes + 1).sum_le_sum fun _ _ => Nat.zero_le _
  rw [sizeBytes_arr_eq, sizeBytes_arr_eq]
  omega

/-- An object without some of its fields. -/
theorem sizeBytes_obj_le {xs ys : List (String × Json)} (h : xs.Sublist ys) :
    sizeBytes (.obj xs) ≤ sizeBytes (.obj ys) := by
  have hsum := (h.map fun f => fieldSize f.1 f.2).sum_le_sum fun _ _ => Nat.zero_le _
  rw [sizeBytes_obj_eq, sizeBytes_obj_eq]
  omega

theorem fieldSize_le {v w : Json} (k : String) (h : v.sizeBytes ≤ w.sizeBytes) :
    fieldSize k v ≤ fieldSize k w := by
  unfold fieldSize
  omega

theorem textSize_le_of_prefix {cs ds : List Char} (h : cs <+: ds) : textSize cs ≤ textSize ds := by
  obtain ⟨rest, rfl⟩ := h
  rw [textSize_append]
  omega

/-- The beginning of a text. -/
theorem sizeBytes_str_take (n : Nat) (s : String) :
    sizeBytes (.str (.ofList (s.toList.take n))) ≤ sizeBytes (.str s) := by
  have hbody : textSize ((s.toList.take n).flatMap escapeChar) ≤
      textSize (s.toList.flatMap escapeChar) := by
    apply textSize_le_of_prefix
    refine ⟨(s.toList.drop n).flatMap escapeChar, ?_⟩
    rw [← List.flatMap_append, List.take_append_drop]
  rw [sizeBytes_eq, sizeBytes_eq, canonical, canonical, quote, quote, String.toList_ofList]
  simp only [textSize_append, textSize_cons, textSize_nil]
  omega

/-- A text of letters is as long as it looks, in quotes. -/
theorem sizeBytes_replicate (n : Nat) : sizeBytes (.str (.ofList (List.replicate n 'a'))) = n + 2 := by
  have hquote : '"'.utf8Size = 1 := by decide
  have hletter : 'a'.utf8Size = 1 := by decide
  have hescape : escapeChar 'a' = ['a'] := by decide
  rw [sizeBytes_eq, canonical, quote, String.toList_ofList]
  have hbody : textSize ((List.replicate n 'a').flatMap escapeChar) = n := by
    induction n with
    | zero => rfl
    | succ n ih =>
      rw [List.replicate_succ, List.flatMap_cons, hescape, textSize_append, ih, textSize_cons,
        textSize_nil, hletter]
      omega
  simp only [textSize_append, textSize_cons, textSize_nil, hbody, hquote]
  omega

end Json

end AgenticLocalApp
