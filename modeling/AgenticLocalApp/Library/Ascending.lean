import Mathlib.Data.List.Basic

/-!
# Ascending lists

A list whose elements carry ascending numbers, cut at a number: what comes up to it, and what comes
beyond it.
-/

namespace Ascending

variable {α : Type} {key : α → Nat} {l : List α} {m n : Nat}

/-- Each element has a greater number than the ones before it. -/
def Numbered (key : α → Nat) (l : List α) : Prop := l.Pairwise fun a b => key a < key b

def upTo (key : α → Nat) (n : Nat) (l : List α) : List α := l.filter fun a => key a ≤ n

def beyond (key : α → Nat) (n : Nat) (l : List α) : List α := l.filter fun a => n < key a

theorem mem_upTo {a : α} : a ∈ upTo key n l ↔ a ∈ l ∧ key a ≤ n := by simp [upTo]

theorem mem_beyond {a : α} : a ∈ beyond key n l ↔ a ∈ l ∧ n < key a := by simp [beyond]

theorem Numbered.filter (h : Numbered key l) (p : α → Bool) : Numbered key (l.filter p) :=
  List.Pairwise.filter p h

theorem upTo_eq_self (h : ∀ a ∈ l, key a ≤ n) : upTo key n l = l :=
  List.filter_eq_self.2 fun a ha => by simpa using h a ha

theorem upTo_eq_nil (h : ∀ a ∈ l, n < key a) : upTo key n l = [] :=
  List.filter_eq_nil_iff.2 fun a ha => by simpa using h a ha

theorem beyond_eq_self (h : ∀ a ∈ l, n < key a) : beyond key n l = l :=
  List.filter_eq_self.2 fun a ha => by simpa using h a ha

theorem beyond_eq_nil (h : ∀ a ∈ l, key a ≤ n) : beyond key n l = [] :=
  List.filter_eq_nil_iff.2 fun a ha => by simpa using h a ha

theorem upTo_append (l r : List α) : upTo key n (l ++ r) = upTo key n l ++ upTo key n r :=
  List.filter_append l r

theorem beyond_append (l r : List α) : beyond key n (l ++ r) = beyond key n l ++ beyond key n r :=
  List.filter_append l r

theorem upTo_append_beyond (h : Numbered key l) (n : Nat) :
    upTo key n l ++ beyond key n l = l := by
  induction l with
  | nil => rfl
  | cons a l ih =>
    obtain ⟨ha, hl⟩ := List.pairwise_cons.1 h
    by_cases hn : key a ≤ n
    · have hup : upTo key n (a :: l) = a :: upTo key n l := List.filter_cons_of_pos (by simpa using hn)
      have hbeyond : beyond key n (a :: l) = beyond key n l :=
        List.filter_cons_of_neg (by simpa using hn)
      rw [hup, hbeyond, List.cons_append, ih hl]
    · have hall : ∀ b ∈ a :: l, n < key b := by
        intro b hb
        rcases List.mem_cons.1 hb with rfl | hb
        · omega
        · have := ha b hb
          omega
      rw [upTo_eq_nil hall, beyond_eq_self hall, List.nil_append]

/-- A cut further on goes on from an earlier one. -/
theorem upTo_append_upTo (h : Numbered key l) (hmn : m ≤ n) :
    upTo key m l ++ upTo key n (beyond key m l) = upTo key n l := by
  have hcut := congrArg (upTo key n) (upTo_append_beyond h m)
  rw [upTo_append] at hcut
  have hsame : upTo key n (upTo key m l) = upTo key m l :=
    upTo_eq_self fun a ha => Nat.le_trans (mem_upTo.1 ha).2 hmn
  rw [hsame] at hcut
  exact hcut

theorem beyond_beyond (hmn : m ≤ n) : beyond key n (beyond key m l) = beyond key n l := by
  unfold beyond
  rw [List.filter_filter]
  refine List.filter_congr fun a _ => ?_
  by_cases h : n < key a
  · simp [h, Nat.lt_of_le_of_lt hmn h]
  · simp [h]

theorem Numbered.le_last {x : α} (h : Numbered key l) (hx : l.getLast? = some x) :
    ∀ a ∈ l, key a ≤ key x := by
  obtain ⟨front, rfl⟩ := List.getLast?_eq_some_iff.1 hx
  intro a ha
  rcases List.mem_append.1 ha with ha | ha
  · exact Nat.le_of_lt ((List.pairwise_append.1 h).2.2 a ha x (List.mem_singleton_self x))
  · exact Nat.le_of_eq (congrArg key (List.mem_singleton.1 ha))

/-- Where a list is cut at the number of an element, that element is the last one before the cut. -/
theorem cut_at {x : α} {k : Nat} (h : Numbered key l) (hx : (l.take k).getLast? = some x) :
    upTo key (key x) l = l.take k ∧ beyond key (key x) l = l.drop k := by
  have hlast : ∀ a ∈ l.take k, key a ≤ key x :=
    Numbered.le_last (List.Pairwise.sublist (List.take_sublist _ _) h) hx
  have hmem : x ∈ l.take k := List.mem_of_getLast? hx
  have hrest : ∀ a ∈ l.drop k, key x < key a := by
    rw [← List.take_append_drop k l] at h
    exact fun a ha => (List.pairwise_append.1 h).2.2 x hmem a ha
  constructor
  · calc upTo key (key x) l = upTo key (key x) (l.take k ++ l.drop k) := by
          rw [List.take_append_drop]
      _ = l.take k := by rw [upTo_append, upTo_eq_self hlast, upTo_eq_nil hrest, List.append_nil]
  · calc beyond key (key x) l = beyond key (key x) (l.take k ++ l.drop k) := by
          rw [List.take_append_drop]
      _ = l.drop k := by rw [beyond_append, beyond_eq_nil hlast, beyond_eq_self hrest, List.nil_append]

end Ascending
