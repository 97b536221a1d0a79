import Mathlib.Data.List.Nodup
import Mathlib.Data.List.Sort

/-!
# Keyed tables

A table is a list of rows, oldest first, no two of them with the same key.  Saving a row replaces
the row of its key in place, or puts a new one at the end.
-/

/-- Rows that carry their key. -/
class Keyed (ρ : Type) (κ : outParam Type) where
  key : ρ → κ

/-- The rows of a table in insertion order, at most one per key. -/
structure Table (ρ : Type) {κ : Type} [Keyed ρ κ] where
  rows : List ρ
  keysNodup : (rows.map Keyed.key).Nodup

namespace Table

open Keyed

variable {ρ κ : Type} [Keyed ρ κ]

@[ext] theorem ext {t u : Table ρ} (h : t.rows = u.rows) : t = u := by
  cases t; cases u; cases h; rfl

def empty : Table ρ := ⟨[], List.nodup_nil⟩

theorem key_inj {t : Table ρ} {a b : ρ} (ha : a ∈ t.rows) (hb : b ∈ t.rows) (h : key a = key b) :
    a = b :=
  List.inj_on_of_nodup_map t.keysNodup ha hb h

theorem rows_nodup (t : Table ρ) : t.rows.Nodup := List.Nodup.of_map _ t.keysNodup

/-! ## Working through a table -/

/-- The rows `rest` are still to be worked on: they are in the table as they were read, and they
are all that satisfies `p`. -/
structure ToDo (t : Table ρ) (rest : List ρ) (p : ρ → Prop) : Prop where
  nodup : rest.Nodup
  sub : ∀ x ∈ rest, x ∈ t.rows
  all : ∀ x ∈ t.rows, p x → x ∈ rest

namespace ToDo

variable {t : Table ρ} {x : ρ} {rest : List ρ} {p : ρ → Prop}

theorem of_perm_filter {q : ρ → Bool} (h : rest.Perm (t.rows.filter q))
    (hp : ∀ x ∈ t.rows, p x → q x) : ToDo t rest p where
  nodup := h.nodup_iff.2 (t.rows_nodup.filter _)
  sub _ hx := (List.mem_filter.1 (h.mem_iff.1 hx)).1
  all x hx hpx := h.mem_iff.2 (List.mem_filter.2 ⟨hx, hp x hx hpx⟩)

theorem head (h : ToDo t (x :: rest) p) : x ∈ t.rows := h.sub x List.mem_cons_self

theorem skip (h : ToDo t (x :: rest) p) (hx : ¬ p x) : ToDo t rest p where
  nodup := (List.nodup_cons.1 h.nodup).2
  sub y hy := h.sub y (List.mem_cons_of_mem _ hy)
  all y hy hpy := (List.mem_cons.1 (h.all y hy hpy)).resolve_left fun e => hx (e ▸ hpy)

theorem done (h : ToDo t [] p) (hx : x ∈ t.rows) : ¬ p x := fun hpx => by
  simpa using h.all x hx hpx

end ToDo

/-! ## Find and save -/

variable [DecidableEq κ]

/-- The row stored under `k`. -/
def find (t : Table ρ) (k : κ) : Option ρ := t.rows.find? fun r => key r = k

/-- The rows after saving `r`. -/
def saveRows (rows : List ρ) (r : ρ) : List ρ :=
  if key r ∈ rows.map key then rows.map fun x => if key x = key r then r else x else rows ++ [r]

theorem keys_replace (rows : List ρ) (r : ρ) :
    (rows.map fun x => if key x = key r then r else x).map key = rows.map key := by
  rw [List.map_map]
  refine List.map_congr_left fun x _ => ?_
  by_cases h : key x = key r <;> simp [h]

theorem keys_saveRows (rows : List ρ) (r : ρ) :
    (saveRows rows r).map key =
      if key r ∈ rows.map key then rows.map key else rows.map key ++ [key r] := by
  unfold saveRows
  split
  · exact keys_replace rows r
  · rw [List.map_append, List.map_singleton]

theorem nodup_saveRows {rows : List ρ} (h : (rows.map key).Nodup) (r : ρ) :
    ((saveRows rows r).map key).Nodup := by
  rw [keys_saveRows]
  split
  · exact h
  · rename_i hr
    exact List.nodup_append.2 ⟨h, List.nodup_singleton _, fun a ha b hb => by
      rw [List.mem_singleton.1 hb]
      exact fun e => hr (e ▸ ha)⟩

/-- Save `r` under its key. -/
def save (t : Table ρ) (r : ρ) : Table ρ := ⟨saveRows t.rows r, nodup_saveRows t.keysNodup r⟩

/-- Save the rows of a list, in order. -/
def saveAll (t : Table ρ) (rs : List ρ) : Table ρ := rs.foldl save t

/-- The table of the rows of a list, saved in order. -/
def ofRows (rs : List ρ) : Table ρ := empty.saveAll rs

/-! ## Reading a table -/

variable {t : Table ρ} {k : κ} {r x : ρ}

@[grind =] theorem find_eq_some_iff : t.find k = some r ↔ r ∈ t.rows ∧ key r = k := by
  unfold find
  constructor
  · intro h
    exact ⟨List.mem_of_find?_eq_some h, by simpa using List.find?_some h⟩
  · rintro ⟨hr, rfl⟩
    obtain ⟨x, hx⟩ : ∃ x, t.rows.find? (fun y => key y = key r) = some x := by
      rw [← Option.isSome_iff_exists, List.find?_isSome]
      exact ⟨r, hr, by simp⟩
    rw [hx, key_inj (List.mem_of_find?_eq_some hx) hr (by simpa using List.find?_some hx)]

theorem find_eq_none_iff : t.find k = none ↔ ∀ r ∈ t.rows, key r ≠ k := by
  simp [find]

theorem key_of_find (h : t.find k = some r) : key r = k := (find_eq_some_iff.1 h).2

theorem mem_of_find (h : t.find k = some r) : r ∈ t.rows := (find_eq_some_iff.1 h).1

theorem find_of_mem (h : r ∈ t.rows) : t.find (key r) = some r := find_eq_some_iff.2 ⟨h, rfl⟩

/-! ## Reading a table after a save -/

theorem rows_save_of_mem (h : key r ∈ t.rows.map key) :
    (t.save r).rows = t.rows.map fun x => if key x = key r then r else x := if_pos h

theorem rows_save_of_not_mem (h : key r ∉ t.rows.map key) : (t.save r).rows = t.rows ++ [r] :=
  if_neg h

theorem mem_save : x ∈ (t.save r).rows ↔ x = r ∨ x ∈ t.rows ∧ key x ≠ key r := by
  by_cases h : key r ∈ t.rows.map key
  · rw [rows_save_of_mem h]
    constructor
    · intro hx
      obtain ⟨y, hy, rfl⟩ := List.mem_map.1 hx
      split
      · exact .inl rfl
      · rename_i hne
        exact .inr ⟨hy, hne⟩
    · rintro (rfl | ⟨hx, hne⟩)
      · obtain ⟨y, hy, he⟩ := List.mem_map.1 h
        exact List.mem_map.2 ⟨y, hy, by simp [he]⟩
      · exact List.mem_map.2 ⟨x, hx, by simp [hne]⟩
  · rw [rows_save_of_not_mem h, List.mem_append, List.mem_singleton]
    constructor
    · rintro (hx | rfl)
      · exact .inr ⟨hx, fun e => h (e ▸ List.mem_map_of_mem hx)⟩
      · exact .inl rfl
    · rintro (rfl | ⟨hx, _⟩)
      · exact .inr rfl
      · exact .inl hx

@[simp] theorem find_save_self (t : Table ρ) (r : ρ) : (t.save r).find (key r) = some r :=
  find_eq_some_iff.2 ⟨mem_save.2 (.inl rfl), rfl⟩

theorem find_save_of_ne (h : key r ≠ k) : (t.save r).find k = t.find k := by
  refine Option.ext fun x => ?_
  rw [find_eq_some_iff, find_eq_some_iff, mem_save]
  constructor
  · rintro ⟨rfl | ⟨hx, _⟩, rfl⟩
    · exact absurd rfl h
    · exact ⟨hx, rfl⟩
  · rintro ⟨hx, rfl⟩
    exact ⟨.inr ⟨hx, fun e => h e.symm⟩, rfl⟩

theorem find_save (t : Table ρ) (r : ρ) (k : κ) :
    (t.save r).find k = if key r = k then some r else t.find k := by
  split
  · rename_i h
    exact h ▸ find_save_self t r
  · rename_i h
    exact find_save_of_ne h

theorem find_saveAll_of_notMem {rs : List ρ} (h : k ∉ rs.map key) :
    (t.saveAll rs).find k = t.find k := by
  induction rs generalizing t with
  | nil => rfl
  | cons r rs ih =>
    rw [List.map_cons, List.mem_cons, not_or] at h
    exact (ih h.2).trans (find_save_of_ne fun e => h.1 e.symm)

/-- Each of the rows saved is found again, provided that no two of them share a key. -/
theorem find_saveAll_of_mem {rs : List ρ} (hn : (rs.map key).Nodup) (h : r ∈ rs) :
    (t.saveAll rs).find (key r) = some r := by
  induction rs generalizing t with
  | nil => cases h
  | cons x rs ih =>
    rw [List.map_cons, List.nodup_cons] at hn
    rcases List.mem_cons.1 h with rfl | h
    · exact (find_saveAll_of_notMem hn.1).trans (find_save_self _ _)
    · exact ih hn.2 h

/-- Saving over a row `x` changes that row and no other. -/
theorem mem_save_over {y : ρ} (hx : x ∈ t.rows) (hk : key r = key x) :
    y ∈ (t.save r).rows ↔ y = r ∨ y ∈ t.rows ∧ y ≠ x := by
  rw [mem_save]
  refine or_congr_right (and_congr_right fun hy => not_congr ⟨fun h => ?_, fun h => ?_⟩)
  · exact key_inj hy hx (h.trans hk)
  · rw [h, hk]

/-- Two readings of a table agree across a save over `x` when they agree on every row. -/
theorem map_save_over {γ : Type} {g g' : ρ → γ} (hx : x ∈ t.rows) (hk : key r = key x)
    (hr : g' r = g x) (h : ∀ y ∈ t.rows, y ≠ x → g' y = g y) :
    (t.save r).rows.map g' = t.rows.map g := by
  have hmem : key r ∈ t.rows.map key := hk ▸ List.mem_map_of_mem hx
  rw [rows_save_of_mem hmem, List.map_map]
  refine List.map_congr_left fun y hy => ?_
  by_cases hyx : y = x
  · simp [hyx, hk, hr]
  · have : key y ≠ key r := fun e => hyx (key_inj hy hx (e.trans hk))
    simp [this, h y hy hyx]

/-- The first row is done with once a row that no longer satisfies `p` is saved over it. -/
theorem ToDo.save {rest : List ρ} {p : ρ → Prop} (h : ToDo t (x :: rest) p) (hk : key r = key x)
    (hr : ¬ p r) : ToDo (t.save r) rest p where
  nodup := (List.nodup_cons.1 h.nodup).2
  sub y hy := by
    refine (mem_save_over h.head hk).2 (.inr ⟨h.sub y (List.mem_cons_of_mem _ hy), ?_⟩)
    rintro rfl
    exact (List.nodup_cons.1 h.nodup).1 hy
  all y hy hpy := by
    rcases (mem_save_over h.head hk).1 hy with rfl | ⟨hy, hne⟩
    · exact absurd hpy hr
    · exact (List.mem_cons.1 (h.all y hy hpy)).resolve_left hne

/-- The first row is still the first one to do when another record of it is saved over it. -/
theorem ToDo.replace {rest : List ρ} {p : ρ → Prop} (h : ToDo t (x :: rest) p)
    (hk : key r = key x) : ToDo (t.save r) (r :: rest) p where
  nodup := by
    refine List.nodup_cons.2 ⟨fun hr => ?_, (List.nodup_cons.1 h.nodup).2⟩
    have hrt := h.sub r (List.mem_cons_of_mem _ hr)
    rw [key_inj hrt h.head hk] at hr
    exact (List.nodup_cons.1 h.nodup).1 hr
  sub y hy := by
    rw [mem_save_over h.head hk]
    refine (List.mem_cons.1 hy).imp_right fun hy => ⟨h.sub y (List.mem_cons_of_mem _ hy), ?_⟩
    rintro rfl
    exact (List.nodup_cons.1 h.nodup).1 hy
  all y hy hpy := by
    rw [List.mem_cons]
    refine ((mem_save_over h.head hk).1 hy).imp_right fun hy => ?_
    exact (List.mem_cons.1 (h.all y hy.1 hpy)).resolve_left hy.2

/-- Saving over a row that a filter treats alike keeps what the filter selects, in order. -/
theorem filter_save_congr {p : ρ → Bool} (hr : t.find (key r) = some x) (hx : p x = false)
    (hr' : p r = false) : (t.save r).rows.filter p = t.rows.filter p := by
  have hmem : key r ∈ t.rows.map key :=
    List.mem_map.2 ⟨x, mem_of_find hr, key_of_find hr⟩
  rw [rows_save_of_mem hmem, List.filter_map]
  have : ∀ y ∈ t.rows.filter (p ∘ fun x => if key x = key r then r else x),
      (if key y = key r then r else y) = y := by
    intro y hy
    split
    · rename_i he
      have := List.of_mem_filter hy
      simp [he, hr'] at this
    · rfl
  rw [List.map_congr_left this, List.map_id']
  refine List.filter_congr fun y hy => ?_
  simp only [Function.comp]
  split
  · rename_i he
    rw [key_inj hy (mem_of_find hr) (he.trans (key_of_find hr).symm), hx, hr']
  · rfl

/-- A filter that selects neither the row saved nor the one it replaces selects what it did. -/
theorem filter_save_of_not {p : ρ → Bool} (hr : p r = false)
    (h : ∀ x ∈ t.rows, key x = key r → p x = false) :
    (t.save r).rows.filter p = t.rows.filter p := by
  by_cases hmem : key r ∈ t.rows.map key
  · obtain ⟨x, hx, hk⟩ := List.mem_map.1 hmem
    exact filter_save_congr (find_eq_some_iff.2 ⟨hx, hk⟩) (h x hx hk) hr
  · rw [rows_save_of_not_mem hmem, List.filter_append, List.filter_cons_of_neg (by simp [hr]),
      List.filter_nil, List.append_nil]

theorem filter_saveAll_of_not {p : ρ → Bool} {rs : List ρ} (hr : ∀ r ∈ rs, p r = false)
    (h : ∀ r ∈ rs, ∀ x, key x = key r → p x = false) :
    (t.saveAll rs).rows.filter p = t.rows.filter p := by
  induction rs generalizing t with
  | nil => rfl
  | cons r rs ih =>
    refine (ih (fun x hx => hr x (List.mem_cons_of_mem _ hx))
      fun x hx => h x (List.mem_cons_of_mem _ hx)).trans ?_
    exact filter_save_of_not (hr r List.mem_cons_self) fun x _ => h r List.mem_cons_self x

end Table
