import AgenticLocalApp.Library.Table
import Mathlib.Data.List.Forall2

/-!
# Changes row by row

A table whose rows stay where they are, each of them either as it was or changed as `R` allows.
Saving over rows makes such changes, and they add up.
-/

namespace Table

open Keyed

variable {ρ κ : Type} [Keyed ρ κ]

/-- Every row of `t` is in its place in `t'`, as it was or changed as `R` says. -/
def Changed (R : ρ → ρ → Prop) (t t' : Table ρ) : Prop :=
  List.Forall₂ (fun x y => y = x ∨ R x y) t.rows t'.rows

variable {R S : ρ → ρ → Prop} {t t' t'' : Table ρ}

namespace Changed

theorem refl (R : ρ → ρ → Prop) (t : Table ρ) : t.Changed R t :=
  List.forall₂_same.2 fun _ _ => .inl rfl

theorem mono (h : t.Changed R t') (hRS : ∀ x y, R x y → S x y) : t.Changed S t' :=
  List.Forall₂.imp (fun x y hxy => hxy.imp_right (hRS x y)) h

theorem trans (hR : ∀ x y z, R x y → R y z → R x z) (h : t.Changed R t') (h' : t'.Changed R t'') :
    t.Changed R t'' := by
  unfold Changed at *
  generalize t.rows = l, t'.rows = l', t''.rows = l'' at *
  induction h generalizing l'' with
  | nil =>
    cases h'
    exact .nil
  | cons hxy _ ih =>
    cases h' with
    | cons hyz htail =>
      refine .cons ?_ (ih _ htail)
      rcases hyz with rfl | hyz
      · exact hxy
      · rcases hxy with rfl | hxy
        · exact .inr hyz
        · exact .inr (hR _ _ _ hxy hyz)

/-- What a row has become. -/
theorem of_mem (h : t.Changed R t') {x : ρ} (hx : x ∈ t.rows) :
    ∃ y ∈ t'.rows, y = x ∨ R x y := by
  unfold Changed at h
  generalize t.rows = l, t'.rows = l' at *
  induction h with
  | nil => cases hx
  | cons hxy _ ih =>
    rcases List.mem_cons.1 hx with rfl | hx
    · exact ⟨_, List.mem_cons_self, hxy⟩
    · obtain ⟨y, hy, hR⟩ := ih hx
      exact ⟨y, List.mem_cons_of_mem _ hy, hR⟩

/-- Where a row has come from. -/
theorem mem_of (h : t.Changed R t') {y : ρ} (hy : y ∈ t'.rows) :
    ∃ x ∈ t.rows, y = x ∨ R x y := by
  unfold Changed at h
  generalize t.rows = l, t'.rows = l' at *
  induction h with
  | nil => cases hy
  | cons hxy _ ih =>
    rcases List.mem_cons.1 hy with rfl | hy
    · exact ⟨_, List.mem_cons_self, hxy⟩
    · obtain ⟨x, hx, hR⟩ := ih hy
      exact ⟨x, List.mem_cons_of_mem _ hx, hR⟩

variable [DecidableEq κ] {k : κ}

theorem save_over (R : ρ → ρ → Prop) {x r : ρ} (hx : x ∈ t.rows) (hk : key r = key x)
    (hR : R x r) : t.Changed R (t.save r) := by
  have hmem : key r ∈ t.rows.map key := hk ▸ List.mem_map_of_mem hx
  unfold Changed
  rw [rows_save_of_mem hmem, List.forall₂_map_right_iff, List.forall₂_same]
  intro y hy
  by_cases hyr : key y = key r
  · rw [if_pos hyr]
    obtain rfl := key_inj hy hx (hyr.trans hk)
    exact .inr hR
  · rw [if_neg hyr]
    exact .inl rfl

theorem find_of (hkey : ∀ x y, R x y → key y = key x) (h : t.Changed R t') {y : ρ}
    (hy : t'.find k = some y) : ∃ x, t.find k = some x ∧ (y = x ∨ R x y) := by
  obtain ⟨x, hx, hxy⟩ := h.mem_of (mem_of_find hy)
  refine ⟨x, find_eq_some_iff.2 ⟨hx, ?_⟩, hxy⟩
  rcases hxy with rfl | hxy
  · exact key_of_find hy
  · exact (hkey x y hxy).symm.trans (key_of_find hy)

theorem of_find (hkey : ∀ x y, R x y → key y = key x) (h : t.Changed R t') {x : ρ}
    (hx : t.find k = some x) : ∃ y, t'.find k = some y ∧ (y = x ∨ R x y) := by
  obtain ⟨y, hy, hxy⟩ := h.of_mem (mem_of_find hx)
  refine ⟨y, find_eq_some_iff.2 ⟨hy, ?_⟩, hxy⟩
  rcases hxy with rfl | hxy
  · exact key_of_find hx
  · exact (hkey x y hxy).trans (key_of_find hx)

end Changed

end Table
