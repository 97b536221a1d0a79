import AgenticLocalApp.Library.Program

/-!
# One contract for another

A program that keeps a contract keeps every contract that asks less of it, wherever the answers are
those that it counts on: only the questions that it asks matter.  What its writes preserve, and the
answers to it, is preserved when it ends.
-/

namespace Prog

variable {L : Lang} {α T : Type}

/-- `D` asks no more than `C` of a program that asks what `C` lets it ask. -/
structure Contract.Weaker (C D : Contract L) : Prop where
  rely : ∀ op s a s', C.wait op s → D.rely op s a s' → C.rely op s a s'
  guar : ∀ s s', C.guar s s' → D.guar s s'
  wait : ∀ op s, C.wait op s → D.wait op s
  stuck : ∀ s, C.stuck s → D.stuck s

theorem wp_weaker {C D : Contract L} (hCD : C.Weaker D) {p : Prog L α}
    {Q : Except L.Err α → L.State → Prop} {s : L.State} (h : wp C p Q s) : wp D p Q s := by
  induction p generalizing s with
  | ret r => exact h
  | get k ih => exact ih s h
  | modify f k ih => exact ⟨hCD.guar _ _ h.1, ih h.2⟩
  | ask op k ih =>
    refine ⟨hCD.wait op s h.1, fun a s' ha => ?_⟩
    exact ih a (h.2 a s' (hCD.rely op s a s' h.1 ha))
  | diverge => exact hCD.stuck s h

/-- The same, for a contract of programs with local variables, which are `t`. -/
structure Contract.WeakerAt (C : Contract L) (D : Contract (L.withLocal T)) (t : T) : Prop where
  rely : ∀ op s a s', C.wait op s → D.rely op (s, t) a s' → C.rely op s a s'.1 ∧ s'.2 = t
  guar : ∀ s s', C.guar s s' → D.guar (s, t) (s', t)
  wait : ∀ op s, C.wait op s → D.wait op (s, t)
  stuck : ∀ s, C.stuck s → D.stuck (s, t)

theorem wp_lift_weaker {C : Contract L} {D : Contract (L.withLocal T)} {t : T}
    (hCD : C.WeakerAt D t) {p : Prog L α} {Q : Except L.Err α → L.State × T → Prop} {s : L.State}
    (h : wp C p (fun r s => Q r (s, t)) s) : wp D (p.lift T) Q (s, t) := by
  induction p generalizing s with
  | ret r => exact h
  | get k ih => exact ih s h
  | modify f k ih => exact ⟨hCD.guar _ _ h.1, ih h.2⟩
  | ask op k ih =>
    refine ⟨hCD.wait op s h.1, fun a s' ha => ?_⟩
    obtain ⟨s', t'⟩ := s'
    obtain ⟨hrely, ht⟩ := hCD.rely op s a (s', t') h.1 ha
    obtain rfl : t' = t := ht
    exact ih a (h.2 a s' hrely)
  | diverge => exact hCD.stuck s h

end Prog
