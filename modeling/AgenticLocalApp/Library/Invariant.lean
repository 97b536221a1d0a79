import AgenticLocalApp.Library.Program

/-!
# Invariants of programs

A program keeps an invariant when it ends where the invariant holds, or raises an exception of which
something is known together with where it stopped.  Programs that keep an invariant compose.
-/

namespace Prog

variable {L : Lang} {α β : Type} {C : Contract L} {I : L.State → Prop}
  {E E' : L.Err → L.State → Prop}

/-- Started where `I` holds, the program ends where it holds; of an exception `E` says where. -/
def Keeps (C : Contract L) (I : L.State → Prop) (E : L.Err → L.State → Prop) (p : Prog L α) : Prop :=
  ∀ s, I s → wp C p (after (fun _ => I) E) s

theorem keeps_pure (a : α) : Keeps C I E (pure a) := fun _ h => h

theorem keeps_query {op : L.Op} (hwait : ∀ s, I s → C.wait op s)
    (h : ∀ s a s', I s → C.rely op s a s' → I s') : Keeps C I E (query op) :=
  fun s hs => ⟨hwait s hs, fun a s' ha => h s a s' hs ha⟩

theorem Keeps.bind {p : Prog L α} {f : α → Prog L β} (hp : Keeps C I E p)
    (hf : ∀ a, Keeps C I E (f a)) : Keeps C I E (p >>= f) := by
  intro s hs
  rw [Prog.wp_bind]
  refine wp_mono (hp s hs) fun r s' hr => ?_
  cases r with
  | ok a => exact hf a s' hr
  | error e => exact hr

/-- What follows a program that keeps an invariant starts where it holds. -/
theorem Keeps.wp_bind {p : Prog L α} {f : α → Prog L β} {Q : Except L.Err β → L.State → Prop}
    {s : L.State} (hp : Keeps C I E p) (hs : I s) (herr : ∀ e s', E e s' → Q (.error e) s')
    (hok : ∀ a s', I s' → wp C (f a) Q s') : wp C (p >>= f) Q s := by
  rw [Prog.wp_bind]
  refine wp_mono (hp s hs) fun r s' hr => ?_
  cases r with
  | ok a => exact hok a s' hr
  | error e => exact herr e s' hr

theorem Keeps.mono {p : Prog L α} (hp : Keeps C I E p) (h : ∀ e s, E e s → E' e s) :
    Keeps C I E' p := by
  intro s hs
  refine wp_mono (hp s hs) fun r s' hr => ?_
  cases r with
  | ok a => exact hr
  | error e => exact h e s' hr

theorem Keeps.ite {c : Prop} [Decidable c] {p q : Prog L α} (hp : c → Keeps C I E p)
    (hq : ¬c → Keeps C I E q) : Keeps C I E (if c then p else q) := by
  split
  · exact hp ‹_›
  · exact hq ‹_›

theorem Keeps.forM {f : β → Prog L PUnit} {xs : List β} (hf : ∀ x, Keeps C I E (f x)) :
    Keeps C I E (forM xs f) := fun _ hs =>
  wp_forM (I := fun _ => I) (fun x _ s' hs' => hf x s' hs') hs

theorem Keeps.tryCatch {p : Prog L α} {h : L.Err → Prog L α} (hp : Keeps C I E p)
    (hh : ∀ e s, E e s → wp C (h e) (after (fun _ => I) E') s) :
    Keeps C I E' (tryCatch p h) := by
  intro s hs
  rw [wp_tryCatch]
  refine wp_mono (hp s hs) fun r s' hr => ?_
  cases r with
  | ok a => exact hr
  | error e => exact hh e s' hr

/-- A program that is followed by another one, whatever it came to. -/
theorem Keeps.ensure {p : Prog L α} {last : Prog L Unit} (hp : Keeps C I E p)
    (hE : ∀ e s, E e s → I s) (hlast : Keeps C I (fun _ _ => False) last)
    (hsame : ∀ e s s', E e s → I s' → E e s') : Keeps C I E (p.ensure last) := by
  intro s hs
  rw [wp_ensure]
  refine wp_mono (hp s hs) fun r s' hr => ?_
  cases r with
  | ok a =>
    refine wp_mono (hlast s' hr) fun r' s'' hr' => ?_
    cases r' with
    | ok _ => exact hr'
    | error e => exact hr'.elim
  | error e =>
    refine wp_mono (hlast s' (hE e s' hr)) fun r' s'' hr' => ?_
    cases r' with
    | ok _ => exact hsame e s' s'' hr hr'
    | error e => exact hr'.elim

section Local

variable {T : Type}

theorem Keeps.lift {N : T → Prop} {p : Prog L α} (hp : Keeps C I E p) :
    Keeps (C.withLocal T) (fun s => N s.2 ∧ I s.1) (fun e s => N s.2 ∧ E e s.1) (p.lift T) := by
  rintro ⟨s, t⟩ ⟨ht, hs⟩
  refine wp_lift_withLocal (wp_mono (hp s hs) fun r s' hr => ?_)
  cases r with
  | ok a => exact ⟨ht, hr⟩
  | error e => exact ⟨ht, hr⟩

theorem Keeps.hide {N : T → Prop} {t : T} {p : Prog (L.withLocal T) α} (ht : N t)
    (hp : Keeps (C.withLocal T) (fun s => N s.2 ∧ I s.1) (fun e s => N s.2 ∧ E e s.1) p) :
    Keeps C I E (p.hide t) := by
  intro s hs
  refine wp_hide (C.withLocal_covers T) (wp_mono (hp (s, t) ⟨ht, hs⟩) fun r s' hr => ?_)
  cases r with
  | ok a => exact hr.2
  | error e => exact hr.2

end Local

end Prog
