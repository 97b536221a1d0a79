import Mathlib.Logic.Relation

/-!
# Suspendable programs

A shallow embedding of single-threaded code that reads and writes a state, may raise, and hands
control to its surroundings at well-marked points: a program is a tree whose nodes read the state,
update it, or ask the surroundings something and wait for the answer.  Nothing but an ask lets
anyone else touch the state, which is the discipline of a cooperative scheduler.

The rules below prove rely-guarantee contracts of such programs: what every update may do, what
holds whenever the program waits, and what holds when it ends, against every answer that the
surroundings are allowed to give.
-/

/-- The state a program works on, the exceptions it raises and the questions it asks. -/
structure Lang where
  State : Type
  Err : Type
  Op : Type
  Ans : Op → Type

/-- The language `L` with local variables of type `T` beside its state. -/
abbrev Lang.withLocal (L : Lang) (T : Type) : Lang where
  State := L.State × T
  Err := L.Err
  Op := L.Op
  Ans := L.Ans

/-- A program of the language `L` with result `α`. -/
inductive Prog (L : Lang) (α : Type) : Type where
  /-- The program is over: it returned or raised. -/
  | ret (r : Except L.Err α)
  /-- Read the state. -/
  | get (k : L.State → Prog L α)
  /-- Update the state. -/
  | modify (f : L.State → L.State) (k : Prog L α)
  /-- Ask and wait: the surroundings run before the program goes on with their answer. -/
  | ask (op : L.Op) (k : L.Ans op → Prog L α)
  /-- A computation that never comes back. -/
  | diverge

namespace Prog

variable {L : Lang} {α β γ : Type}

def bind : Prog L α → (α → Prog L β) → Prog L β
  | .ret (.ok a), f => f a
  | .ret (.error e), _ => .ret (.error e)
  | .get k, f => .get fun s => (k s).bind f
  | .modify g k, f => .modify g (k.bind f)
  | .ask op k, f => .ask op fun a => (k a).bind f
  | .diverge, _ => .diverge

instance : Monad (Prog L) where
  pure a := .ret (.ok a)
  bind := Prog.bind

/-- `p`, with the exceptions it raises handed to `h`. -/
def tryCatch : Prog L α → (L.Err → Prog L α) → Prog L α
  | .ret (.ok a), _ => .ret (.ok a)
  | .ret (.error e), h => h e
  | .get k, h => .get fun s => (k s).tryCatch h
  | .modify g k, h => .modify g (k.tryCatch h)
  | .ask op k, h => .ask op fun a => (k a).tryCatch h
  | .diverge, _ => .diverge

instance : MonadExcept L.Err (Prog L) where
  throw e := .ret (.error e)
  tryCatch := Prog.tryCatch

/-- `p`, with what it comes to, exception or not, as the result. -/
def attempt (p : Prog L α) : Prog L (Except L.Err α) :=
  (p.bind fun a => .ret (.ok (.ok a))).tryCatch fun e => .ret (.ok (.error e))

/-- `p`, then `last` whatever `p` came to. -/
def ensure (p : Prog L α) (last : Prog L Unit) : Prog L α := do
  let r ← p.attempt
  last
  .ret r

/-- The state as it is now. -/
def read : Prog L L.State := .get fun s => .ret (.ok s)

/-- Update the state and go on. -/
def update (f : L.State → L.State) : Prog L Unit := .modify f (.ret (.ok ()))

/-- Ask and return the answer. -/
def query (op : L.Op) : Prog L (L.Ans op) := .ask op fun a => .ret (.ok a)

/-- A result computed apart, raised or returned. -/
def ofExcept (r : Except L.Err α) : Prog L α := .ret r

theorem bind_def (p : Prog L α) (f : α → Prog L β) : p >>= f = p.bind f := rfl

@[simp] theorem tryCatch_def (p : Prog L α) (h : L.Err → Prog L α) :
    MonadExcept.tryCatch p h = p.tryCatch h := rfl

@[simp] theorem ret_ok_bind (a : α) (f : α → Prog L β) : (.ret (.ok a) : Prog L α).bind f = f a := rfl

@[simp] theorem ret_error_bind (e : L.Err) (f : α → Prog L β) :
    (.ret (.error e) : Prog L α).bind f = .ret (.error e) := rfl

@[simp] theorem get_bind (k : L.State → Prog L α) (f : α → Prog L β) :
    (Prog.get k).bind f = .get fun s => (k s).bind f := rfl

@[simp] theorem modify_bind (g : L.State → L.State) (k : Prog L α) (f : α → Prog L β) :
    (Prog.modify g k).bind f = .modify g (k.bind f) := rfl

@[simp] theorem ask_bind (op : L.Op) (k : L.Ans op → Prog L α) (f : α → Prog L β) :
    (Prog.ask op k).bind f = .ask op fun a => (k a).bind f := rfl

@[simp] theorem diverge_bind (f : α → Prog L β) : (.diverge : Prog L α).bind f = .diverge := rfl

theorem bind_pure (p : Prog L α) : p.bind (fun a => .ret (.ok a)) = p := by
  induction p with
  | ret r => cases r <;> rfl
  | get k ih => simp only [get_bind, ih]
  | modify g k ih => simp only [modify_bind, ih]
  | ask op k ih => simp only [ask_bind, ih]
  | diverge => rfl

theorem bind_assoc (p : Prog L α) (f : α → Prog L β) (g : β → Prog L γ) :
    (p.bind f).bind g = p.bind fun a => (f a).bind g := by
  induction p with
  | ret r => cases r <;> rfl
  | get k ih => simp only [get_bind, ih]
  | modify h k ih => simp only [modify_bind, ih]
  | ask op k ih => simp only [ask_bind, ih]
  | diverge => rfl

instance : LawfulMonad (Prog L) :=
  LawfulMonad.mk' (Prog L) (fun p => bind_pure p) (fun _ _ => rfl) bind_assoc

/-! ## Results computed apart -/

theorem bind_eq_ok {ε α β : Type} {x : Except ε α} {f : α → Except ε β} {b : β} :
    (x >>= f) = .ok b ↔ ∃ a, x = .ok a ∧ f a = .ok b := by
  cases x <;> simp [Bind.bind, Except.bind]

/-- A check of every element passes when each one passes. -/
theorem forM_eq_ok_iff {ε α : Type} {f : α → Except ε PUnit} {xs : List α} :
    forM xs f = .ok ⟨⟩ ↔ ∀ x ∈ xs, f x = .ok ⟨⟩ := by
  induction xs with
  | nil => simp [pure, Except.pure]
  | cons x xs ih =>
    rw [List.forM_cons, List.forall_mem_cons, ← ih]
    cases f x <;> simp [Bind.bind, Except.bind]

/-! ## Runs -/

/-- How the surroundings may answer an ask, and what they may do to the state meanwhile. -/
abbrev Rely (L : Lang) := (op : L.Op) → L.State → L.Ans op → L.State → Prop

/-- A program under way and the state it works on. -/
abbrev Config (L : Lang) (α : Type) := Prog L α × L.State

/-- One step of a program under way. -/
inductive Step (R : Rely L) : Config L α → Config L α → Prop
  | get {k : L.State → Prog L α} {s : L.State} : Step R (.get k, s) (k s, s)
  | modify {f : L.State → L.State} {k : Prog L α} {s : L.State} :
      Step R (.modify f k, s) (k, f s)
  | ask {op : L.Op} {k : L.Ans op → Prog L α} {s s' : L.State} {a : L.Ans op}
      (h : R op s a s') : Step R (.ask op k, s) (k a, s')

/-- What a run may have come to after any number of steps. -/
def Reaches (R : Rely L) : Config L α → Config L α → Prop := Relation.ReflTransGen (Step R)

/-! ## Contracts -/

/-- What a program may count on and what it owes: how asks are answered, what every update may do
to the state, what holds whenever it waits, and where it may never come back. -/
structure Contract (L : Lang) where
  rely : Rely L
  guar : L.State → L.State → Prop
  wait : L.Op → L.State → Prop
  stuck : L.State → Prop

/-- The postcondition that asks `ok` of a result and `err` of an exception. -/
def after {σ ε : Type} (ok : α → σ → Prop) (err : ε → σ → Prop) : Except ε α → σ → Prop
  | .ok a, s => ok a s
  | .error e, s => err e s

@[simp] theorem after_ok {σ ε : Type} (ok : α → σ → Prop) (err : ε → σ → Prop) (a : α) (s : σ) :
    after ok err (.ok a) s ↔ ok a s := Iff.rfl

@[simp] theorem after_error {σ ε : Type} (ok : α → σ → Prop) (err : ε → σ → Prop) (e : ε) (s : σ) :
    after ok err (.error e) s ↔ err e s := Iff.rfl

/-- From `s`, the program keeps the contract `C` and ends with `Q`, whatever the answers. -/
def wp (C : Contract L) : Prog L α → (Except L.Err α → L.State → Prop) → L.State → Prop
  | .ret r, Q, s => Q r s
  | .get k, Q, s => wp C (k s) Q s
  | .modify f k, Q, s => C.guar s (f s) ∧ wp C k Q (f s)
  | .ask op k, Q, s => C.wait op s ∧ ∀ a s', C.rely op s a s' → wp C (k a) Q s'
  | .diverge, _, s => C.stuck s

section Rules

variable {C : Contract L} {s : L.State}

@[simp] theorem wp_ret (r : Except L.Err α) (Q) : wp C (.ret r) Q s ↔ Q r s := Iff.rfl

@[simp] theorem wp_pure (a : α) (Q) : wp C (pure a) Q s ↔ Q (.ok a) s := Iff.rfl

@[simp] theorem wp_throw (e : L.Err) (Q) : wp C (throw e : Prog L α) Q s ↔ Q (.error e) s := Iff.rfl

@[simp] theorem wp_ofExcept (r : Except L.Err α) (Q) : wp C (ofExcept r) Q s ↔ Q r s := Iff.rfl

@[simp] theorem wp_read (Q) : wp C read Q s ↔ Q (.ok s) s := Iff.rfl

@[simp] theorem wp_update (f : L.State → L.State) (Q) :
    wp C (update f) Q s ↔ C.guar s (f s) ∧ Q (.ok ()) (f s) := Iff.rfl

@[simp] theorem wp_query (op : L.Op) (Q) :
    wp C (query op) Q s ↔ C.wait op s ∧ ∀ a s', C.rely op s a s' → Q (.ok a) s' := Iff.rfl

@[simp] theorem wp_diverge (Q : Except L.Err α → L.State → Prop) :
    wp C .diverge Q s ↔ C.stuck s := Iff.rfl

theorem wp_mono {p : Prog L α} {Q Q' : Except L.Err α → L.State → Prop}
    (h : wp C p Q s) (hQ : ∀ r s, Q r s → Q' r s) : wp C p Q' s := by
  induction p generalizing s with
  | ret r => exact hQ r s h
  | get k ih => exact ih s h
  | modify f k ih => exact ⟨h.1, ih h.2⟩
  | ask op k ih => exact ⟨h.1, fun a s' ha => ih a (h.2 a s' ha)⟩
  | diverge => exact h

@[simp] theorem wp_bind (p : Prog L α) (f : α → Prog L β) (Q) :
    wp C (p >>= f) Q s ↔
      wp C p (after (fun a s => wp C (f a) Q s) (fun e s => Q (.error e) s)) s := by
  rw [bind_def]
  induction p generalizing s with
  | ret r => cases r <;> rfl
  | get k ih => exact ih s
  | modify g k ih => exact and_congr_right fun _ => ih
  | ask op k ih =>
    exact and_congr_right fun _ => forall_congr' fun a => forall_congr' fun s' =>
      imp_congr_right fun _ => ih a
  | diverge => rfl

@[simp] theorem wp_tryCatch (p : Prog L α) (h : L.Err → Prog L α) (Q) :
    wp C (tryCatch p h) Q s ↔
      wp C p (after (fun a s => Q (.ok a) s) (fun e s => wp C (h e) Q s)) s := by
  induction p generalizing s with
  | ret r => cases r <;> rfl
  | get k ih => exact ih s
  | modify g k ih => exact and_congr_right fun _ => ih
  | ask op k ih =>
    exact and_congr_right fun _ => forall_congr' fun a => forall_congr' fun s' =>
      imp_congr_right fun _ => ih a
  | diverge => rfl

@[simp] theorem wp_attempt (p : Prog L α) (Q) :
    wp C p.attempt Q s ↔ wp C p (fun r s => Q (.ok r) s) s := by
  unfold attempt
  rw [wp_tryCatch, ← bind_def, wp_bind]
  constructor <;> exact fun h => wp_mono h fun r _ hr => by cases r <;> exact hr

@[simp] theorem wp_ensure (p : Prog L α) (last : Prog L Unit) (Q) :
    wp C (p.ensure last) Q s ↔
      wp C p (fun r s => wp C last (after (fun _ => Q r) (fun e => Q (.error e))) s) s := by
  unfold ensure
  simp only [wp_bind, wp_attempt, after_ok, wp_ret]

@[simp] theorem wp_ite {c : Prop} [Decidable c] (p q : Prog L α) (Q) :
    wp C (if c then p else q) Q s ↔ (c → wp C p Q s) ∧ (¬c → wp C q Q s) := by
  split <;> simp [*]

/-- The rule of a loop over a list: `I rest` holds before each round, `rest` being what is left. -/
theorem wp_forM {f : β → Prog L PUnit} {I : List β → L.State → Prop} {E : L.Err → L.State → Prop}
    (step : ∀ x rest s, I (x :: rest) s → wp C (f x) (after (fun _ => I rest) E) s) :
    ∀ {xs : List β} {s : L.State}, I xs s → wp C (forM xs f) (after (fun _ => I []) E) s
  | [], _, h => h
  | x :: xs, s, h => by
    rw [List.forM_cons, wp_bind]
    refine wp_mono (step x xs s h) fun r s' hr => ?_
    cases r with
    | ok _ => exact wp_forM step hr
    | error e => exact hr

end Rules

/-! ## What a contract says of runs -/

section Adequacy

variable {C : Contract L} {Q : Except L.Err α → L.State → Prop}

theorem wp_step {c c' : Config L α} (h : wp C c.1 Q c.2) (hs : Step C.rely c c') :
    wp C c'.1 Q c'.2 := by
  cases hs with
  | get => exact h
  | modify => exact h.2
  | ask ha => exact h.2 _ _ ha

/-- A contract kept from the start is kept from wherever the run has come to. -/
theorem wp_reaches {c c' : Config L α} (h : wp C c.1 Q c.2) (hr : Reaches C.rely c c') :
    wp C c'.1 Q c'.2 := by
  induction hr with
  | refl => exact h
  | tail _ hs ih => exact wp_step ih hs

/-- A property of the state that every update owes and every answer leaves true holds throughout. -/
theorem invariant_reaches {I : L.State → Prop} {c c' : Config L α} (h : wp C c.1 Q c.2)
    (hr : Reaches C.rely c c') (h0 : I c.2) (guar : ∀ s s', I s → C.guar s s' → I s')
    (rely : ∀ op s a s', I s → C.rely op s a s' → I s') : I c'.2 := by
  induction hr with
  | refl => exact h0
  | tail hr hs ih =>
    have hw := wp_reaches h hr
    cases hs with
    | get => exact ih
    | modify => exact guar _ _ ih hw.1
    | ask ha => exact rely _ _ _ _ ih ha

/-- A program that keeps its contract is never stuck where every ask is answered. -/
theorem wp_progress {p : Prog L α} {s : L.State}
    (answered : ∀ op s, C.wait op s → ∃ a s', C.rely op s a s') (h : wp C p Q s) :
    (∃ c, Step C.rely (p, s) c) ∨ (∃ r, p = .ret r ∧ Q r s) ∨ p = .diverge ∧ C.stuck s := by
  cases p with
  | ret r => exact .inr (.inl ⟨r, rfl, h⟩)
  | get k => exact .inl ⟨_, .get⟩
  | modify f k => exact .inl ⟨_, .modify⟩
  | ask op k =>
    obtain ⟨a, s', ha⟩ := answered op s h.1
    exact .inl ⟨_, .ask ha⟩
  | diverge => exact .inr (.inr ⟨rfl, h⟩)

/-- A program that keeps its contract has a run to its end. -/
theorem exists_end {p : Prog L α} {s : L.State}
    (answered : ∀ op s, C.wait op s → ∃ a s', C.rely op s a s') (stuck : ∀ s, ¬ C.stuck s)
    (h : wp C p Q s) : ∃ r s', Reaches C.rely (p, s) (.ret r, s') ∧ Q r s' := by
  induction p generalizing s with
  | ret r => exact ⟨r, s, .refl, h⟩
  | get k ih =>
    obtain ⟨r, s', hr, hQ⟩ := ih s h
    exact ⟨r, s', .head .get hr, hQ⟩
  | modify f k ih =>
    obtain ⟨r, s', hr, hQ⟩ := ih h.2
    exact ⟨r, s', .head .modify hr, hQ⟩
  | ask op k ih =>
    obtain ⟨a, s₁, ha⟩ := answered op s h.1
    obtain ⟨r, s', hr, hQ⟩ := ih a (h.2 a s₁ ha)
    exact ⟨r, s', .head (.ask ha) hr, hQ⟩
  | diverge => exact absurd h (stuck s)

end Adequacy

theorem step_bind {R : Rely L} {p p' : Prog L α} {s s' : L.State} (f : α → Prog L β)
    (h : Step R (p, s) (p', s')) : Step R (p >>= f, s) (p' >>= f, s') := by
  cases h with
  | get => exact .get
  | modify => exact .modify
  | ask ha => exact .ask ha

/-- What a program has come to, it has come to with more to do behind it. -/
theorem reaches_bind {R : Rely L} {p p' : Prog L α} {s s' : L.State} (f : α → Prog L β)
    (h : Reaches R (p, s) (p', s')) : Reaches R (p >>= f, s) (p' >>= f, s') :=
  Relation.ReflTransGen.lift (fun c : Config L α => (c.1 >>= f, c.2)) (fun _ _ => step_bind f) _ _ h

/-- A run of `p` from `s` may pass through the state `s'`. -/
def Passes (R : Rely L) (p : Prog L α) (s s' : L.State) : Prop := ∃ q, Reaches R (p, s) (q, s')

namespace Passes

variable {R : Rely L} {p : Prog L α} {f : α → Prog L β} {s s₁ s' : L.State}

theorem of_reaches {q : Prog L α} (h : Reaches R (p, s) (q, s')) : Passes R p s s' := ⟨q, h⟩

theorem get {k : L.State → Prog L α} (h : Passes R (k s) s s') : Passes R (.get k) s s' := by
  obtain ⟨q, hq⟩ := h
  exact ⟨q, .head .get hq⟩

theorem bind_left (h : Passes R p s s') : Passes R (p >>= f) s s' := by
  obtain ⟨q, hq⟩ := h
  exact ⟨_, reaches_bind f hq⟩

theorem bind_right {a : α} (hp : Reaches R (p, s) (.ret (.ok a), s₁)) (h : Passes R (f a) s₁ s') :
    Passes R (p >>= f) s s' := by
  obtain ⟨q, hq⟩ := h
  exact ⟨q, (reaches_bind f hp).trans hq⟩

end Passes

/-! ## Local variables -/

/-- `p` where local variables are around: it does not use them. -/
def lift (T : Type) : Prog L α → Prog (L.withLocal T) α
  | .ret r => .ret r
  | .get k => .get fun s => (k s.1).lift T
  | .modify f k => .modify (fun s => (f s.1, s.2)) (k.lift T)
  | .ask op k => .ask op fun a => (k a).lift T
  | .diverge => .diverge

/-- `p` with its local variables, `t` at first, which are gone when it ends. -/
def hide {T : Type} : (t : T) → Prog (L.withLocal T) α → Prog L α
  | _, .ret r => .ret r
  | t, .get k => .get fun s => hide t (k (s, t))
  | t, .modify f k => .get fun s => .modify (fun _ => (f (s, t)).1) (hide (f (s, t)).2 k)
  | t, .ask op k => .ask op fun a => hide t (k a)
  | _, .diverge => .diverge

section Local

variable {T : Type} {D : Contract (L.withLocal T)}

/-- What a contract says while the local variables are `t`. -/
def Contract.at (D : Contract (L.withLocal T)) (t : T) : Contract L where
  rely op s a s' := D.rely op (s, t) a (s', t)
  guar s s' := D.guar (s, t) (s', t)
  wait op s := D.wait op (s, t)
  stuck s := D.stuck (s, t)

/-- No answer touches the local variables. -/
def Contract.Local (D : Contract (L.withLocal T)) : Prop :=
  ∀ op s a s', D.rely op s a s' → s'.2 = s.2

theorem wp_lift (hD : D.Local) {p : Prog L α} {Q : Except L.Err α → L.State × T → Prop}
    {s : L.State} {t : T} (h : wp (D.at t) p (fun r s => Q r (s, t)) s) :
    wp D (p.lift T) Q (s, t) := by
  induction p generalizing s with
  | ret r => exact h
  | get k ih => exact ih s h
  | modify f k ih => exact ⟨h.1, ih h.2⟩
  | ask op k ih =>
    refine ⟨h.1, fun a s' ha => ?_⟩
    obtain ⟨s', t'⟩ := s'
    obtain rfl : t' = t := hD _ _ _ _ ha
    exact ih a (h.2 a s' ha)
  | diverge => exact h

/-- `C` asks no more of the shared state than `D` does, and promises no less. -/
structure Contract.Covers (D : Contract (L.withLocal T)) (C : Contract L) : Prop where
  rely : ∀ op s t a s', C.rely op s a s' → D.rely op (s, t) a (s', t)
  guar : ∀ s t s' t', D.guar (s, t) (s', t') → C.guar s s'
  wait : ∀ op s t, D.wait op (s, t) → C.wait op s
  stuck : ∀ s t, D.stuck (s, t) → C.stuck s

theorem wp_hide {C : Contract L} (hDC : D.Covers C) {p : Prog (L.withLocal T) α}
    {Q : Except L.Err α → L.State → Prop} {s : L.State} {t : T}
    (h : wp D p (fun r s => Q r s.1) (s, t)) : wp C (p.hide t) Q s := by
  induction p generalizing s t with
  | ret r => exact h
  | get k ih => exact ih (s, t) h
  | modify f k ih => exact ⟨hDC.guar _ _ _ _ h.1, ih h.2⟩
  | ask op k ih =>
    exact ⟨hDC.wait _ _ _ h.1, fun a s' ha => ih a (h.2 a (s', t) (hDC.rely _ _ _ _ _ ha))⟩
  | diverge => exact hDC.stuck _ _ h

/-- The contract `C` of a program that has local variables beside the state that `C` is about. -/
def Contract.withLocal (C : Contract L) (T : Type) : Contract (L.withLocal T) where
  rely op s a s' := C.rely op s.1 a s'.1 ∧ s'.2 = s.2
  guar s s' := C.guar s.1 s'.1
  wait op s := C.wait op s.1
  stuck s := C.stuck s.1

theorem Contract.withLocal_covers (C : Contract L) (T : Type) : (C.withLocal T).Covers C where
  rely _ _ _ _ _ h := ⟨h, rfl⟩
  guar _ _ _ _ h := h
  wait _ _ _ h := h
  stuck _ _ h := h

theorem wp_lift_withLocal {C : Contract L} {p : Prog L α}
    {Q : Except L.Err α → L.State × T → Prop} {s : L.State} {t : T}
    (h : wp C p (fun r s => Q r (s, t)) s) : wp (C.withLocal T) (p.lift T) Q (s, t) := by
  induction p generalizing s with
  | ret r => exact h
  | get k ih => exact ih s h
  | modify f k ih => exact ⟨h.1, ih h.2⟩
  | ask op k ih =>
    refine ⟨h.1, fun a s' ha => ?_⟩
    obtain ⟨s', t'⟩ := s'
    obtain ⟨ha, rfl⟩ := ha
    exact ih a (h.2 a s' ha)
  | diverge => exact h

end Local

/-! ## Running a program -/

/-- The surroundings as a script: the answer to the `n`-th ask, and the state it leaves. -/
abbrev Script (L : Lang) := Nat → (op : L.Op) → (s : L.State) → L.Ans op × L.State

/-- At most `fuel` steps of a run against a script, from its `n`-th answer on. -/
def drive (script : Script L) : (fuel n : Nat) → Config L α → Config L α
  | 0, _, c => c
  | _ + 1, _, (.ret r, s) => (.ret r, s)
  | fuel + 1, n, (.get k, s) => drive script fuel n (k s, s)
  | fuel + 1, n, (.modify f k, s) => drive script fuel n (k, f s)
  | fuel + 1, n, (.ask op k, s) =>
    drive script fuel (n + 1) (k (script n op s).1, (script n op s).2)
  | _ + 1, _, (.diverge, s) => (.diverge, s)

/-- A script that gives only answers that the surroundings may give leads where a run may lead. -/
theorem drive_reaches {R : Rely L} {script : Script L}
    (honest : ∀ n op s, R op s (script n op s).1 (script n op s).2) (fuel n : Nat)
    (c : Config L α) : Reaches R c (drive script fuel n c) := by
  induction fuel generalizing n c with
  | zero => exact .refl
  | succ fuel ih =>
    obtain ⟨p, s⟩ := c
    cases p with
    | ret r => exact .refl
    | get k => exact .head .get (ih n _)
    | modify f k => exact .head .modify (ih n _)
    | ask op k => exact .head (.ask (honest n op s)) (ih (n + 1) _)
    | diverge => exact .refl

end Prog
