import Mathlib.Data.List.Basic

/-!
# Nested transactions

Code over a store that opens blocks, one inside another, and may raise and catch anywhere.  A block
that raises leaves the contents as it found them.  That is what `Code.run` says, with the contents
at hand; a store that keeps snapshots or savepoints has to come to the same.
-/

namespace Transactions

/-- Code over the operations `Op` of a store, with answers `ρ` and exceptions `ε`.  It goes on from
what an operation, or a whole block, came to: an exception may be caught there or raised again. -/
inductive Code (Op ρ ε : Type) where
  | done (r : Except ε ρ)
  | op (o : Op) (k : Except ε ρ → Code Op ρ ε)
  | block (body : Code Op ρ ε) (k : Except ε ρ → Code Op ρ ε)

/-- What a store does apart from its blocks.  `F` is the part of it that no rollback takes back; the
opening and the end of a block may be refused, for a block inside another or an outermost one. -/
structure Rules (F C Op ρ ε : Type) where
  exec : Op → F → C → Except ε ρ × F × C
  opening : Bool → F → Option ε × F
  ending : Bool → F → Option ε × F

variable {F C Op ρ ε : Type}

namespace Rules

/-- The end of a block that was opened on the contents `c`. -/
def settle (R : Rules F C Op ρ ε) (inside : Bool) (c : C) :
    Except ε ρ × F × C → Except ε ρ × F × C
  | (.error e, f, _) => (.error e, f, c)
  | (.ok a, f, c') =>
    match R.ending inside f with
    | (some e, f) => (.error e, f, c)
    | (none, f) => (.ok a, f, c')

/-- A block on the contents `c`, its body given by what it comes to. -/
def blockOn (R : Rules F C Op ρ ε) (inside : Bool) (f : F) (c : C)
    (body : F → Except ε ρ × F × C) : Except ε ρ × F × C :=
  match R.opening inside f with
  | (some e, f) => (.error e, f, c)
  | (none, f) => R.settle inside c (body f)

section Laws

variable {R : Rules F C Op ρ ε} {inside : Bool} {f g : F} {c c' : C} {e : ε} {a : ρ}
  {body : F → Except ε ρ × F × C}

theorem settle_refused (h : R.ending inside f = (some e, g)) :
    R.settle inside c (.ok a, f, c') = (.error e, g, c) := by
  simp only [settle, h]

theorem settle_ok (h : R.ending inside f = (none, g)) :
    R.settle inside c (.ok a, f, c') = (.ok a, g, c') := by
  simp only [settle, h]

theorem blockOn_refused (h : R.opening inside f = (some e, g)) :
    R.blockOn inside f c body = (.error e, g, c) := by
  simp only [blockOn, h]

theorem blockOn_opened (h : R.opening inside f = (none, g)) :
    R.blockOn inside f c body = R.settle inside c (body g) := by
  simp only [blockOn, h]

theorem settle_raises {x : Except ε ρ × F × C} (h : (R.settle inside c x).1 = .error e) :
    (R.settle inside c x).2.2 = c := by
  obtain ⟨r, f, c'⟩ := x
  cases r with
  | error e' => rfl
  | ok a =>
    cases hend : R.ending inside f with
    | mk refused g =>
      cases refused with
      | some e' => rw [settle_refused hend]
      | none =>
        rw [settle_ok hend] at h
        cases h

/-- A block that raises has changed nothing. -/
theorem blockOn_raises (h : (R.blockOn inside f c body).1 = .error e) :
    (R.blockOn inside f c body).2.2 = c := by
  cases hopen : R.opening inside f with
  | mk refused g =>
    cases refused with
    | some e' => rw [blockOn_refused hopen]
    | none =>
      rw [blockOn_opened hopen] at h ⊢
      exact settle_raises h

theorem settle_ends {x : Except ε ρ × F × C} (h : (R.settle inside c x).1 = .ok a) :
    x.1 = .ok a ∧ (R.settle inside c x).2.2 = x.2.2 := by
  obtain ⟨r, f, c'⟩ := x
  cases r with
  | error e' => cases h
  | ok b =>
    cases hend : R.ending inside f with
    | mk refused g =>
      cases refused with
      | some e' =>
        rw [settle_refused hend] at h
        cases h
      | none =>
        rw [settle_ok hend] at h ⊢
        exact ⟨h, rfl⟩

/-- A block that ends leaves what its body does. -/
theorem blockOn_ends (h : (R.blockOn inside f c body).1 = .ok a) :
    ∃ g, (body g).1 = .ok a ∧ (R.blockOn inside f c body).2.2 = (body g).2.2 := by
  cases hopen : R.opening inside f with
  | mk refused g =>
    cases refused with
    | some e' =>
      rw [blockOn_refused hopen] at h
      cases h
    | none =>
      rw [blockOn_opened hopen] at h ⊢
      exact ⟨g, settle_ends h⟩

end Laws

end Rules

namespace Code

/-- What the code comes to, all or nothing for each block; `inside` where a block is open. -/
def run (R : Rules F C Op ρ ε) : Code Op ρ ε → Bool → F → C → Except ε ρ × F × C
  | .done r, _, f, c => (r, f, c)
  | .op o k, inside, f, c =>
    let (r, f, c) := R.exec o f c
    (k r).run R inside f c
  | .block body k, inside, f, c =>
    let (r, f, c) := R.blockOn inside f c fun f => body.run R true f c
    (k r).run R inside f c

theorem run_op (R : Rules F C Op ρ ε) (o : Op) (k : Except ε ρ → Code Op ρ ε) (inside : Bool)
    (f : F) (c : C) :
    (op o k).run R inside f c = (k (R.exec o f c).1).run R inside (R.exec o f c).2.1
      (R.exec o f c).2.2 := rfl

theorem run_block (R : Rules F C Op ρ ε) (body : Code Op ρ ε) (k : Except ε ρ → Code Op ρ ε)
    (inside : Bool) (f : F) (c : C) :
    (block body k).run R inside f c =
      (k (R.blockOn inside f c fun f => body.run R true f c).1).run R inside
        (R.blockOn inside f c fun f => body.run R true f c).2.1
        (R.blockOn inside f c fun f => body.run R true f c).2.2 := rfl

/-- Every operation of the code satisfies `P`, whatever the operations and blocks come to. -/
def Only (P : Op → Prop) : Code Op ρ ε → Prop
  | .done _ => True
  | .op o k => P o ∧ ∀ r, (k r).Only P
  | .block body k => body.Only P ∧ ∀ r, (k r).Only P

/-- The operations one after another, as long as none raises. -/
def inOrder (last : ρ) : List Op → Code Op ρ ε
  | [] => .done (.ok last)
  | o :: os => .op o fun
    | .ok _ => inOrder last os
    | .error e => .done (.error e)

theorem only_inOrder {P : Op → Prop} {last : ρ} {os : List Op} (h : ∀ o ∈ os, P o) :
    (inOrder last os : Code Op ρ ε).Only P := by
  induction os with
  | nil => trivial
  | cons o os ih =>
    refine ⟨h o List.mem_cons_self, fun r => ?_⟩
    cases r with
    | ok a => exact ih fun p hp => h p (List.mem_cons_of_mem o hp)
    | error e => trivial

end Code

/-! ## Two stores with the same answers -/

section Simulation

variable {F₁ C₁ F₂ C₂ : Type}

/-- The rules answer alike: on contents related by `D` and the rest related by `G`, every operation
in `P` comes to the same, and leaves them related. -/
structure Alike (R₁ : Rules F₁ C₁ Op ρ ε) (R₂ : Rules F₂ C₂ Op ρ ε) (P : Op → Prop)
    (G : F₁ → F₂ → Prop) (D : C₁ → C₂ → Prop) : Prop where
  exec : ∀ o f₁ f₂ c₁ c₂, P o → G f₁ f₂ → D c₁ c₂ →
    (R₁.exec o f₁ c₁).1 = (R₂.exec o f₂ c₂).1 ∧
      G (R₁.exec o f₁ c₁).2.1 (R₂.exec o f₂ c₂).2.1 ∧
      D (R₁.exec o f₁ c₁).2.2 (R₂.exec o f₂ c₂).2.2
  opening : ∀ inside f₁ f₂, G f₁ f₂ →
    (R₁.opening inside f₁).1 = (R₂.opening inside f₂).1 ∧
      G (R₁.opening inside f₁).2 (R₂.opening inside f₂).2
  ending : ∀ inside f₁ f₂, G f₁ f₂ →
    (R₁.ending inside f₁).1 = (R₂.ending inside f₂).1 ∧
      G (R₁.ending inside f₁).2 (R₂.ending inside f₂).2

/-- Two runs that came to the same, and left related stores. -/
def SameEnd (G : F₁ → F₂ → Prop) (D : C₁ → C₂ → Prop) (x : Except ε ρ × F₁ × C₁)
    (y : Except ε ρ × F₂ × C₂) : Prop :=
  x.1 = y.1 ∧ G x.2.1 y.2.1 ∧ D x.2.2 y.2.2

variable {R₁ : Rules F₁ C₁ Op ρ ε} {R₂ : Rules F₂ C₂ Op ρ ε} {P : Op → Prop} {G : F₁ → F₂ → Prop}
  {D : C₁ → C₂ → Prop}

theorem Alike.settle (h : Alike R₁ R₂ P G D) (inside : Bool) {c₁ : C₁} {c₂ : C₂} (hc : D c₁ c₂)
    {x : Except ε ρ × F₁ × C₁} {y : Except ε ρ × F₂ × C₂} (hxy : SameEnd G D x y) :
    SameEnd G D (R₁.settle inside c₁ x) (R₂.settle inside c₂ y) := by
  obtain ⟨r, f₁, c₁'⟩ := x
  obtain ⟨r', f₂, c₂'⟩ := y
  obtain ⟨hr, hf, hc'⟩ := hxy
  cases hr
  cases r with
  | error e => exact ⟨rfl, hf, hc⟩
  | ok a =>
    obtain ⟨he, hg⟩ := h.ending inside f₁ f₂ hf
    cases h₁ : R₁.ending inside f₁ with
    | mk refused g₁ =>
      cases h₂ : R₂.ending inside f₂ with
      | mk refused' g₂ =>
        rw [h₁, h₂] at he hg
        cases he
        cases refused with
        | some e =>
          rw [Rules.settle_refused h₁, Rules.settle_refused h₂]
          exact ⟨rfl, hg, hc⟩
        | none =>
          rw [Rules.settle_ok h₁, Rules.settle_ok h₂]
          exact ⟨rfl, hg, hc'⟩

theorem Alike.blockOn (h : Alike R₁ R₂ P G D) (inside : Bool) {f₁ : F₁} {f₂ : F₂} {c₁ : C₁}
    {c₂ : C₂} (hf : G f₁ f₂) (hc : D c₁ c₂) {b₁ : F₁ → Except ε ρ × F₁ × C₁}
    {b₂ : F₂ → Except ε ρ × F₂ × C₂} (hb : ∀ g₁ g₂, G g₁ g₂ → SameEnd G D (b₁ g₁) (b₂ g₂)) :
    SameEnd G D (R₁.blockOn inside f₁ c₁ b₁) (R₂.blockOn inside f₂ c₂ b₂) := by
  obtain ⟨he, hg⟩ := h.opening inside f₁ f₂ hf
  cases h₁ : R₁.opening inside f₁ with
  | mk refused g₁ =>
    cases h₂ : R₂.opening inside f₂ with
    | mk refused' g₂ =>
      rw [h₁, h₂] at he hg
      cases he
      cases refused with
      | some e =>
        rw [Rules.blockOn_refused h₁, Rules.blockOn_refused h₂]
        exact ⟨rfl, hg, hc⟩
      | none =>
        rw [Rules.blockOn_opened h₁, Rules.blockOn_opened h₂]
        exact h.settle inside hc (hb g₁ g₂ hg)

/-- Code whose operations are in `P` comes to the same over stores that answer alike, at whatever
depth its blocks raise, are caught or are refused. -/
theorem Alike.run (h : Alike R₁ R₂ P G D) {code : Code Op ρ ε} (hcode : code.Only P) (inside : Bool)
    {f₁ : F₁} {f₂ : F₂} {c₁ : C₁} {c₂ : C₂} (hf : G f₁ f₂) (hc : D c₁ c₂) :
    SameEnd G D (code.run R₁ inside f₁ c₁) (code.run R₂ inside f₂ c₂) := by
  induction code generalizing inside f₁ f₂ c₁ c₂ with
  | done r => exact ⟨rfl, hf, hc⟩
  | op o k ih =>
    obtain ⟨hr, hf', hc'⟩ := h.exec o f₁ f₂ c₁ c₂ hcode.1 hf hc
    rw [Code.run_op, Code.run_op, ← hr]
    exact ih _ (hcode.2 _) inside hf' hc'
  | block body k ihb ih =>
    have hbody : ∀ g₁ g₂, G g₁ g₂ →
        SameEnd G D (body.run R₁ true g₁ c₁) (body.run R₂ true g₂ c₂) :=
      fun g₁ g₂ hg => ihb hcode.1 true hg hc
    obtain ⟨hr, hf', hc'⟩ := h.blockOn inside hf hc hbody
    rw [Code.run_block, Code.run_block, ← hr]
    exact ih _ (hcode.2 _) inside hf' hc'

end Simulation

end Transactions
