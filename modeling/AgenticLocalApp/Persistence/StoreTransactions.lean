import AgenticLocalApp.Library.Transactions
import AgenticLocalApp.Persistence.SqliteRecords

/-!
# Transactions in the two stores

`transaction()` nests.  The in-memory store copies its contents when a block is entered; the SQLite
store opens a transaction, and savepoints inside it.  Both do what a block should: all or nothing.
-/

namespace AgenticLocalApp

open Transactions

/-- What the code in a block raises: an error of the store, or one of its own. -/
inductive Raised (E : Type) where
  | store (error : StoreError)
  | caller (error : E)

variable {F C Op ρ E : Type}

/-! ## The in-memory store -/

/-- What is kept, and the snapshots of the open blocks, the innermost first. -/
structure MemoryBlocks (F C : Type) where
  outside : F
  contents : C
  snapshots : List C

namespace MemoryBlocks

def inside (s : MemoryBlocks F C) : Bool := !s.snapshots.isEmpty

def enter (s : MemoryBlocks F C) : MemoryBlocks F C :=
  { s with snapshots := s.contents :: s.snapshots }

/-- `_restore`, of the last snapshot. -/
def restore (s : MemoryBlocks F C) : MemoryBlocks F C :=
  match s.snapshots with
  | [] => s
  | c :: rest => { s with contents := c, snapshots := rest }

def discard (s : MemoryBlocks F C) : MemoryBlocks F C := { s with snapshots := s.snapshots.tail }

/-- `_transaction`, around a body. -/
def transaction (R : Rules F C Op ρ (Raised E))
    (body : MemoryBlocks F C → Except (Raised E) ρ × MemoryBlocks F C) (s : MemoryBlocks F C) :
    Except (Raised E) ρ × MemoryBlocks F C :=
  match R.opening s.inside s.outside with
  | (some e, f) => (.error e, { s with outside := f })
  | (none, f) =>
    match body { s with outside := f }.enter with
    | (.error e, s) => (.error e, s.restore)
    | (.ok a, s) => (.ok a, s.discard)

def run (R : Rules F C Op ρ (Raised E)) :
    Code Op ρ (Raised E) → MemoryBlocks F C → Except (Raised E) ρ × MemoryBlocks F C
  | .done r, s => (r, s)
  | .op o k, s =>
    let (r, f, c) := R.exec o s.outside s.contents
    run R (k r) { s with outside := f, contents := c }
  | .block body k, s =>
    let (r, s) := transaction R (fun s => run R body s) s
    run R (k r) s

/-- The store, with what a run came to outside and in the contents. -/
def after (s : MemoryBlocks F C) (x : Except (Raised E) ρ × F × C) :
    Except (Raised E) ρ × MemoryBlocks F C :=
  (x.1, { s with outside := x.2.1, contents := x.2.2 })

theorem transaction_eq {R : Rules F C Op ρ (Raised E)}
    (hend : ∀ inside f, R.ending inside f = (none, f))
    {t : MemoryBlocks F C → Except (Raised E) ρ × MemoryBlocks F C}
    {b : F → C → Except (Raised E) ρ × F × C} {s : MemoryBlocks F C}
    (hbody : ∀ f, t { s with outside := f }.enter =
      ({ s with outside := f }.enter).after (b f s.contents)) :
    transaction R t s =
      s.after (R.blockOn s.inside s.outside s.contents fun f => b f s.contents) := by
  unfold transaction
  cases hopen : R.opening s.inside s.outside with
  | mk refused f =>
    cases refused with
    | some e =>
      rw [Rules.blockOn_refused hopen]
      rfl
    | none =>
      rw [Rules.blockOn_opened hopen]
      simp only [hbody]
      obtain ⟨r, g, c⟩ := b f s.contents
      cases r with
      | error e => rfl
      | ok a =>
        rw [Rules.settle_ok (hend s.inside g)]
        rfl

/-- The snapshots do what a block should: the code comes to what it comes to all or nothing, and
the stack is as it was. -/
theorem run_eq {R : Rules F C Op ρ (Raised E)} (hend : ∀ inside f, R.ending inside f = (none, f))
    (code : Code Op ρ (Raised E)) (s : MemoryBlocks F C) :
    run R code s = s.after (code.run R s.inside s.outside s.contents) := by
  induction code generalizing s with
  | done r => rfl
  | op o k ih => exact ih _ _
  | block body k ihb ih =>
    have hblock := transaction_eq hend (s := s) (b := fun f c => body.run R true f c)
      (t := fun s => run R body s) fun f => ihb _
    rw [Code.run_block]
    unfold run
    rw [hblock]
    exact ih _ _

end MemoryBlocks

/-! ## The SQLite store -/

/-- The connection: what is in the database, what the transaction began from while there is one,
the savepoints inside it, the newest first, and `_tx_depth`. -/
structure SqliteBlocks (F C : Type) where
  outside : F
  contents : C
  begun : Option C
  savepoints : List (Nat × C)
  txDepth : Nat

namespace SqliteBlocks

def inside (s : SqliteBlocks F C) : Bool := s.txDepth != 0

/-! ### Statements -/

/-- `BEGIN IMMEDIATE`. -/
def beginImmediate (s : SqliteBlocks F C) : Except SqliteException (SqliteBlocks F C) :=
  match s.begun with
  | some _ => .error ⟨"OperationalError", "cannot start a transaction within a transaction"⟩
  | none => .ok { s with begun := some s.contents }

/-- `SAVEPOINT sp_n`, inside a transaction. -/
def savepoint (n : Nat) (s : SqliteBlocks F C) : Except SqliteException (SqliteBlocks F C) :=
  .ok { s with savepoints := (n, s.contents) :: s.savepoints }

/-- `ROLLBACK TO SAVEPOINT sp_n`: the newest of that name, which stays. -/
def rollbackTo (n : Nat) (s : SqliteBlocks F C) : Except SqliteException (SqliteBlocks F C) :=
  match s.savepoints.dropWhile fun p => p.1 != n with
  | [] => .error ⟨"OperationalError", s!"no such savepoint: sp_{n}"⟩
  | (m, c) :: rest => .ok { s with contents := c, savepoints := (m, c) :: rest }

/-- `RELEASE SAVEPOINT sp_n`: the newest of that name, and those inside it. -/
def release (n : Nat) (s : SqliteBlocks F C) : Except SqliteException (SqliteBlocks F C) :=
  match s.savepoints.dropWhile fun p => p.1 != n with
  | [] => .error ⟨"OperationalError", s!"no such savepoint: sp_{n}"⟩
  | _ :: rest => .ok { s with savepoints := rest }

/-- `ROLLBACK`. -/
def rollback (s : SqliteBlocks F C) : Except SqliteException (SqliteBlocks F C) :=
  match s.begun with
  | none => .error ⟨"OperationalError", "cannot rollback - no transaction is active"⟩
  | some c => .ok { s with contents := c, begun := none, savepoints := [] }

/-- `COMMIT`. -/
def commit (s : SqliteBlocks F C) : Except SqliteException (SqliteBlocks F C) :=
  match s.begun with
  | none => .error ⟨"OperationalError", "cannot commit - no transaction is active"⟩
  | some _ => .ok { s with begun := none, savepoints := [] }

/-- `_execute`, of a statement that the environment lets through. -/
def execute (s : SqliteBlocks F C)
    (statement : SqliteBlocks F C → Except SqliteException (SqliteBlocks F C)) :
    Option (Raised E) × SqliteBlocks F C :=
  match statement s with
  | .error e => (some (.store (.persistence (persistenceErrorFromSqlite e))), s)
  | .ok s => (none, s)

/-! ### Blocks -/

/-- The first statement of a block at a depth. -/
def openBlock (R : Rules F C Op ρ (Raised E)) (depth : Nat) (s : SqliteBlocks F C) :
    Option (Raised E) × SqliteBlocks F C :=
  match R.opening (depth != 0) s.outside with
  | (some e, f) => (some e, { s with outside := f })
  | (none, f) =>
    if depth = 0 then { s with outside := f }.execute beginImmediate
    else { s with outside := f }.execute (savepoint depth)

/-- `_rollback`. -/
def rollbackBlock (depth : Nat) (s : SqliteBlocks F C) : Option (Raised E) × SqliteBlocks F C :=
  if depth = 0 then s.execute rollback
  else
    match s.execute (rollbackTo depth) with
    | (some e, s) => (some e, s)
    | (none, s) => s.execute (release depth)

/-- `COMMIT` or `RELEASE`, where the environment may refuse it. -/
def endBlock (R : Rules F C Op ρ (Raised E)) (depth : Nat) (s : SqliteBlocks F C) :
    Option (Raised E) × SqliteBlocks F C :=
  match R.ending (depth != 0) s.outside with
  | (some e, f) => (some e, { s with outside := f })
  | (none, f) =>
    if depth = 0 then { s with outside := f }.execute commit
    else { s with outside := f }.execute (release depth)

/-- `_commit`: what could not be committed is rolled back. -/
def commitBlock (R : Rules F C Op ρ (Raised E)) (depth : Nat) (s : SqliteBlocks F C) :
    Option (Raised E) × SqliteBlocks F C :=
  match s.endBlock R depth with
  | (none, s) => (none, s)
  | (some e, s) =>
    if depth = 0 then
      match s.rollbackBlock 0 with
      | (some e', s) => (some e', s)
      | (none, s) => (some e, s)
    else (some e, s)

/-- `_transaction`, around a body. -/
def transaction (R : Rules F C Op ρ (Raised E))
    (body : SqliteBlocks F C → Except (Raised E) ρ × SqliteBlocks F C) (s : SqliteBlocks F C) :
    Except (Raised E) ρ × SqliteBlocks F C :=
  match s.openBlock R s.txDepth with
  | (some e, s) => (.error e, s)
  | (none, entered) =>
    match body { entered with txDepth := s.txDepth + 1 } with
    | (.error e, left) =>
      match rollbackBlock (E := E) s.txDepth { left with txDepth := s.txDepth } with
      | (some e', s) => (.error e', s)
      | (none, s) => (.error e, s)
    | (.ok a, left) =>
      match commitBlock R s.txDepth { left with txDepth := s.txDepth } with
      | (some e, s) => (.error e, s)
      | (none, s) => (.ok a, s)

def run (R : Rules F C Op ρ (Raised E)) :
    Code Op ρ (Raised E) → SqliteBlocks F C → Except (Raised E) ρ × SqliteBlocks F C
  | .done r, s => (r, s)
  | .op o k, s =>
    let (r, f, c) := R.exec o s.outside s.contents
    run R (k r) { s with outside := f, contents := c }
  | .block body k, s =>
    let (r, s) := transaction R (fun s => run R body s) s
    run R (k r) s

/-! ### A connection that is sound -/

/-- A transaction is open exactly inside a block. -/
structure Sound (s : SqliteBlocks F C) : Prop where
  begun : s.begun = none ↔ s.txDepth = 0
  savepoints : s.txDepth = 0 → s.savepoints = []

def after (s : SqliteBlocks F C) (x : Except (Raised E) ρ × F × C) :
    Except (Raised E) ρ × SqliteBlocks F C :=
  (x.1, { s with outside := x.2.1, contents := x.2.2 })

theorem Sound.after {s : SqliteBlocks F C} (h : s.Sound) (x : Except (Raised E) ρ × F × C) :
    (s.after x).2.Sound := ⟨h.begun, h.savepoints⟩

/-- The connection inside a block that was opened on `s`. -/
def entered (s : SqliteBlocks F C) (f : F) : SqliteBlocks F C :=
  if s.txDepth = 0 then { s with outside := f, begun := some s.contents, txDepth := 1 }
  else { s with
    outside := f
    savepoints := (s.txDepth, s.contents) :: s.savepoints
    txDepth := s.txDepth + 1 }

section Steps

variable {R : Rules F C Op ρ (Raised E)} {s : SqliteBlocks F C} {f g : F} {c : C} {e : Raised E}

theorem Sound.entered (h : s.Sound) (f : F) : (s.entered f).Sound := by
  unfold SqliteBlocks.entered
  by_cases hd : s.txDepth = 0
  · rw [if_pos hd]
    exact ⟨by simp, by simp⟩
  · rw [if_neg hd]
    refine ⟨?_, by simp⟩
    have hbegun : s.begun ≠ none := fun hn => hd (h.begun.1 hn)
    simp [hbegun]

@[simp] theorem entered_outside : (s.entered f).outside = f := by
  unfold entered
  split <;> rfl

@[simp] theorem entered_contents : (s.entered f).contents = s.contents := by
  unfold entered
  split <;> rfl

@[simp] theorem entered_txDepth : (s.entered f).txDepth = s.txDepth + 1 := by
  unfold entered
  split
  · rename_i hd
    simp [hd]
  · rfl

theorem openBlock_refused (h : R.opening s.inside s.outside = (some e, f)) :
    s.openBlock R s.txDepth = (some e, { s with outside := f }) := by
  unfold inside at h
  simp only [openBlock, h]

/-- The block is open, and its depth is not counted yet. -/
theorem openBlock_opened (hs : s.Sound) (h : R.opening s.inside s.outside = (none, f)) :
    s.openBlock R s.txDepth = (none, { s.entered f with txDepth := s.txDepth }) := by
  unfold inside at h
  unfold openBlock entered
  rw [h]
  by_cases hd : s.txDepth = 0
  · have hbegun : s.begun = none := hs.begun.2 hd
    simp [hd, execute, beginImmediate, hbegun]
  · simp [hd, execute, savepoint]

/-- A rollback puts back what the block was opened on. -/
theorem rollbackBlock_entered (hs : s.Sound) (f g : F) (c : C) :
    (rollbackBlock s.txDepth
      { s.entered f with outside := g, contents := c, txDepth := s.txDepth } :
      Option (Raised E) × _) = (none, { s with outside := g }) := by
  unfold rollbackBlock entered
  by_cases hd : s.txDepth = 0
  · have hbegun : s.begun = none := hs.begun.2 hd
    have hsaved : s.savepoints = [] := hs.savepoints hd
    simp [hd, execute, rollback, hbegun, hsaved]
  · simp [hd, execute, rollbackTo, release]

theorem endBlock_entered (hs : s.Sound) (h : R.ending s.inside g = (none, f)) (f₀ : F) (c : C) :
    endBlock R s.txDepth { s.entered f₀ with outside := g, contents := c, txDepth := s.txDepth } =
      (none, { s with outside := f, contents := c }) := by
  unfold inside at h
  unfold endBlock entered
  rw [h]
  by_cases hd : s.txDepth = 0
  · have hbegun : s.begun = none := hs.begun.2 hd
    have hsaved : s.savepoints = [] := hs.savepoints hd
    simp [hd, execute, commit, hbegun, hsaved]
  · simp [hd, execute, release]

theorem commitBlock_entered (hs : s.Sound) (h : R.ending s.inside g = (none, f)) (f₀ : F) (c : C) :
    commitBlock R s.txDepth
        { s.entered f₀ with outside := g, contents := c, txDepth := s.txDepth } =
      (none, { s with outside := f, contents := c }) := by
  unfold commitBlock
  rw [endBlock_entered hs h]

/-- A commit that is refused, of an outermost block, leaves what the block was opened on. -/
theorem commitBlock_refused (hs : s.Sound) (hd : s.txDepth = 0)
    (h : R.ending s.inside g = (some e, f)) (f₀ : F) (c : C) :
    commitBlock R s.txDepth
        { s.entered f₀ with outside := g, contents := c, txDepth := s.txDepth } =
      (some e, { s with outside := f }) := by
  have hback := rollbackBlock_entered (E := E) hs f₀ f c
  rw [hd] at hback
  unfold inside at h
  rw [hd] at h
  unfold commitBlock endBlock
  rw [hd, h]
  simp only [hback, if_true]

end Steps

theorem transaction_eq {R : Rules F C Op ρ (Raised E)} (hrelease : ∀ f, R.ending true f = (none, f))
    {t : SqliteBlocks F C → Except (Raised E) ρ × SqliteBlocks F C}
    {b : F → C → Except (Raised E) ρ × F × C} {s : SqliteBlocks F C} (hs : s.Sound)
    (hbody : ∀ f, t (s.entered f) = (s.entered f).after (b f s.contents)) :
    transaction R t s =
      s.after (R.blockOn s.inside s.outside s.contents fun f => b f s.contents) := by
  unfold transaction
  cases hopen : R.opening s.inside s.outside with
  | mk refused f =>
    cases refused with
    | some e =>
      rw [Rules.blockOn_refused hopen, openBlock_refused hopen]
      rfl
    | none =>
      have hentered : { s.entered f with txDepth := s.txDepth + 1 } = s.entered f := by
        rw [← entered_txDepth (s := s) (f := f)]
      rw [Rules.blockOn_opened hopen, openBlock_opened hs hopen]
      simp only [hentered, hbody]
      obtain ⟨r, g, c⟩ := b f s.contents
      cases r with
      | error e =>
        simp only [after, rollbackBlock_entered hs]
        rfl
      | ok a =>
        cases hending : R.ending s.inside g with
        | mk refused h =>
          cases refused with
          | none =>
            rw [Rules.settle_ok hending]
            simp only [after, commitBlock_entered hs hending]
          | some e =>
            have hd : s.txDepth = 0 := by
              by_contra hd
              have hin : s.inside = true := by simp [inside, hd]
              rw [hin, hrelease g] at hending
              cases hending
            rw [Rules.settle_refused hending]
            simp only [after, commitBlock_refused hs hd hending]

/-- Savepoints do what a block should: the code comes to what it comes to all or nothing, whatever
the opening and the commit of an outermost block meet, and the connection is left as deep in
transactions as it was. -/
theorem run_eq {R : Rules F C Op ρ (Raised E)} (hrelease : ∀ f, R.ending true f = (none, f))
    (code : Code Op ρ (Raised E)) {s : SqliteBlocks F C} (hs : s.Sound) :
    run R code s = s.after (code.run R s.inside s.outside s.contents) := by
  induction code generalizing s with
  | done r => rfl
  | op o k ih => exact ih _ ⟨hs.begun, hs.savepoints⟩
  | block body k ihb ih =>
    have hinside : ∀ f, (s.entered f).inside = true := by simp [inside]
    have hblock := transaction_eq hrelease hs (b := fun f c => body.run R true f c)
      (t := fun s => run R body s) fun f => by
        have hbody := ihb (hs.entered f)
        rwa [hinside, entered_outside, entered_contents] at hbody
    rw [Code.run_block]
    unfold run
    rw [hblock]
    exact ih _ ⟨hs.begun, hs.savepoints⟩

end SqliteBlocks

end AgenticLocalApp
