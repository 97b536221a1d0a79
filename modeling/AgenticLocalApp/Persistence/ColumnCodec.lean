import AgenticLocalApp.Domain.JsonText
import AgenticLocalApp.Domain.Records
import AgenticLocalApp.Persistence.DatetimeText

/-!
# Columns of the SQLite store

A column has the kind of its field's annotation: an encoder to the parameter that is bound, and a
decoder of the value that is stored.  A row is the values of the columns of a record, in the order
of its fields.  SQLite keeps text as UTF-8 and integers in 64 bits.
-/

namespace AgenticLocalApp

/-! ## Values -/

/-- The integers that SQLite stores. -/
def FitsInteger (n : Int) : Prop := -2 ^ 63 ≤ n ∧ n < 2 ^ 63

instance (n : Int) : Decidable (FitsInteger n) := inferInstanceAs (Decidable (_ ∧ _))

/-- A parameter of a statement; an integer has no bound yet. -/
inductive Param where
  | null
  | integer (n : Int)
  | text (cs : List Char)

/-- A value in a row. -/
inductive Sql where
  | null
  | integer (n : { n : Int // FitsInteger n })
  | text (cs : List Char)

/-- What an operation of the store raises. -/
inductive StoreError where
  | persistence (error : NormalizedError)
  /-- `OverflowError`, of the binding of a parameter: it is no `sqlite3.Error`. -/
  | overflow (message : String)

/-- The binding of a parameter. -/
def Param.bind : Param → Except StoreError Sql
  | .null => .ok .null
  | .integer n =>
    if h : FitsInteger n then .ok (.integer ⟨n, h⟩)
    else .error (.overflow "Python int too large to convert to SQLite INTEGER")
  | .text cs => .ok (.text cs)

/-- SQLite has room for the parameter. -/
def Param.Fits : Param → Prop
  | .integer n => FitsInteger n
  | .null | .text _ => True

/-! ## Columns -/

structure Column (α : Type) where
  encode : α → Param
  /-- Nothing where the value is refused. -/
  decode : Sql → Option α

/-- An enumeration that is stored: its members, each with a value of its own. -/
class EnumColumn (S : Type) [StrEnum S] where
  members : List S
  found : ∀ s : S, (members.find? fun t => StrEnum.value t = StrEnum.value s) = some s

namespace Column

variable {α β : Type}

def text : Column String where
  encode s := .text s.toList
  decode
    | .text cs => some (.ofList cs)
    | _ => none

def integer : Column Int where
  encode n := .integer n
  decode
    | .integer n => some n
    | _ => none

/-- An integer column of a field that is never negative. -/
def natural : Column Nat where
  encode n := .integer n
  decode
    | .integer n => if 0 ≤ n.1 then some n.1.toNat else none
    | _ => none

def boolean : Column Bool where
  encode b := .integer (if b then 1 else 0)
  decode
    | .integer n => some (n.1 ≠ 0)
    | _ => none

def datetime : Column Instant where
  encode t := .text (Timestamp.utcText t)
  decode
    | .text cs => Timestamp.fromisoformat cs
    | _ => none

def enum (S : Type) [StrEnum S] [EnumColumn S] : Column S where
  encode s := .text (StrEnum.value s).toList
  decode
    | .text cs => EnumColumn.members.find? fun t => StrEnum.value t = .ofList cs
    | _ => none

/-- A value that is dumped to JSON and validated again. -/
def json (dump : α → Json) (validate : Json → Option α) : Column α where
  encode a := .text (dump a).canonical
  decode
    | .text cs => (Json.loads cs).bind validate
    | _ => none

/-- A column whose annotation allows `None`. -/
def nullable (c : Column α) : Column (Option α) where
  encode
    | none => .null
    | some a => c.encode a
  decode
    | .null => some none
    | v => (c.decode v).map some

/-- What is stored for `a` is read back as `b`. -/
def Reads (c : Column α) (a b : α) : Prop := ∀ v, (c.encode a).bind = .ok v → c.decode v = some b

/-- No value of the column is stored as null. -/
def NeverNull (c : Column α) : Prop := ∀ a, c.encode a ≠ .null

theorem bind_integer {n : Int} {v : Sql} (h : Param.bind (.integer n) = .ok v) :
    ∃ hn : FitsInteger n, v = .integer ⟨n, hn⟩ := by
  simp only [Param.bind] at h
  split at h
  · rename_i hn
    exact ⟨hn, (Except.ok.inj h).symm⟩
  · cases h

theorem reads_text (s : String) : text.Reads s s := by
  intro v h
  obtain rfl := Except.ok.inj h
  exact congrArg some (String.ofList_toList (s := s))

theorem reads_integer (n : Int) : integer.Reads n n := by
  intro v h
  obtain ⟨hn, rfl⟩ := bind_integer h
  rfl

theorem reads_natural (n : Nat) : natural.Reads n n := by
  intro v h
  obtain ⟨hn, rfl⟩ := bind_integer h
  show (if 0 ≤ (n : Int) then some (n : Int).toNat else none) = some n
  rw [if_pos (Int.natCast_nonneg n), Int.toNat_natCast]

theorem reads_boolean (b : Bool) : boolean.Reads b b := by
  intro v h
  obtain ⟨hn, rfl⟩ := bind_integer h
  cases b <;> rfl

theorem reads_datetime {t : Instant} (ht : Timestamp.InRange t) : datetime.Reads t t := by
  intro v h
  obtain rfl := Except.ok.inj h
  exact Timestamp.fromisoformat_utcText ht

theorem reads_enum {S : Type} [StrEnum S] [EnumColumn S] (s : S) : (enum S).Reads s s := by
  intro v h
  obtain rfl := Except.ok.inj h
  show (EnumColumn.members.find? fun t => StrEnum.value t = .ofList (StrEnum.value s).toList) = _
  rw [String.ofList_toList]
  exact EnumColumn.found s

theorem reads_json {dump : α → Json} {validate : Json → Option α} {a b : α}
    (hvalid : (dump a).Valid) (h : validate (dump a).sorted = some b) :
    (json dump validate).Reads a b := by
  intro v hv
  obtain rfl := Except.ok.inj hv
  show (Json.loads (dump a).canonical).bind validate = some b
  rw [Json.loads_canonical hvalid]
  exact h

theorem bind_ne_null {p : Param} {v : Sql} (hp : p ≠ .null) (h : p.bind = .ok v) : v ≠ .null := by
  cases p with
  | null => exact absurd rfl hp
  | integer n =>
    obtain ⟨hn, rfl⟩ := bind_integer h
    simp
  | text cs =>
    obtain rfl := Except.ok.inj h
    simp

/-- A nullable column reads back what its column does. -/
theorem Reads.map {c : Column α} (hn : c.NeverNull) {f : α → α} {o : Option α}
    (h : ∀ a ∈ o, c.Reads a (f a)) : c.nullable.Reads o (o.map f) := by
  intro v hv
  cases o with
  | none =>
    obtain rfl := Except.ok.inj hv
    rfl
  | some a =>
    have hdec := h a rfl v hv
    have hnull := bind_ne_null (hn a) hv
    cases v with
    | null => exact absurd rfl hnull
    | integer n => exact congrArg (Option.map some) hdec
    | text cs => exact congrArg (Option.map some) hdec

theorem reads_nullable {c : Column α} (hn : c.NeverNull) {o : Option α}
    (h : ∀ a ∈ o, c.Reads a a) : c.nullable.Reads o o := by
  have hmap := Reads.map hn (f := id) h
  rwa [Option.map_id_fun, id_eq] at hmap

end Column

/-! ## Rows -/

/-- The columns of a record, from which an `α` is made. -/
structure Row (ρ α : Type) where
  columns : List String
  encode : ρ → List Param
  /-- The `α` at the start of the values of a row, and the values after it. -/
  decode : List Sql → Option (α × List Sql)

namespace Row

variable {ρ α β : Type}

def start (a : α) : Row ρ α := ⟨[], fun _ => [], fun vs => some (a, vs)⟩

/-- One more column. -/
def column (row : Row ρ (α → β)) (name : String) (get : ρ → α) (c : Column α) : Row ρ β where
  columns := row.columns ++ [name]
  encode r := row.encode r ++ [c.encode (get r)]
  decode vs :=
    match row.decode vs with
    | some (f, v :: rest) => (c.decode v).map fun a => (f a, rest)
    | _ => none

/-- The values of the row of a record, once they are bound. -/
def bound (row : Row ρ α) (r : ρ) : Except StoreError (List Sql) := (row.encode r).mapM Param.bind

/-- SQLite has room for the row of the record. -/
def Fits (row : Row ρ α) (r : ρ) : Prop := ∀ p ∈ row.encode r, p.Fits

/-- What is stored for `r` is read back as `a`. -/
def Reads (row : Row ρ α) (r : ρ) (a : α) : Prop :=
  ∀ vs rest, row.bound r = .ok vs → row.decode (vs ++ rest) = some (a, rest)

theorem reads_start (r : ρ) (a : α) : (start a).Reads r a := by
  intro vs rest h
  obtain rfl := Except.ok.inj h
  rfl

theorem reads_column {row : Row ρ (α → β)} {name : String} {get : ρ → α} {c : Column α} {r : ρ}
    {f : α → β} {a : α} (h : row.Reads r f) (hc : c.Reads (get r) a) :
    (row.column name get c).Reads r (f a) := by
  intro vs rest hb
  have hmap : ((row.encode r ++ [c.encode (get r)]).mapM Param.bind) = .ok vs := hb
  rw [List.mapM_append] at hmap
  cases hr : (row.encode r).mapM Param.bind with
  | error e =>
    rw [hr] at hmap
    cases hmap
  | ok us =>
    rw [hr] at hmap
    cases hv : (c.encode (get r)).bind with
    | error e =>
      simp [List.mapM_cons, hv, bind, Except.bind] at hmap
    | ok v =>
      have hvs : us ++ [v] = vs := by
        simpa [List.mapM_cons, hv, bind, Except.bind, pure, Except.pure] using hmap
      subst hvs
      have hrow : row.decode (us ++ v :: rest) = some (f, v :: rest) := h us (v :: rest) hr
      rw [List.append_assoc, List.singleton_append]
      simp only [column, hrow, hc v hv, Option.map_some]

theorem bind_isOk_iff {p : Param} : (∃ v, p.bind = .ok v) ↔ p.Fits := by
  cases p with
  | null => exact ⟨fun _ => trivial, fun _ => ⟨_, rfl⟩⟩
  | integer n =>
    constructor
    · rintro ⟨v, hv⟩
      exact (Column.bind_integer hv).1
    · intro hn
      exact ⟨_, dif_pos hn⟩
  | text cs => exact ⟨fun _ => trivial, fun _ => ⟨_, rfl⟩⟩

theorem mapM_bind_ok_iff (ps : List Param) :
    (∃ vs, ps.mapM Param.bind = .ok vs) ↔ ∀ p ∈ ps, p.Fits := by
  induction ps with
  | nil => exact ⟨fun _ => by simp, fun _ => ⟨[], rfl⟩⟩
  | cons p ps ih =>
    rw [List.forall_mem_cons, ← bind_isOk_iff, ← ih, List.mapM_cons]
    cases hp : p.bind with
    | error e => simp [bind, Except.bind]
    | ok v => cases hps : ps.mapM Param.bind <;> simp [bind, Except.bind, pure, Except.pure]

theorem bound_iff (row : Row ρ α) (r : ρ) : (∃ vs, row.bound r = .ok vs) ↔ row.Fits r :=
  mapM_bind_ok_iff _

end Row

end AgenticLocalApp
