import AgenticLocalApp.Domain.Records

/-!
# Validated records

A record as the validation library sees it: named fields, each of a type, and a new record made of
an old one and a dictionary of changes.  What becomes of a value of another type than its field's is
up to the library; a value of that type is kept.
-/

namespace AgenticLocalApp

/-- The types of the fields. -/
inductive FieldType where
  | str | optionalStr | int | bool | datetime | optionalDatetime | dict | optionalDict
  | sessionState | conversationState | contextWindowState | sessionBudget
  deriving DecidableEq, Repr

/-- The values of a type. -/
abbrev FieldType.Carrier : FieldType → Type
  | .str => String
  | .optionalStr => Option String
  | .int => Int
  | .bool => Bool
  | .datetime => Instant
  | .optionalDatetime => Option Instant
  | .dict => List (String × Json)
  | .optionalDict => Option (List (String × Json))
  | .sessionState => SessionState
  | .conversationState => ConversationState
  | .contextWindowState => ContextWindowState
  | .sessionBudget => SessionBudget

/-- Whatever a caller passes for a field. -/
inductive PyValue where
  | none
  | str (s : String)
  | int (n : Int)
  | bool (b : Bool)
  | datetime (t : Instant)
  | dict (members : List (String × Json))
  | sessionState (s : SessionState)
  | conversationState (s : ConversationState)
  | contextWindowState (s : ContextWindowState)
  | sessionBudget (b : SessionBudget)
  | other (repr : String)

/-- A value of a type, as a caller passes it. -/
def FieldType.value : (t : FieldType) → t.Carrier → PyValue
  | .str, s => .str s
  | .optionalStr, s => s.elim .none .str
  | .int, n => .int n
  | .bool, b => .bool b
  | .datetime, t => .datetime t
  | .optionalDatetime, t => t.elim .none .datetime
  | .dict, d => .dict d
  | .optionalDict, d => d.elim .none .dict
  | .sessionState, s => .sessionState s
  | .conversationState, s => .conversationState s
  | .contextWindowState, s => .contextWindowState s
  | .sessionBudget, b => .sessionBudget b

/-- The validation library: what it makes of a value for a field, and the text of its refusal. -/
structure Pydantic where
  validate : (t : FieldType) → PyValue → Option t.Carrier
  refusal : List (String × PyValue) → String
  /-- A value of the type of the field is kept. -/
  validate_value : ∀ t c, validate t (t.value c) = some c

/-- The value of a type that `v` is, if it is one. -/
def FieldType.strict : (t : FieldType) → PyValue → Option t.Carrier
  | .str, .str s => some s
  | .optionalStr, .str s => some (some s)
  | .optionalStr, .none => some none
  | .int, .int n => some n
  | .bool, .bool b => some b
  | .datetime, .datetime t => some t
  | .optionalDatetime, .datetime t => some (some t)
  | .optionalDatetime, .none => some none
  | .dict, .dict d => some d
  | .optionalDict, .dict d => some (some d)
  | .optionalDict, .none => some none
  | .sessionState, .sessionState s => some s
  | .conversationState, .conversationState s => some s
  | .contextWindowState, .contextWindowState s => some s
  | .sessionBudget, .sessionBudget b => some b
  | _, _ => none

/-- A library that converts nothing. -/
def Pydantic.strict : Pydantic where
  validate := FieldType.strict
  refusal _ := "validation error"
  validate_value t c := by
    cases t with
    | optionalStr | optionalDatetime | optionalDict => cases c <;> rfl
    | _ => rfl

/-! ## Dictionaries of changes -/

/-- What follows `**`, no name twice. -/
abbrev Kwargs := List (String × PyValue)

namespace Kwargs

variable (d : Kwargs) (k : String) (v : PyValue)

/-- `d[k] = v`. -/
def setItem : Kwargs := (k, v) :: d.filter fun item => item.1 ≠ k

/-- `d.setdefault(k, v)`. -/
def setdefault : Kwargs := if k ∈ d.map Prod.fst then d else (k, v) :: d

variable {d k v} {k' : String}

theorem lookup_cons_ne (h : k' ≠ k) : List.lookup k' ((k, v) :: d) = d.lookup k' := by
  rw [List.lookup_cons, beq_false_of_ne h]

theorem lookup_filter_ne (h : k' ≠ k) : List.lookup k' (d.filter fun item => item.1 ≠ k) = d.lookup k' := by
  induction d with
  | nil => rfl
  | cons item rest ih =>
    obtain ⟨name, value⟩ := item
    by_cases hname : name = k
    · subst hname
      rw [List.filter_cons_of_neg (by simp), ih, lookup_cons_ne h]
    · rw [List.filter_cons_of_pos (by simpa using hname), List.lookup_cons, List.lookup_cons, ih]

theorem lookup_setItem : (d.setItem k v).lookup k = some v := by
  rw [setItem, List.lookup_cons, beq_self_eq_true]

theorem lookup_setItem_ne (h : k' ≠ k) : (d.setItem k v).lookup k' = d.lookup k' := by
  rw [setItem, lookup_cons_ne h, lookup_filter_ne h]

theorem lookup_setdefault_ne (h : k' ≠ k) : (d.setdefault k v).lookup k' = d.lookup k' := by
  unfold setdefault
  split
  · rfl
  · exact lookup_cons_ne h

theorem lookup_eq_none (h : k ∉ d.map Prod.fst) : d.lookup k = none := by
  rw [List.lookup_eq_none_iff]
  exact fun item hitem => bne_iff_ne.2 fun e => h (List.mem_map.2 ⟨item, hitem, e.symm⟩)

end Kwargs

/-! ## Records -/

/-- A kind of record: its fields, their names and their types. -/
class RecordModel (F : Type) where
  name : F → String
  type : F → FieldType
  fields : List F
  mem_fields : ∀ f, f ∈ fields

/-- A record: a value of its type for every field. -/
@[ext] structure ModelRow (F : Type) [RecordModel F] where
  value : (f : F) → (RecordModel.type f).Carrier

namespace ModelRow

variable {F : Type} [RecordModel F] (library : Pydantic) (record : ModelRow F) (changes : Kwargs)

/-- The value of a field of the record with the changes applied, validated. -/
def validated (f : F) : Option (RecordModel.type f).Carrier :=
  match changes.lookup (RecordModel.name f) with
  | none => some (record.value f)
  | some v => library.validate (RecordModel.type f) v

/-- Every change names a field, and every field has a valid value. -/
def Valid : Prop :=
  (∀ change ∈ changes, change.1 ∈ RecordModel.fields.map (RecordModel.name (F := F))) ∧
    ∀ f ∈ RecordModel.fields, (record.validated library changes f).isSome

instance : Decidable (record.Valid library changes) := by unfold Valid; infer_instance

/-- `_apply`: a new record, `record` with `changes` applied. -/
def apply : Except Exc (ModelRow F) :=
  if h : record.Valid library changes then
    .ok ⟨fun f => (record.validated library changes f).get (h.2 f (RecordModel.mem_fields f))⟩
  else .error (.valueError (library.refusal changes))

variable {library record changes} {record' : ModelRow F} {f : F}

theorem apply_field (h : record.apply library changes = .ok record') :
    record.validated library changes f = some (record'.value f) := by
  unfold apply at h
  split at h
  · obtain rfl := Except.ok.inj h
    exact (Option.some_get _).symm
  · cases h

/-- Changes that name fields only make the record whose fields they validate to. -/
theorem apply_eq_ok
    (hnames : ∀ k ∈ changes.map Prod.fst, k ∈ RecordModel.fields.map (RecordModel.name (F := F)))
    (h : ∀ f, record.validated library changes f = some (record'.value f)) :
    record.apply library changes = .ok record' := by
  have hvalid : record.Valid library changes :=
    ⟨fun change hc => hnames _ (List.mem_map_of_mem hc), fun f _ => by rw [h f]; rfl⟩
  unfold apply
  rw [dif_pos hvalid]
  congr 1
  ext f
  exact Option.some.inj ((Option.some_get _).trans (h f))

/-- A field takes the value of its type that a change gives it. -/
theorem apply_changed (h : record.apply library changes = .ok record')
    {c : (RecordModel.type f).Carrier}
    (hf : changes.lookup (RecordModel.name f) = some ((RecordModel.type f).value c)) :
    record'.value f = c := by
  have hv := apply_field (f := f) h
  rw [validated, hf] at hv
  exact (Option.some.inj (hv.symm.trans (library.validate_value _ c)))

end ModelRow

end AgenticLocalApp
