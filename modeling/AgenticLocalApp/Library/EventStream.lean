import Mathlib.Data.List.Induction

/-!
# Streams of server-sent events

The reader of such a stream, character by character.  A line ends at a line feed, a carriage return
or both together.  The lines fill the buffers of an event, and an empty line dispatches it.
-/

namespace EventStream

/-- An event, with the identifier of the last event that had one. -/
structure Dispatched where
  eventType : List Char
  data : List Char
  lastId : List Char
  deriving DecidableEq, Repr

structure Buffers where
  data : List Char := []
  eventType : List Char := []
  lastId : List Char := []
  dispatched : List Dispatched := []
  deriving DecidableEq, Repr

namespace Buffers

/-- A field of an event. -/
def field (b : Buffers) (name value : List Char) : Buffers :=
  if name = "event".toList then { b with eventType := value }
  else if name = "data".toList then { b with data := b.data ++ value ++ ['\n'] }
  else if name = "id".toList then if '\x00' ∈ value then b else { b with lastId := value }
  else b

/-- The end of an event: one without data is not dispatched. -/
def dispatch (b : Buffers) : Buffers :=
  if b.data = [] then { b with eventType := [] }
  else
    { b with
      data := []
      eventType := []
      dispatched := b.dispatched ++
        [⟨if b.eventType = [] then "message".toList else b.eventType, b.data.dropLast, b.lastId⟩] }

/-- The value of a field, without the one blank that may stand before it. -/
def valueOf : List Char → List Char
  | ' ' :: value => value
  | value => value

def readLine (b : Buffers) (line : List Char) : Buffers :=
  match line with
  | [] => b.dispatch
  | ':' :: _ => b
  | line => b.field (line.takeWhile (· ≠ ':')) (valueOf ((line.dropWhile (· ≠ ':')).drop 1))

end Buffers

structure Reader where
  /-- What has come of the line. -/
  line : List Char := []
  /-- A carriage return has just ended a line. -/
  afterReturn : Bool := false
  buffers : Buffers := {}
  deriving DecidableEq, Repr

namespace Reader

def endLine (r : Reader) (afterReturn : Bool) : Reader :=
  { line := [], afterReturn, buffers := r.buffers.readLine r.line }

def read (r : Reader) (c : Char) : Reader :=
  if c = '\n' then if r.afterReturn then { r with afterReturn := false } else r.endLine false
  else if c = '\r' then r.endLine true
  else { r with line := r.line ++ [c], afterReturn := false }

def readAll (r : Reader) (cs : List Char) : Reader := cs.foldl read r

end Reader

/-- A text without the end of a line in it. -/
def OneLine (cs : List Char) : Prop := ∀ c ∈ cs, c ≠ '\n' ∧ c ≠ '\r'

instance (cs : List Char) : Decidable (OneLine cs) :=
  decidable_of_iff (cs.all fun c => c ≠ '\n' ∧ c ≠ '\r') (by simp [OneLine])

variable {b : Buffers} {cs line : List Char}

/-! ## Lines -/

theorem OneLine.append {cs ds : List Char} (hcs : OneLine cs) (hds : OneLine ds) :
    OneLine (cs ++ ds) := by
  intro c hc
  rcases List.mem_append.1 hc with hc | hc
  · exact hcs c hc
  · exact hds c hc

theorem OneLine.cons {c : Char} (hc : c ≠ '\n' ∧ c ≠ '\r') (h : OneLine cs) : OneLine (c :: cs) :=
  List.forall_mem_cons.2 ⟨hc, h⟩

theorem Reader.readAll_append (r : Reader) (cs ds : List Char) :
    r.readAll (cs ++ ds) = (r.readAll cs).readAll ds := List.foldl_append

/-- The characters of a line are kept until it ends. -/
theorem readAll_oneLine (h : OneLine cs) :
    ({ buffers := b } : Reader).readAll cs = { line := cs, buffers := b } := by
  induction cs using List.reverseRecOn with
  | nil => rfl
  | append_singleton cs c ih =>
    obtain ⟨hfeed, hreturn⟩ := h c (by simp)
    rw [Reader.readAll_append, ih fun d hd => h d (by simp [hd])]
    simp only [Reader.readAll, List.foldl_cons, List.foldl_nil, Reader.read, hfeed, hreturn,
      if_false]

theorem readAll_line (h : OneLine line) :
    ({ buffers := b } : Reader).readAll (line ++ ['\n']) = { buffers := b.readLine line } := by
  rw [Reader.readAll_append, readAll_oneLine h]
  rfl

/-- Lines that each end in a line feed are read one after the other. -/
theorem readAll_lines {lines : List (List Char)} (h : ∀ l ∈ lines, OneLine l) :
    ({ buffers := b } : Reader).readAll (lines.flatMap (· ++ ['\n'])) =
      { buffers := lines.foldl Buffers.readLine b } := by
  induction lines generalizing b with
  | nil => rfl
  | cons line lines ih =>
    rw [List.flatMap_cons, Reader.readAll_append, readAll_line (h line (by simp)),
      ih fun l hl => h l (by simp [hl]), List.foldl_cons]

/-! ## Fields -/

/-- An event that has data is dispatched without the end of its last line. -/
theorem dispatch_data (data : List Char) (h : b.data = data ++ ['\n']) :
    b.dispatch = { b with
      data := []
      eventType := []
      dispatched := b.dispatched ++
        [⟨if b.eventType = [] then "message".toList else b.eventType, data, b.lastId⟩] } := by
  have hne : b.data ≠ [] := by simp [h]
  unfold Buffers.dispatch
  rw [if_neg hne, h, List.dropLast_concat]

theorem dispatch_none (h : b.data = []) : b.dispatch = { b with eventType := [] } := if_pos h

/-- A field as it is written, with a blank before its value. -/
theorem readLine_field {name value : List Char} (hne : name ≠ []) (hname : ':' ∉ name) :
    b.readLine (name ++ ':' :: ' ' :: value) = b.field name value := by
  have hcolon : ∀ c ∈ name, decide (c ≠ ':') = true := fun c hc =>
    decide_eq_true (ne_of_mem_of_not_mem hc hname)
  have htake : (name ++ ':' :: ' ' :: value).takeWhile (· ≠ ':') = name := by
    rw [List.takeWhile_append_of_pos hcolon]
    simp
  have hdrop : (name ++ ':' :: ' ' :: value).dropWhile (· ≠ ':') = ':' :: ' ' :: value := by
    rw [List.dropWhile_append_of_pos hcolon]
    simp
  obtain ⟨c, name', rfl⟩ := List.exists_cons_of_ne_nil hne
  have hc : c ≠ ':' := ne_of_mem_of_not_mem (List.mem_cons_self ..) hname
  unfold Buffers.readLine
  split
  · next heq => cases heq
  · next heq => exact absurd (List.cons.inj heq).1 hc
  · rw [htake, hdrop]
    rfl

theorem field_event (value : List Char) :
    b.field "event".toList value = { b with eventType := value } := if_pos rfl

theorem field_data (value : List Char) :
    b.field "data".toList value = { b with data := b.data ++ value ++ ['\n'] } :=
  (if_neg (by decide)).trans (if_pos rfl)

theorem field_id {value : List Char} (h : '\x00' ∉ value) :
    b.field "id".toList value = { b with lastId := value } :=
  (if_neg (by decide)).trans ((if_neg (by decide)).trans ((if_pos rfl).trans (if_neg h)))

/-- The lines of a text, each with its end. -/
theorem foldl_data (lines : List (List Char)) :
    lines.foldl (fun b line => b.field "data".toList line) b =
      { b with data := b.data ++ lines.flatMap (· ++ ['\n']) } := by
  induction lines generalizing b with
  | nil => simp
  | cons line lines ih =>
    rw [List.foldl_cons, ih, field_data]
    simp

end EventStream
