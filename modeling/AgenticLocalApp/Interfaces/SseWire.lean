import AgenticLocalApp.Domain.JsonText
import AgenticLocalApp.Interfaces.SseBroker
import AgenticLocalApp.Library.EventStream

/-!
# The live event stream on the wire

How the frames are written, and what a reader of event streams makes of them: the events that were
written, one for one, whatever heartbeats stand between them.  The identifier that the reader keeps
is the one of the last frame, and names its place to the broker when the reader comes back with it.
-/

namespace AgenticLocalApp

open EventStream

/-! ## Writing -/

/-- The fields of `SseFrame`, as texts. -/
structure WireFrame where
  id : Option (List Char) := none
  event : Option (List Char) := none
  data : Option (List Char) := none
  comment : Option (List Char) := none
  deriving DecidableEq, Repr

/-- `str.split("\n")`. -/
def splitLines : List Char → List (List Char)
  | [] => [[]]
  | c :: cs =>
    if c = '\n' then [] :: splitLines cs
    else
      match splitLines cs with
      | [] => [[c]]
      | line :: lines => (c :: line) :: lines

/-- `"\n".join`. -/
def joinLines : List (List Char) → List Char
  | [] => []
  | [line] => line
  | line :: next :: lines => line ++ '\n' :: joinLines (next :: lines)

namespace WireFrame

/-- A line with a field. -/
def written (name value : List Char) : List Char := name ++ ':' :: ' ' :: value

def lines (f : WireFrame) : List (List Char) :=
  (f.comment.map (written [])).toList ++ (f.id.map (written "id".toList)).toList ++
    (f.event.map (written "event".toList)).toList ++
    f.data.elim [] fun data => (splitLines data).map (written "data".toList)

/-- `encode`, before the text is turned into bytes. -/
def encode (f : WireFrame) : List Char := joinLines f.lines ++ ['\n', '\n']

/-- `heartbeat`. -/
def heartbeat : WireFrame := { comment := some "keep-alive".toList }

/-- `_dropped_frame`. -/
def dropped (data : Json) : WireFrame :=
  { event := some "dropped".toList, data := some data.canonical }

end WireFrame

namespace SseFrame

/-- The identifier of a frame. -/
def idText : SseFrame → List Char
  | logged e => Nat.toDigits 10 e.sequence
  | live _ sequence n => Nat.toDigits 10 sequence ++ '.' :: Nat.toDigits 10 n

/-- The frame, with the data that its event has. -/
def wire (f : SseFrame) (data : Json) : WireFrame :=
  { id := some f.idText
    event := some (StrEnum.value f.event.eventType).toList
    data := some data.canonical }

end SseFrame

/-- What `stream` yields. -/
inductive StreamItem where
  | event (f : SseFrame) (data : Json)
  | heartbeat
  /-- The last frame of a client that is too slow. -/
  | dropped (data : Json)

namespace StreamItem

def wire : StreamItem → WireFrame
  | event f data => f.wire data
  | heartbeat => .heartbeat
  | dropped data => .dropped data

/-- The floats of its data are printed as floats are. -/
def Valid : StreamItem → Prop
  | event _ data => data.Valid
  | heartbeat => True
  | dropped data => data.Valid

/-- The frame of an event. -/
def frame? : StreamItem → Option SseFrame
  | event f _ => some f
  | heartbeat | dropped _ => none

/-- What a reader is to make of an item, the identifier of the last frame being `lastId`. -/
def dispatched (lastId : List Char) : StreamItem → Option Dispatched
  | event f data => some ⟨(StrEnum.value f.event.eventType).toList, data.canonical, f.idText⟩
  | heartbeat => none
  | dropped data => some ⟨"dropped".toList, data.canonical, lastId⟩

end StreamItem

/-! ## Lines -/

theorem flatMap_splitLines (cs : List Char) :
    (splitLines cs).flatMap (· ++ ['\n']) = cs ++ ['\n'] := by
  induction cs with
  | nil => rfl
  | cons c cs ih =>
    unfold splitLines
    split_ifs with hc
    · rw [List.flatMap_cons, ih, hc]
      rfl
    · cases hlines : splitLines cs with
      | nil =>
        rw [hlines] at ih
        simp at ih
      | cons line lines =>
        rw [hlines, List.flatMap_cons, List.append_assoc] at ih
        rw [List.flatMap_cons, List.cons_append, List.cons_append, List.append_assoc, ih]
        rfl

theorem mem_of_mem_splitLines {cs line : List Char} (h : line ∈ splitLines cs) :
    ∀ c ∈ line, c ∈ cs ∧ c ≠ '\n' := by
  induction cs generalizing line with
  | nil =>
    rw [List.mem_singleton.1 h]
    exact fun c hc => absurd hc List.not_mem_nil
  | cons d cs ih =>
    have hcons : ∀ line ∈ splitLines cs, ∀ c ∈ line, c ∈ d :: cs ∧ c ≠ '\n' := fun line hline c hc =>
      ⟨List.mem_cons_of_mem d (ih hline c hc).1, (ih hline c hc).2⟩
    unfold splitLines at h
    split_ifs at h with hd
    · rcases List.mem_cons.1 h with rfl | h
      · exact fun c hc => absurd hc List.not_mem_nil
      · exact hcons line h
    · cases hlines : splitLines cs with
      | nil =>
        rw [hlines, List.mem_singleton] at h
        subst h
        intro c hc
        rw [List.mem_singleton.1 hc]
        exact ⟨List.mem_cons_self, hd⟩
      | cons first lines =>
        rw [hlines] at h hcons
        rcases List.mem_cons.1 h with rfl | h
        · intro c hc
          rcases List.mem_cons.1 hc with rfl | hc
          · exact ⟨List.mem_cons_self, hd⟩
          · exact hcons first List.mem_cons_self c hc
        · exact hcons line (List.mem_cons_of_mem first h)

theorem joinLines_append {lines : List (List Char)} (h : lines ≠ []) :
    joinLines lines ++ ['\n'] = lines.flatMap (· ++ ['\n']) := by
  induction lines with
  | nil => exact absurd rfl h
  | cons line lines ih =>
    cases lines with
    | nil => simp [joinLines]
    | cons next lines =>
      rw [joinLines, List.append_assoc, List.cons_append, ih (List.cons_ne_nil next lines),
        List.flatMap_cons (x := line), List.append_assoc]
      rfl

/-! ## Frames -/

namespace WireFrame

variable {f : WireFrame} {b : Buffers}

/-- Texts that can stand in their lines. -/
structure Writable (f : WireFrame) : Prop where
  comment : ∀ text ∈ f.comment, OneLine text
  id : ∀ text ∈ f.id, OneLine text ∧ '\x00' ∉ text
  event : ∀ text ∈ f.event, OneLine text
  data : ∀ text ∈ f.data, '\r' ∉ text

theorem oneLine_written {name value : List Char} (hname : OneLine name) (hvalue : OneLine value) :
    OneLine (written name value) :=
  hname.append (OneLine.cons (by decide) (OneLine.cons (by decide) hvalue))

theorem Writable.lines (h : f.Writable) : ∀ line ∈ f.lines, OneLine line := by
  intro line hline
  simp only [WireFrame.lines, List.mem_append, Option.mem_toList, Option.map_eq_some_iff] at hline
  rcases hline with ((⟨text, htext, rfl⟩ | ⟨text, htext, rfl⟩) | ⟨text, htext, rfl⟩) | hline
  · exact oneLine_written (by decide) (h.comment text htext)
  · exact oneLine_written (by decide) (h.id text htext).1
  · exact oneLine_written (by decide) (h.event text htext)
  · cases hdata : f.data with
    | none => simp [hdata] at hline
    | some data =>
      rw [hdata] at hline
      obtain ⟨part, hpart, rfl⟩ := List.mem_map.1 hline
      refine oneLine_written (by decide) fun c hc => ?_
      obtain ⟨hmem, hfeed⟩ := mem_of_mem_splitLines hpart c hc
      exact ⟨hfeed, ne_of_mem_of_not_mem hmem (h.data data hdata)⟩

/-- What a frame leaves in the buffers, when nothing of another event is in them. -/
def received (b : Buffers) (f : WireFrame) : Buffers :=
  { lastId := f.id.getD b.lastId
    dispatched := b.dispatched ++ (f.data.map fun data =>
      ⟨if f.event.getD [] = [] then "message".toList else f.event.getD [], data,
        f.id.getD b.lastId⟩).toList }

theorem readLine_written {name value : List Char} (hne : name ≠ []) (hname : ':' ∉ name) :
    b.readLine (written name value) = b.field name value := readLine_field hne hname

theorem foldl_id (h : f.Writable) (b : Buffers) :
    (f.id.map (written "id".toList)).toList.foldl Buffers.readLine b =
      { b with lastId := f.id.getD b.lastId } := by
  cases hid : f.id with
  | none => rfl
  | some text =>
    change b.readLine (written "id".toList text) = _
    rw [readLine_written (by decide) (by decide), field_id (h.id text hid).2]
    rfl

theorem foldl_event (b : Buffers) :
    (f.event.map (written "event".toList)).toList.foldl Buffers.readLine b =
      { b with eventType := f.event.getD b.eventType } := by
  cases f.event with
  | none => rfl
  | some text =>
    change b.readLine (written "event".toList text) = _
    rw [readLine_written (by decide) (by decide), EventStream.field_event]
    rfl

theorem foldl_data (b : Buffers) :
    (f.data.elim [] fun data => (splitLines data).map (written "data".toList)).foldl
      Buffers.readLine b = { b with data := b.data ++ f.data.elim [] (· ++ ['\n']) } := by
  cases f.data with
  | none => simp
  | some data =>
    have hread : ∀ (b : Buffers) line, b.readLine (written "data".toList line) =
        b.field "data".toList line := fun b line => readLine_written (by decide) (by decide)
    simp only [Option.elim_some, List.foldl_map, hread]
    rw [EventStream.foldl_data, flatMap_splitLines]

/-- The reader makes of a frame what it says, and is ready for the next one. -/
theorem readAll_encode (h : f.Writable) (hne : f.lines ≠ []) (hdata : b.data = [])
    (htype : b.eventType = []) :
    ({ buffers := b } : Reader).readAll f.encode = { buffers := f.received b } := by
  have hencode : f.encode = (f.lines ++ [[]]).flatMap (· ++ ['\n']) := by
    rw [List.flatMap_append, ← joinLines_append hne]
    simp [encode]
  have hlines : ∀ line ∈ f.lines ++ [[]], OneLine line := by
    intro line hline
    rcases List.mem_append.1 hline with hline | hline
    · exact h.lines line hline
    · rw [List.mem_singleton.1 hline]
      exact fun c hc => absurd hc List.not_mem_nil
  have hcomment : (f.comment.map (written [])).toList.foldl Buffers.readLine b = b := by
    cases f.comment <;> rfl
  rw [hencode, readAll_lines hlines, List.foldl_append, WireFrame.lines, List.foldl_append,
    List.foldl_append, List.foldl_append, hcomment, foldl_id h, foldl_event, foldl_data]
  change ({ buffers := Buffers.dispatch _ } : Reader) = _
  congr 1
  cases hf : f.data with
  | none =>
    rw [dispatch_none (by simp only [hdata, Option.elim_none, List.append_nil])]
    unfold received
    simp only [hf, hdata, Option.elim_none, List.append_nil, Option.map_none, Option.toList_none]
  | some data =>
    rw [dispatch_data data (by simp only [hdata, Option.elim_some, List.nil_append])]
    unfold received
    simp only [hf, htype, Option.map_some, Option.toList_some]

end WireFrame

/-! ## Data and identifiers -/

theorem oneLine_of_isNumberChar {cs : List Char} (h : ∀ c ∈ cs, Json.isNumberChar c = true) :
    OneLine cs := by
  intro c hc
  constructor <;> rintro rfl <;> exact absurd (h _ hc) (by decide)

theorem hexDigit_oneLine : ∀ n < 16, Json.hexDigit n ≠ '\n' ∧ Json.hexDigit n ≠ '\r' := by decide

theorem oneLine_escapeChar (c : Char) : OneLine (Json.escapeChar c) := by
  unfold Json.escapeChar
  split_ifs with _ _ hfeed hreturn _ _ _ hlow
  iterate 7 decide
  -- a control character without a letter of its own
  · have hhigh := hexDigit_oneLine (c.toNat / 16) (by omega)
    have hrest := hexDigit_oneLine (c.toNat % 16) (by omega)
    simp [OneLine, hhigh, hrest]
  · intro d hd
    rw [List.mem_singleton.1 hd]
    exact ⟨hfeed, hreturn⟩

theorem oneLine_quote (s : String) : OneLine (Json.quote s) := by
  refine OneLine.append (OneLine.cons (by decide) ?_) (by decide)
  intro c hc
  obtain ⟨d, -, hd⟩ := List.mem_flatMap.1 hc
  exact oneLine_escapeChar d c hd

theorem oneLine_commas {texts : List (List Char)} (h : ∀ t ∈ texts, OneLine t) :
    OneLine (Json.commas texts) := by
  match texts with
  | [] => exact fun c hc => absurd hc List.not_mem_nil
  | [x] => exact h x List.mem_cons_self
  | x :: y :: rest =>
    refine OneLine.append (h x List.mem_cons_self) (OneLine.cons (by decide) ?_)
    exact oneLine_commas fun t ht => h t (List.mem_cons_of_mem x ht)

mutual

theorem oneLine_render : ∀ j : Json, j.Valid → OneLine (Json.render j)
  | .null, _ => (by decide : OneLine "null".toList)
  | .bool true, _ => (by decide : OneLine "true".toList)
  | .bool false, _ => (by decide : OneLine "false".toList)
  | .int n, _ => oneLine_of_isNumberChar (Json.isNumberChar_ofInt n)
  | .float _, h => oneLine_of_isNumberChar h.1
  | .str s, _ => oneLine_quote s
  | .arr items, h => by
    have hitems := oneLine_commas (oneLine_renderItems items h)
    exact OneLine.append (OneLine.cons (by decide) hitems) (by decide)
  | .obj fields, h => by
    have hfields := oneLine_commas (oneLine_renderFields fields h)
    exact OneLine.append (OneLine.cons (by decide) hfields) (by decide)

theorem oneLine_renderItems : ∀ items : List Json, Json.ValidItems items →
    ∀ t ∈ Json.renderItems items, OneLine t
  | [], _ => fun _ ht => absurd ht List.not_mem_nil
  | x :: xs, h => fun t ht => by
    rcases List.mem_cons.1 ht with rfl | ht
    · exact oneLine_render x h.1
    · exact oneLine_renderItems xs h.2 t ht

theorem oneLine_renderFields : ∀ fields : List (String × Json), Json.ValidFields fields →
    ∀ t ∈ Json.renderFields fields, OneLine t
  | [], _ => fun _ ht => absurd ht List.not_mem_nil
  | (k, v) :: rest, h => fun t ht => by
    rcases List.mem_cons.1 ht with rfl | ht
    · exact (oneLine_quote k).append (OneLine.cons (by decide) (oneLine_render v h.1))
    · exact oneLine_renderFields rest h.2 t ht

end

/-- Canonical JSON is one line: what would end a line is escaped. -/
theorem oneLine_canonical {j : Json} (h : j.Valid) : OneLine j.canonical := by
  rw [← Json.render_sorted]
  exact oneLine_render _ h.sorted

theorem idText_chars (f : SseFrame) : ∀ c ∈ f.idText, c.isDigit = true ∨ c = '.' := by
  intro c hc
  cases f with
  | logged e => exact .inl (Json.isDigit_of_mem_digits hc)
  | live e sequence n =>
    rcases List.mem_append.1 hc with hc | hc
    · exact .inl (Json.isDigit_of_mem_digits hc)
    · rcases List.mem_cons.1 hc with rfl | hc
      · exact .inr rfl
      · exact .inl (Json.isDigit_of_mem_digits hc)

theorem eventType_oneLine (t : EventType) :
    OneLine (StrEnum.value t).toList ∧ (StrEnum.value t).toList ≠ [] := by
  cases t <;> decide +kernel

/-! ## Reading an identifier again -/

/-- What is said of the ASCII digits is right. -/
structure UnicodeDigits.Ascii (u : UnicodeDigits) : Prop where
  isDigit : ∀ c : Char, c.isDigit = true → u.isDigit c = true
  decimal : ∀ c : Char, c.isDigit = true → u.decimal c = some (c.toNat - '0'.toNat)

section Identifiers

variable {u : UnicodeDigits} (hu : u.Ascii)

include hu

theorem mapM_decimal {digits : List Char} (h : ∀ c ∈ digits, c.isDigit = true) :
    digits.mapM u.decimal = some (digits.map fun c => c.toNat - '0'.toNat) := by
  induction digits with
  | nil => rfl
  | cons c digits ih =>
    have hc := hu.decimal c (h c List.mem_cons_self)
    simp [List.mapM_cons, hc, ih fun d hd => h d (List.mem_cons_of_mem c hd)]

theorem toInt_toDigits {n : Nat} (hn : (Nat.toDigits 10 n).length ≤ 4300) :
    u.toInt (Nat.toDigits 10 n) = .ok n := by
  unfold UnicodeDigits.toInt
  rw [if_neg (by omega), mapM_decimal hu fun c hc => Json.isDigit_of_mem_digits hc]
  simp only [List.foldl_map]
  rw [← Nat.ofDigitChars_eq_foldl, Nat.ofDigitChars_ten_toDigits]

theorem all_isDigit (n : Nat) : (Nat.toDigits 10 n).all u.isDigit = true :=
  List.all_eq_true.2 fun c hc => hu.isDigit c (Json.isDigit_of_mem_digits hc)

omit hu

theorem strip_of_no_blanks {cs : List Char} (h : ∀ c ∈ cs, isBlankChar c = false) :
    strip (.ofList cs) = .ofList cs := by
  have hdrop : ∀ ds : List Char, (∀ c ∈ ds, isBlankChar c = false) →
      ds.dropWhile isBlankChar = ds := by
    intro ds hds
    cases ds with
    | nil => rfl
    | cons d ds => rw [List.dropWhile_cons, hds d List.mem_cons_self]; rfl
  unfold strip
  rw [String.toList_ofList, hdrop cs h, hdrop _ fun c hc => h c (List.mem_reverse.1 hc),
    List.reverse_reverse]

theorem not_blank_of_isDigit {c : Char} (h : c.isDigit = true) : isBlankChar c = false := by
  have hrange : 48 ≤ c.toNat ∧ c.toNat ≤ 57 := by
    simp only [Char.isDigit, Bool.and_eq_true, decide_eq_true_eq] at h
    exact ⟨h.1, h.2⟩
  simp only [isBlankChar, Bool.or_eq_false_iff, Bool.and_eq_false_iff, decide_eq_false_iff_not]
  omega

theorem strip_idText (f : SseFrame) : strip (.ofList f.idText) = .ofList f.idText := by
  refine strip_of_no_blanks fun c hc => ?_
  rcases idText_chars f c hc with hc | rfl
  · exact not_blank_of_isDigit hc
  · decide

theorem digits_ne_dot {c : Char} {n : Nat} (h : c ∈ Nat.toDigits 10 n) :
    decide (c ≠ '.') = true := by
  refine decide_eq_true ?_
  rintro rfl
  exact absurd (Json.isDigit_of_mem_digits h) (by decide)

theorem takeWhile_digits (n : Nat) (rest : List Char) :
    (Nat.toDigits 10 n ++ rest).takeWhile (· ≠ '.') =
      Nat.toDigits 10 n ++ rest.takeWhile (· ≠ '.') :=
  List.takeWhile_append_of_pos fun _ => digits_ne_dot

theorem dropWhile_digits (n : Nat) (rest : List Char) :
    (Nat.toDigits 10 n ++ rest).dropWhile (· ≠ '.') = rest.dropWhile (· ≠ '.') :=
  List.dropWhile_append_of_pos fun _ => digits_ne_dot

/-- The identifier of a frame is read as the place that the frame has. -/
theorem parseEventId_idText (hu : u.Ascii) {f : SseFrame} (h : f.idText.length ≤ 4300) :
    parseEventId u (some (.ofList f.idText)) = .ok (some f.key) := by
  have hne : ∀ n, Nat.toDigits 10 n ≠ [] := fun n => Nat.toDigits_ne_nil
  unfold parseEventId
  simp only [strip_idText, String.toList_ofList]
  cases f with
  | logged e =>
    have hsequence : u.toInt (Nat.toDigits 10 e.sequence) = .ok e.sequence :=
      toInt_toDigits hu h
    have htake := takeWhile_digits e.sequence []
    have hdrop := dropWhile_digits e.sequence []
    rw [List.append_nil, List.takeWhile_nil, List.append_nil] at htake
    rw [List.append_nil, List.dropWhile_nil] at hdrop
    simp only [SseFrame.idText, htake, hdrop, List.drop_nil, hne, all_isDigit hu, ne_eq,
      not_true_eq_false, false_and, or_self, if_false, if_true, hsequence]
    rfl
  | live e sequence n =>
    rw [SseFrame.idText, List.length_append, List.length_cons] at h
    have hsequence : u.toInt (Nat.toDigits 10 sequence) = .ok sequence :=
      toInt_toDigits hu (by omega)
    have hn : u.toInt (Nat.toDigits 10 n) = .ok n := toInt_toDigits hu (by omega)
    have htake : (SseFrame.live e sequence n).idText.takeWhile (· ≠ '.') =
        Nat.toDigits 10 sequence := (takeWhile_digits _ _).trans (by simp)
    have hdrop : (SseFrame.live e sequence n).idText.dropWhile (· ≠ '.') =
        '.' :: Nat.toDigits 10 n := (dropWhile_digits _ _).trans (by simp)
    simp only [htake, hdrop, List.drop_succ_cons, List.drop_zero, hne, all_isDigit hu, ne_eq,
      not_true_eq_false, and_false, or_self, if_false, hsequence, hn]
    rfl

end Identifiers

/-! ## Streams -/

/-- What a reader is to make of a stream, item by item. -/
def StreamItem.readings (lastId : List Char) : List StreamItem → List Dispatched
  | [] => []
  | item :: items =>
    (item.dispatched lastId).toList ++
      readings ((item.frame?.map SseFrame.idText).getD lastId) items

namespace StreamItem

variable {item : StreamItem} {items : List StreamItem}

theorem writable (h : item.Valid) : item.wire.Writable where
  comment := by
    cases item with
    | heartbeat => exact fun text htext => Option.some.inj htext ▸ (by decide)
    | event f data => exact fun text htext => nomatch htext
    | dropped data => exact fun text htext => nomatch htext
  id := by
    cases item with
    | heartbeat => exact fun text htext => nomatch htext
    | event f data =>
      rintro text htext
      obtain rfl := Option.some.inj htext
      have hchars : ∀ c ∈ f.idText, c ≠ '\n' ∧ c ≠ '\r' ∧ c ≠ '\x00' := by
        intro c hc
        rcases idText_chars f c hc with hc | rfl
        · refine ⟨?_, ?_, ?_⟩ <;> rintro rfl <;> exact absurd hc (by decide)
        · decide
      exact ⟨fun c hc => ⟨(hchars c hc).1, (hchars c hc).2.1⟩, fun hc => (hchars _ hc).2.2 rfl⟩
    | dropped data => exact fun text htext => nomatch htext
  event := by
    cases item with
    | heartbeat => exact fun text htext => nomatch htext
    | event f data => exact fun text htext => Option.some.inj htext ▸ (eventType_oneLine _).1
    | dropped data => exact fun text htext => Option.some.inj htext ▸ (by decide)
  data := by
    cases item with
    | heartbeat => exact fun text htext => nomatch htext
    | event f data =>
      exact fun text htext => Option.some.inj htext ▸ fun hc => (oneLine_canonical h _ hc).2 rfl
    | dropped data =>
      exact fun text htext => Option.some.inj htext ▸ fun hc => (oneLine_canonical h _ hc).2 rfl

theorem lines_ne_nil (item : StreamItem) : item.wire.lines ≠ [] := by
  cases item <;> simp [wire, WireFrame.lines, WireFrame.heartbeat, WireFrame.dropped, SseFrame.wire]

theorem received_eq (item : StreamItem) (lastId : List Char) (dispatched : List Dispatched) :
    item.wire.received { lastId, dispatched } =
      { lastId := (item.frame?.map SseFrame.idText).getD lastId
        dispatched := dispatched ++ (item.dispatched lastId).toList } := by
  cases item with
  | event f data =>
    have htype := (eventType_oneLine f.event.eventType).2
    change ({ lastId := _, dispatched := dispatched ++
      [⟨if (StrEnum.value f.event.eventType).toList = [] then _ else _, _, _⟩] } : Buffers) = _
    rw [if_neg htype]
    rfl
  | heartbeat => rfl
  | dropped data => rfl

theorem readAll_items (h : ∀ item ∈ items, item.Valid) (lastId : List Char)
    (dispatched : List Dispatched) :
    ({ buffers := { lastId, dispatched } } : Reader).readAll (items.flatMap fun item =>
        item.wire.encode) =
      { buffers :=
          { lastId := ((items.filterMap frame?).getLast?.map SseFrame.idText).getD lastId
            dispatched := dispatched ++ readings lastId items } } := by
  induction items generalizing lastId dispatched with
  | nil => simp [Reader.readAll, readings]
  | cons item items ih =>
    have hread := WireFrame.readAll_encode (b := { lastId, dispatched })
      (writable (h item List.mem_cons_self)) (lines_ne_nil item) rfl rfl
    rw [List.flatMap_cons, Reader.readAll_append, hread, received_eq,
      ih fun item hitem => h item (List.mem_cons_of_mem _ hitem), readings, List.append_assoc]
    congr 2
    cases hf : item.frame? with
    | none => simp [hf]
    | some f =>
      rw [List.filterMap_cons_some hf, List.getLast?_cons]
      cases (items.filterMap frame?).getLast? <;> rfl

/-- A reader of a stream makes of it the events that were written, with their types, their data and
their identifiers, and nothing is left over.  The identifier it keeps is that of the last frame of an
event; the broker reads it as the place of that frame, behind which a session is resumed. -/
theorem stream_read {u : UnicodeDigits} (hu : u.Ascii) (hvalid : ∀ item ∈ items, item.Valid)
    (hshort : ∀ f ∈ items.filterMap frame?, f.idText.length ≤ 4300) :
    ∃ lastId, ({} : Reader).readAll (items.flatMap fun item => item.wire.encode) =
        { buffers := { lastId, dispatched := readings [] items } } ∧
      parseEventId u (some (.ofList lastId)) =
        .ok ((items.filterMap frame?).getLast?.map SseFrame.key) ∧
      ∀ (b : SseBroker) (sub : Subscription) (f : SseFrame), sub.sessionId ≠ none →
        (items.filterMap frame?).getLast? = some f →
          let resumed := b.subscribe u { sub with lastEventId := some (.ofList lastId) }
          resumed.client.phase = .reading f.key.1 ∧ resumed.client.position = some f.key := by
  refine ⟨_, readAll_items hvalid [] [], ?_, ?_⟩
  · cases hlast : (items.filterMap frame?).getLast? with
    | none => rfl
    | some f => exact parseEventId_idText hu (hshort f (List.mem_of_getLast? hlast))
  · intro b sub f hsession hlast
    have hparse : parseEventId u (some (.ofList f.idText)) = .ok (some f.key) :=
      parseEventId_idText hu (hshort f (List.mem_of_getLast? hlast))
    obtain ⟨sid, hsid⟩ := Option.ne_none_iff_exists'.1 hsession
    simp only [hlast, Option.map_some, Option.getD_some, SseBroker.subscribe, hparse, hsid]
    exact ⟨trivial, trivial⟩

/-- The digits of ASCII and no others. -/
def asciiDigits : UnicodeDigits where
  isDigit := Char.isDigit
  decimal c := if c.isDigit then some (c.toNat - '0'.toNat) else none

/-- An audited event, a heartbeat, live output, and the client is dropped. -/
def droppedStream : List StreamItem :=
  [.event (.logged ⟨⟨"s1", none, .planReceived⟩, 41⟩) (.obj [("text", .str "a\nb")]), .heartbeat,
    .event (.live ⟨"s1", some "t1", .taskOutput⟩ 41 3) .null, .dropped (.obj [])]

theorem stream_read_dropped : ∃ lastId,
    ({} : Reader).readAll (droppedStream.flatMap fun item => item.wire.encode) =
        { buffers := { lastId, dispatched := readings [] droppedStream } } ∧
      parseEventId asciiDigits (some (.ofList lastId)) = .ok (some (41, 3)) := by
  have hdigits : asciiDigits.Ascii := ⟨fun _ h => h, fun _ h => if_pos h⟩
  have hvalid : ∀ item ∈ droppedStream, item.Valid := by
    simp [droppedStream, Valid, Json.Valid, Json.ValidFields]
  have hshort : ∀ f ∈ droppedStream.filterMap frame?, f.idText.length ≤ 4300 := by decide
  obtain ⟨lastId, hread, hparse, -⟩ := stream_read hdigits hvalid hshort
  exact ⟨lastId, hread, hparse⟩

end StreamItem

end AgenticLocalApp
