import AgenticLocalApp.Domain.States
import Mathlib.Data.List.Flatten

/-!
# The output pump

What the executor does with one stream of a running command: every read goes into the captured
blob, and into slices that are published while the command runs.  Bytes that arrive between two
publications wait, with the offset of the first of them, for the interval to elapse or for the end
of the stream.
-/

namespace AgenticLocalApp

/-- A live slice of a stream, and where it starts in it. -/
structure OutputChunk where
  kind : OutputStream
  offset : Nat
  data : List UInt8
  deriving DecidableEq

/-- The cadence of the live output: bytes in a slice, and milliseconds between two publications. -/
structure LiveOutputConfig where
  chunkBytes : Nat
  intervalMs : Nat
  chunkBytes_pos : 0 < chunkBytes

/-- Where the pump stands. -/
structure OutputPump where
  /-- The captured blob. -/
  buffer : List UInt8 := []
  /-- What is not published yet. -/
  pending : List UInt8 := []
  pendingOffset : Nat := 0
  lastEmitMs : Option Int := none
  /-- The slices handed to the callback, in order. -/
  published : List OutputChunk := []
  callbackErrors : Nat := 0
  /-- The end of the stream was read. -/
  ended : Bool := false

/-- How a wait of the pump comes back.  The clock is read anew by everything that asks for it. -/
inductive PumpEvent where
  /-- The interval elapsed before the read was done. -/
  | elapsed (emitMs : Int)
  /-- The read is done; it is empty at the end of the stream. -/
  | read (data : List UInt8) (nowMs emitMs : Int)

namespace OutputPump

variable (config : LiveOutputConfig) (kind : OutputStream)

/-- The slices of a view, each at most `chunkBytes` long, from the given offset on; a view of `fuel`
bytes has at most `fuel` of them. -/
def slices : (fuel offset : Nat) → List UInt8 → List OutputChunk
  | 0, _, _ => []
  | _ + 1, _, [] => []
  | fuel + 1, offset, b :: view =>
    let piece := (b :: view).take config.chunkBytes
    ⟨kind, offset, piece⟩ ::
      slices fuel (offset + piece.length) ((b :: view).drop config.chunkBytes)

/-- `flush`.  The callback, where there is one, says of a slice whether it raised. -/
def flush (onOutput : Option (OutputChunk → Bool)) (emitMs : Int) (p : OutputPump) : OutputPump :=
  match onOutput with
  | none => { p with pending := [] }
  | some raises =>
    if p.pending = [] then { p with pending := [] }
    else
      let emitted := slices config kind p.pending.length p.pendingOffset p.pending
      { p with
        published := p.published ++ emitted
        callbackErrors := p.callbackErrors + emitted.countP raises
        lastEmitMs := some emitMs
        pending := [] }

/-- The wait has a timeout: bytes wait, and some were published before. -/
def timed (p : OutputPump) : Bool := p.pending ≠ [] && p.lastEmitMs.isSome

/-- Whether what was just read is published without waiting. -/
def due (nowMs : Int) (p : OutputPump) : Bool :=
  match p.lastEmitMs with
  | none => true
  | some last => config.intervalMs = 0 || (config.intervalMs : Int) ≤ nowMs - last

/-- One turn of the loop of `_pump`. -/
def step (onOutput : Option (OutputChunk → Bool)) (p : OutputPump) : PumpEvent → OutputPump
  | .elapsed emitMs =>
    -- without a timeout the wait only comes back with the read
    if p.ended = false ∧ p.timed then p.flush config kind onOutput emitMs else p
  | .read data nowMs emitMs =>
    if p.ended then p
    else if data = [] then { p.flush config kind onOutput emitMs with ended := true }
    else
      let p := if p.pending = [] then { p with pendingOffset := p.buffer.length } else p
      let p := { p with buffer := p.buffer ++ data }
      if onOutput.isNone then p
      else
        let p := { p with pending := p.pending ++ data }
        if p.due config nowMs then p.flush config kind onOutput emitMs else p

/-- The pump after so many turns. -/
def run (onOutput : Option (OutputChunk → Bool)) (events : List PumpEvent) : OutputPump :=
  events.foldl (step config kind onOutput) {}

/-! ## What is read -/

/-- The bytes of the reads, one read after the other, up to the empty one. -/
def readBytes : List PumpEvent → List UInt8
  | [] => []
  | .elapsed _ :: events => readBytes events
  | .read data _ _ :: events => if data = [] then [] else data ++ readBytes events

/-- One of the reads is empty: the stream has come to its end. -/
def atEnd : List PumpEvent → Bool
  | [] => false
  | .elapsed _ :: events => atEnd events
  | .read data _ _ :: events => data = [] || atEnd events

/-! ## Slices that tile a stream -/

/-- The slices follow one another from the offset on. -/
def TilesFrom : Nat → List OutputChunk → Prop
  | _, [] => True
  | offset, c :: rest => c.offset = offset ∧ TilesFrom (offset + c.data.length) rest

/-- The bytes of the slices, one slice after the other. -/
def bytesOf (chunks : List OutputChunk) : List UInt8 := (chunks.map OutputChunk.data).flatten

theorem bytesOf_cons (c : OutputChunk) (rest : List OutputChunk) :
    bytesOf (c :: rest) = c.data ++ bytesOf rest := rfl

theorem bytesOf_append (xs ys : List OutputChunk) :
    bytesOf (xs ++ ys) = bytesOf xs ++ bytesOf ys := by
  unfold bytesOf
  rw [List.map_append, List.flatten_append]

theorem TilesFrom.append {offset : Nat} {xs ys : List OutputChunk} (hxs : TilesFrom offset xs)
    (hys : TilesFrom (offset + (bytesOf xs).length) ys) : TilesFrom offset (xs ++ ys) := by
  induction xs generalizing offset with
  | nil => exact hys
  | cons c rest ih =>
    rw [bytesOf_cons, List.length_append, ← Nat.add_assoc] at hys
    exact ⟨hxs.1, ih hxs.2 hys⟩

/-- A slice of a tiling is the slice of the bytes that its offset says. -/
theorem TilesFrom.slice {offset : Nat} {chunks : List OutputChunk} (h : TilesFrom offset chunks)
    {c : OutputChunk} (hc : c ∈ chunks) :
    ∃ start, c.offset = offset + start ∧
      ((bytesOf chunks).drop start).take c.data.length = c.data := by
  induction chunks generalizing offset with
  | nil => exact absurd hc List.not_mem_nil
  | cons d rest ih =>
    rw [bytesOf_cons]
    obtain rfl | hrest := List.mem_cons.1 hc
    · exact ⟨0, h.1, by rw [List.drop_zero, List.take_left]⟩
    · obtain ⟨start, hstart, hslice⟩ := ih h.2 hrest
      refine ⟨d.data.length + start, by omega, ?_⟩
      rw [← List.drop_drop, List.drop_left]
      exact hslice

theorem slices_spec {fuel : Nat} {offset : Nat} {view : List UInt8} (h : view.length ≤ fuel) :
    TilesFrom offset (slices config kind fuel offset view) ∧
      bytesOf (slices config kind fuel offset view) = view ∧
      ∀ c ∈ slices config kind fuel offset view,
        c.kind = kind ∧ c.data.length ≤ config.chunkBytes ∧ c.data ≠ [] := by
  induction fuel generalizing offset view with
  | zero =>
    have hnil : view = [] := List.eq_nil_of_length_eq_zero (by omega)
    rw [hnil]
    exact ⟨trivial, rfl, fun c hc => absurd hc List.not_mem_nil⟩
  | succ fuel ih =>
    cases view with
    | nil => exact ⟨trivial, rfl, fun c hc => absurd hc List.not_mem_nil⟩
    | cons b view =>
      have hpos := config.chunkBytes_pos
      have hrest : ((b :: view).drop config.chunkBytes).length ≤ fuel := by
        rw [List.length_drop]
        omega
      obtain ⟨htiles, hbytes, hsizes⟩ :=
        @ih (offset + ((b :: view).take config.chunkBytes).length) _ hrest
      unfold slices
      dsimp only
      refine ⟨⟨rfl, htiles⟩, ?_, ?_⟩
      · rw [bytesOf_cons, hbytes, List.take_append_drop]
      · rw [List.forall_mem_cons]
        refine ⟨⟨rfl, List.length_take_le _ _, ?_⟩, hsizes⟩
        rw [Ne, List.take_eq_nil_iff]
        simp only [List.cons_ne_nil, or_false]
        omega

/-! ## The invariant of the pump -/

variable {config kind} {onOutput : Option (OutputChunk → Bool)}

/-- What is published, followed by what waits, is the blob, as long as someone listens. -/
structure Pumping (config : LiveOutputConfig) (kind : OutputStream)
    (onOutput : Option (OutputChunk → Bool)) (p : OutputPump) : Prop where
  tiles : TilesFrom 0 p.published
  slices : ∀ c ∈ p.published,
    c.kind = kind ∧ c.data.length ≤ config.chunkBytes ∧ c.data ≠ []
  blob : onOutput.isSome → bytesOf p.published ++ p.pending = p.buffer
  silent : onOutput = none → p.published = [] ∧ p.pending = []
  offset : p.pending ≠ [] → p.pendingOffset = (bytesOf p.published).length
  ended : p.ended = true → p.pending = []

theorem pumping_init : Pumping config kind onOutput {} where
  tiles := trivial
  slices _ hc := absurd hc List.not_mem_nil
  blob _ := rfl
  silent _ := ⟨rfl, rfl⟩
  offset h := absurd rfl h
  ended _ := rfl

theorem flush_pending (emitMs : Int) (p : OutputPump) :
    (p.flush config kind onOutput emitMs).pending = [] := by
  unfold flush
  cases onOutput with
  | none => rfl
  | some raises =>
    dsimp only
    split <;> rfl

theorem Pumping.flush {p : OutputPump} (h : Pumping config kind onOutput p) (emitMs : Int) :
    Pumping config kind onOutput (p.flush config kind onOutput emitMs) := by
  have hpending : (p.flush config kind onOutput emitMs).pending = [] := flush_pending emitMs p
  unfold OutputPump.flush at hpending ⊢
  cases onOutput with
  | none =>
    obtain ⟨hpublished, hwaiting⟩ := h.silent rfl
    exact ⟨h.tiles, h.slices, fun hsome => absurd hsome (by simp), fun _ => ⟨hpublished, rfl⟩,
      fun hne => absurd rfl hne, fun _ => rfl⟩
  | some raises =>
    dsimp only at hpending ⊢
    by_cases hnil : p.pending = []
    · rw [if_pos hnil, ← hnil]
      exact h
    · rw [if_neg hnil] at hpending ⊢
      obtain ⟨htiles, hbytes, hsizes⟩ :=
        @slices_spec config kind _ p.pendingOffset _ (Nat.le_refl p.pending.length)
      refine ⟨?tiles, ?slices, fun hsome => ?blob, fun hnone => absurd hnone (by simp),
        fun hne => absurd rfl hne, fun _ => rfl⟩
      case tiles =>
        refine h.tiles.append ?_
        rw [Nat.zero_add, ← h.offset hnil]
        exact htiles
      case slices =>
        intro c hc
        obtain hold | hnew := List.mem_append.1 hc
        · exact h.slices c hold
        · exact hsizes c hnew
      case blob =>
        dsimp only
        rw [bytesOf_append, hbytes, List.append_nil]
        exact h.blob hsome

/-- The bytes of a read, before it is decided whether to publish them. -/
theorem Pumping.append {p : OutputPump} {raises : OutputChunk → Bool}
    (h : Pumping config kind (some raises) p) (hrunning : p.ended = false) (data : List UInt8) :
    Pumping config kind (some raises)
      { p with
        pendingOffset := if p.pending = [] then p.buffer.length else p.pendingOffset
        buffer := p.buffer ++ data
        pending := p.pending ++ data } where
  tiles := h.tiles
  slices := h.slices
  blob _ := by
    dsimp only
    rw [← List.append_assoc, h.blob rfl]
  silent hnone := absurd hnone (by simp)
  offset _ := by
    dsimp only
    split
    · rename_i hnil
      have hblob := h.blob rfl
      rw [hnil, List.append_nil] at hblob
      rw [hblob]
    · rename_i hne
      exact h.offset hne
  ended hended := by
    dsimp only at hended
    rw [hrunning] at hended
    cases hended

theorem Pumping.publish {p : OutputPump} (h : Pumping config kind onOutput p)
    (nowMs emitMs : Int) :
    Pumping config kind onOutput
      (if p.due config nowMs then p.flush config kind onOutput emitMs else p) := by
  split
  · exact h.flush emitMs
  · exact h

theorem Pumping.step {p : OutputPump} (h : Pumping config kind onOutput p) (event : PumpEvent) :
    Pumping config kind onOutput (p.step config kind onOutput event) := by
  cases event with
  | elapsed emitMs =>
    unfold OutputPump.step
    dsimp only
    split
    · exact h.flush emitMs
    · exact h
  | read data nowMs emitMs =>
    unfold OutputPump.step
    dsimp only
    by_cases hended : p.ended = true
    · rw [if_pos hended]
      exact h
    · rw [if_neg hended]
      by_cases hdata : data = []
      · rw [if_pos hdata]
        have hflush := h.flush emitMs
        exact ⟨hflush.tiles, hflush.slices, hflush.blob, hflush.silent, hflush.offset,
          fun _ => flush_pending emitMs p⟩
      · rw [if_neg hdata]
        have hrunning : p.ended = false := by simpa using hended
        cases onOutput with
        | none =>
          obtain ⟨hpublished, hwaiting⟩ := h.silent rfl
          rw [if_pos hwaiting, if_pos Option.isNone_none]
          exact ⟨h.tiles, h.slices, fun hsome => absurd hsome (by simp), h.silent,
            fun hne => absurd hwaiting hne, fun hend => h.ended hend⟩
        | some raises =>
          have happend := h.append hrunning data
          have hstate : (if p.pending = [] then { p with pendingOffset := p.buffer.length }
              else p) = { p with
                pendingOffset := if p.pending = [] then p.buffer.length else p.pendingOffset } := by
            split <;> rfl
          rw [hstate, if_neg (by simp)]
          exact happend.publish nowMs emitMs

theorem pumping_run (events : List PumpEvent) :
    Pumping config kind onOutput (run config kind onOutput events) := by
  suffices hfold : ∀ p, Pumping config kind onOutput p →
      Pumping config kind onOutput (events.foldl (OutputPump.step config kind onOutput) p) from
    hfold {} pumping_init
  intro p h
  induction events generalizing p with
  | nil => exact h
  | cons event events ih => exact ih _ (h.step event)

/-! ## What is captured -/

theorem flush_buffer (emitMs : Int) (p : OutputPump) :
    (p.flush config kind onOutput emitMs).buffer = p.buffer ∧
      (p.flush config kind onOutput emitMs).ended = p.ended := by
  unfold flush
  cases onOutput with
  | none => exact ⟨rfl, rfl⟩
  | some raises =>
    dsimp only
    split <;> exact ⟨rfl, rfl⟩

theorem step_elapsed (emitMs : Int) (p : OutputPump) :
    (p.step config kind onOutput (.elapsed emitMs)).buffer = p.buffer ∧
      (p.step config kind onOutput (.elapsed emitMs)).ended = p.ended := by
  unfold step
  dsimp only
  split
  · exact flush_buffer emitMs p
  · exact ⟨rfl, rfl⟩

/-- A read that is not empty is appended to the blob, and an empty one ends the stream. -/
theorem step_read {p : OutputPump} (hrunning : p.ended = false) (data : List UInt8)
    (nowMs emitMs : Int) :
    (p.step config kind onOutput (.read data nowMs emitMs)).buffer = p.buffer ++ data ∧
      (p.step config kind onOutput (.read data nowMs emitMs)).ended = decide (data = []) := by
  unfold step
  dsimp only
  rw [if_neg (by simp [hrunning])]
  by_cases hdata : data = []
  · rw [if_pos hdata]
    refine ⟨?_, by simp [hdata]⟩
    rw [hdata, List.append_nil]
    exact (flush_buffer emitMs p).1
  · rw [if_neg hdata]
    have hstate : (if p.pending = [] then { p with pendingOffset := p.buffer.length } else p) =
        { p with
          pendingOffset := if p.pending = [] then p.buffer.length else p.pendingOffset } := by
      split <;> rfl
    have hfalse : p.ended = decide (data = []) := by simp [hrunning, hdata]
    rw [hstate]
    dsimp only
    cases onOutput with
    | none => exact ⟨rfl, hfalse⟩
    | some raises =>
      have hpublish : ∀ q : OutputPump,
          (if q.due config nowMs then q.flush config kind (some raises) emitMs else q).buffer =
              q.buffer ∧
            (if q.due config nowMs then q.flush config kind (some raises) emitMs else q).ended =
              q.ended := by
        intro q
        split
        · exact flush_buffer emitMs q
        · exact ⟨rfl, rfl⟩
      rw [if_neg (by simp)]
      exact ⟨(hpublish _).1, (hpublish _).2.trans hfalse⟩

/-- Once the stream has ended nothing changes any more. -/
theorem step_ended {p : OutputPump} (hended : p.ended = true) (event : PumpEvent) :
    p.step config kind onOutput event = p := by
  unfold step
  cases event with
  | elapsed emitMs => exact if_neg (by simp [hended])
  | read data nowMs emitMs => exact if_pos hended

/-- The blob is made of the reads, and the stream has ended when one of them was empty. -/
theorem run_buffer (events : List PumpEvent) :
    (run config kind onOutput events).buffer = readBytes events ∧
      (run config kind onOutput events).ended = atEnd events := by
  suffices hfold : ∀ p : OutputPump, p.ended = false →
      (events.foldl (OutputPump.step config kind onOutput) p).buffer = p.buffer ++ readBytes events ∧
        (events.foldl (OutputPump.step config kind onOutput) p).ended = atEnd events from
    hfold {} rfl
  intro p hrunning
  induction events generalizing p with
  | nil => exact ⟨(List.append_nil _).symm, hrunning⟩
  | cons event events ih =>
    rw [List.foldl_cons]
    cases event with
    | elapsed emitMs =>
      obtain ⟨hbuffer, hended⟩ := @step_elapsed config kind onOutput emitMs p
      obtain ⟨hblob, hend⟩ := ih _ (hended.trans hrunning)
      exact ⟨hblob.trans (congrArg (· ++ readBytes events) hbuffer), hend⟩
    | read data nowMs emitMs =>
      obtain ⟨hbuffer, hended⟩ := @step_read config kind onOutput p hrunning data nowMs emitMs
      unfold readBytes atEnd
      by_cases hdata : data = []
      · have hstop : ∀ q : OutputPump, q.ended = true →
            events.foldl (OutputPump.step config kind onOutput) q = q := by
          intro q hq
          clear ih
          induction events with
          | nil => rfl
          | cons event events ih => rw [List.foldl_cons, step_ended hq, ih]
        have hover := hended.trans (decide_eq_true hdata)
        rw [hstop _ hover, if_pos hdata, hover]
        refine ⟨?_, by simp [hdata]⟩
        rw [hbuffer, hdata]
      · obtain ⟨hblob, hend⟩ := ih _ (hended.trans (decide_eq_false hdata))
        rw [if_neg hdata]
        refine ⟨?_, by simp [hend, hdata]⟩
        rw [hblob, hbuffer, List.append_assoc]

/-! ## What is published -/

/-- What is captured of a stream is what was read of it; the slices published tile a prefix of that,
and once its end was read the whole of it. -/
structure TilesBlob (config : LiveOutputConfig) (kind : OutputStream) (events : List PumpEvent)
    (p : OutputPump) : Prop where
  captured : p.buffer = readBytes events
  tiles : TilesFrom 0 p.published
  prefixOf : bytesOf p.published <+: p.buffer
  slices : ∀ c ∈ p.published, c.kind = kind ∧ c.data.length ≤ config.chunkBytes ∧
    (p.buffer.drop c.offset).take c.data.length = c.data
  whole : atEnd events = true → bytesOf p.published = p.buffer

/-- Whatever is read and whenever the timer fires, the slices handed to a listener tile the blob
that is captured. -/
theorem published_tiles_blob (config : LiveOutputConfig) (kind : OutputStream)
    (raises : OutputChunk → Bool) (events : List PumpEvent) :
    TilesBlob config kind events (run config kind (some raises) events) := by
  have h : Pumping config kind (some raises) (run config kind (some raises) events) :=
    pumping_run events
  have hblob := h.blob rfl
  obtain ⟨hcaptured, hatEnd⟩ := @run_buffer config kind (some raises) events
  refine ⟨hcaptured, h.tiles, ⟨_, hblob⟩, fun c hc => ?_, fun hended => ?_⟩
  · obtain ⟨hkind, hsize, -⟩ := h.slices c hc
    obtain ⟨start, hstart, hslice⟩ := h.tiles.slice hc
    rw [Nat.zero_add] at hstart
    refine ⟨hkind, hsize, ?_⟩
    -- the slice lies within what is published, which is a prefix of the blob
    have hlength := congrArg List.length hslice
    rw [List.length_take, List.length_drop] at hlength
    rw [hstart, ← hblob, List.drop_append, List.take_append, hslice]
    have hnone : c.data.length - (List.drop start
        (bytesOf (run config kind (some raises) events).published)).length = 0 := by
      rw [List.length_drop]
      omega
    rw [hnone, List.take_zero, List.append_nil]
  · rw [← hblob, h.ended (hatEnd.trans hended), List.append_nil]

/-- Three bytes read at once and two that wait for the end, in slices of two bytes. -/
example : (run ⟨2, 250, by decide⟩ .stdout (some fun _ => false)
    [.read [1, 2, 3] 0 0, .read [4, 5] 10 10, .read [] 20 20]).published =
      [⟨.stdout, 0, [1, 2]⟩, ⟨.stdout, 2, [3]⟩, ⟨.stdout, 3, [4, 5]⟩] := by decide

end OutputPump

end AgenticLocalApp
