import AgenticLocalApp.Execution.PayloadGuard
import AgenticLocalApp.Persistence.BlobStores

/-!
# Reading a stream chunk by chunk

A stream is asked for from its start, then from the end of each range served, until a range ends
the stream.  The chunks put together are the bytes stored, whichever store keeps them.
-/

namespace AgenticLocalApp

namespace PayloadGuard

variable (config : PayloadConfig)

/-- `serve_chunk` over the reads of a store. -/
def serveChunkFrom (B : BlobStore) (σ : B.State) (sid refTaskId : String) (stream : OutputStream)
    (offset maxBytes : Int) : Except Exc (Except ChunkError ChunkResult) := do
  match ← B.getBlobForTask σ sid refTaskId stream with
  | none =>
    return .error ⟨.chunkRefNotFound,
      [("ref_task_id", .str refTaskId), ("stream", .str (StrEnum.value stream))]⟩
  | some blob =>
    let total := blob.sizeBytes
    let capped := min maxBytes config.hardMaxOutputBytes
    if offset < 0 ∨ total ≤ offset ∨ capped ≤ 0 then
      return .error ⟨.chunkRangeInvalid,
        [("ref_task_id", .str refTaskId), ("stream", .str (StrEnum.value stream)),
         ("offset", .int offset), ("max_bytes", .int maxBytes), ("total", jsonNat total)]⟩
    else
      let data ← B.readBlobRange σ blob.blobId offset capped
      let stop := offset + data.length
      return .ok { data := data, range := (offset, stop), total := total, eof := total ≤ stop }

variable {config}

/-- The plan runner's `serveChunk` is the one over the in-memory store. -/
theorem serveChunkFrom_memory (σ : Store) (sid refTaskId : String) (stream : OutputStream)
    (offset maxBytes : Int) :
    serveChunkFrom config memoryBlobs σ.blobs sid refTaskId stream offset maxBytes =
      .ok (serveChunk config σ sid refTaskId stream offset maxBytes) := by
  have hget : memoryBlobs.getBlobForTask σ.blobs sid refTaskId stream =
      .ok (σ.getBlobForTask sid refTaskId stream) := rfl
  unfold serveChunkFrom serveChunk
  rw [hget]
  cases hb : σ.getBlobForTask sid refTaskId stream with
  | none => rfl
  | some blob =>
    simp only [bind, Except.bind]
    split
    · rfl
    · rename_i h
      have hfind : σ.blobs.find blob.blobId = some blob :=
        Table.find_of_mem (List.mem_of_find?_eq_some hb)
      have hread : memoryBlobs.readBlobRange σ.blobs blob.blobId offset
          (min maxBytes config.hardMaxOutputBytes) =
          .ok ((blob.content.drop offset.toNat).take
            (min maxBytes config.hardMaxOutputBytes).toNat) := by
        show MemoryBlobs.readBlobRange _ _ _ _ = _
        unfold MemoryBlobs.readBlobRange
        rw [hfind]
        dsimp only
        rw [if_neg (by omega), drop_take_eq_slice _ (by omega) (by omega)]
      rw [hread]
      rfl

/-! ## One request -/

section

variable {B : BlobStore} {σ : B.State} {held : BlobRecord → Prop} {sid task : String}
  {stream : OutputStream} {blob : BlobRecord} {offset maxBytes : Int}

/-- What a request for a part of the stream is answered with. -/
def chunkAt (config : PayloadConfig) (bytes : List UInt8) (maxBytes offset : Int) : ChunkResult :=
  let data := (bytes.drop offset.toNat).take (min maxBytes config.hardMaxOutputBytes).toNat
  { data := data
    range := (offset, offset + data.length)
    total := bytes.length
    eof := (bytes.length : Int) ≤ offset + data.length }

theorem serveChunkFrom_served (hσ : B.Serves σ held)
    (hb : B.getBlobForTask σ sid task stream = .ok (some blob)) (ho : 0 ≤ offset)
    (hlt : offset < blob.content.length) (hm : 0 < maxBytes) :
    serveChunkFrom config B σ sid task stream offset maxBytes =
      .ok (.ok (chunkAt config blob.content maxBytes offset)) := by
  obtain ⟨-, -, hsize, hread⟩ := hσ.found hb
  have hhard := config.hardMaxOutputBytes_pos
  unfold serveChunkFrom
  rw [hb]
  simp only [bind, Except.bind]
  rw [if_neg (by omega), hread _ _ ho (by omega)]
  simp only [hsize, chunkAt]
  rfl

/-- A range outside the stream, or one of no bytes, is refused: in particular every range of a
stream of no bytes. -/
theorem serveChunkFrom_refused (hσ : B.Serves σ held)
    (hb : B.getBlobForTask σ sid task stream = .ok (some blob))
    (h : offset < 0 ∨ (blob.content.length : Int) ≤ offset ∨ maxBytes ≤ 0) :
    ∃ details, serveChunkFrom config B σ sid task stream offset maxBytes =
      .ok (.error ⟨.chunkRangeInvalid, details⟩) := by
  obtain ⟨-, -, hsize, -⟩ := hσ.found hb
  refine ⟨[("ref_task_id", .str task), ("stream", .str (StrEnum.value stream)),
    ("offset", .int offset), ("max_bytes", .int maxBytes), ("total", jsonNat blob.sizeBytes)], ?_⟩
  unfold serveChunkFrom
  rw [hb]
  simp only [bind, Except.bind]
  rw [if_pos (by omega)]
  rfl

end

/-! ## The whole stream -/

/-- The chunks from `offset` on: each request starts where the range before it ended, and the last
one is the first to end the stream.  `none` when a request fails, or when `steps` are not enough. -/
def readChunks (serve : Int → Except Exc (Except ChunkError ChunkResult)) :
    (steps : Nat) → (offset : Int) → Option (List ChunkResult)
  | 0, _ => none
  | steps + 1, offset =>
    match serve offset with
    | .ok (.ok c) =>
      if c.eof then some [c] else (readChunks serve steps c.range.2).map (c :: ·)
    | _ => none

/-- The ranges follow each other from `offset` on, each as long as its data, and the last chunk is
the one that ends the stream. -/
def Contiguous : (offset : Int) → List ChunkResult → Prop
  | _, [] => True
  | offset, c :: rest =>
    c.range = (offset, offset + c.data.length) ∧ (c.eof = true ↔ rest = []) ∧
      Contiguous (offset + c.data.length) rest

/-- What reading the stream from `offset` on gives. -/
structure Reassembles (bytes : List UInt8) (offset : Nat) (chunks : List ChunkResult) : Prop where
  whole : chunks.flatMap ChunkResult.data = bytes.drop offset
  contiguous : Contiguous offset chunks
  length_le : chunks.length ≤ bytes.length - offset
  nonempty : chunks ≠ []

theorem chunkAt_data_length (config : PayloadConfig) {bytes : List UInt8} {maxBytes : Int} {offset : Nat}
    (hm : 0 < maxBytes) (hlt : offset < bytes.length) :
    0 < (chunkAt config bytes maxBytes offset).data.length ∧
      (chunkAt config bytes maxBytes offset).data.length ≤ bytes.length - offset := by
  have hhard := config.hardMaxOutputBytes_pos
  simp only [chunkAt, List.length_take, List.length_drop, Int.toNat_natCast]
  omega

/-- One chunk, then the rest from its end on. -/
theorem drop_eq_chunkAt_append (config : PayloadConfig) (bytes : List UInt8) (maxBytes : Int)
    (offset : Nat) :
    bytes.drop offset = (chunkAt config bytes maxBytes offset).data ++
      bytes.drop (offset + (chunkAt config bytes maxBytes offset).data.length) := by
  simp only [chunkAt, Int.toNat_natCast, ← List.drop_drop]
  generalize bytes.drop offset = rest
  rw [List.length_take]
  rcases le_total (min maxBytes config.hardMaxOutputBytes).toNat rest.length with h | h
  · rw [min_eq_left h, List.take_append_drop]
  · rw [min_eq_right h, List.take_of_length_le h, List.drop_length, List.append_nil]

theorem readChunks_reassembles {bytes : List UInt8} {maxBytes : Int} (hm : 0 < maxBytes)
    (serve : Int → Except Exc (Except ChunkError ChunkResult))
    (hserve : ∀ offset : Nat, offset < bytes.length →
      serve offset = .ok (.ok (chunkAt config bytes maxBytes offset))) :
    ∀ {steps offset : Nat}, offset < bytes.length → bytes.length - offset ≤ steps →
      ∃ chunks, readChunks serve steps offset = some chunks ∧ Reassembles bytes offset chunks := by
  intro steps
  induction steps with
  | zero => intro offset hlt hs; omega
  | succ steps ih =>
    intro offset hlt hs
    have hsplit := drop_eq_chunkAt_append config bytes maxBytes offset
    obtain ⟨hpos, hle⟩ := chunkAt_data_length config hm hlt
    have heof : (chunkAt config bytes maxBytes offset).eof =
        decide ((bytes.length : Int) ≤ offset + (chunkAt config bytes maxBytes offset).data.length) :=
      rfl
    have hrange : (chunkAt config bytes maxBytes offset).range =
        ((offset : Int), offset + ((chunkAt config bytes maxBytes offset).data.length : Int)) := rfl
    have hfirst := hserve offset hlt
    generalize chunkAt config bytes maxBytes offset = c at hsplit hpos hle heof hrange hfirst
    unfold readChunks
    rw [hfirst]
    dsimp only
    by_cases hend : (bytes.length : Int) ≤ offset + c.data.length
    · -- the chunk reaches the end of the stream
      rw [if_pos (by simp [heof, hend])]
      refine ⟨[c], rfl, ?_, ⟨hrange, by simp [heof, hend], trivial⟩, ?_, by simp⟩
      · rw [hsplit, List.drop_of_length_le (by omega)]
        simp
      · show 1 ≤ _
        omega
    · -- the rest is read from the end of the chunk on, which is further by its length
      rw [if_neg (by simp [heof, hend]), hrange]
      have hnext : offset + c.data.length < bytes.length := by omega
      obtain ⟨rest, hrest, hall⟩ := ih hnext (by omega)
      rw [Int.natCast_add] at hrest
      refine ⟨c :: rest, by rw [hrest]; rfl, ?_, ⟨hrange, ?_, ?_⟩, ?_, by simp⟩
      · rw [List.flatMap_cons, hall.whole, ← hsplit]
      · simp [heof, hend, hall.nonempty]
      · have := hall.contiguous
        rwa [Int.natCast_add] at this
      · have := hall.length_le
        rw [List.length_cons]
        omega

/-- The two records are of one stream. -/
def SameStream (r r' : BlobRecord) : Prop :=
  r'.sessionId = r.sessionId ∧ r'.taskId = r.taskId ∧ r'.blobType = r.blobType

/-- A stream that either store holds a record of is found, in the record itself unless the store
holds another one of it; it is read back chunk by chunk, in at most as many requests as it has bytes;
a request outside it, or for no bytes, is refused. -/
theorem stored_stream_reassembles (config : PayloadConfig) (kind : StoreKind)
    (saves : List BlobRecord) {r : BlobRecord} (hr : kind.HoldsBlob saves r) (maxBytes : Int) :
    let serve := (serveChunkFrom config kind.blobs (kind.blobs.saveAll saves) r.sessionId r.taskId
      r.blobType · maxBytes)
    ∃ blob, kind.HoldsBlob saves blob ∧ SameStream r blob ∧
      ((∀ r', kind.HoldsBlob saves r' → SameStream r r' → r' = r) → blob = r) ∧
      (0 < maxBytes → blob.content ≠ [] → ∃ chunks,
        readChunks serve blob.content.length 0 = some chunks ∧
        chunks.flatMap ChunkResult.data = blob.content ∧ Contiguous 0 chunks ∧
        chunks.length ≤ blob.content.length) ∧
      ∀ offset : Int, blob.content = [] ∨ offset < 0 ∨ (blob.content.length : Int) ≤ offset ∨
        maxBytes ≤ 0 → ∃ details, serve offset = .ok (.error ⟨.chunkRangeInvalid, details⟩) := by
  intro serve
  have hσ := kind.serves saves
  obtain ⟨blob, hb⟩ := hσ.lookup r hr
  obtain ⟨hheld, hstream, -⟩ := hσ.found hb
  refine ⟨blob, hheld, hstream, fun honly => honly blob hheld hstream, fun hm hne => ?_,
    fun offset h => ?_⟩
  · have hpos : 0 < blob.content.length := List.length_pos_iff.2 hne
    have hserve : ∀ offset : Nat, offset < blob.content.length →
        serve offset = .ok (.ok (chunkAt config blob.content maxBytes offset)) := fun offset hlt =>
      serveChunkFrom_served hσ hb (Int.natCast_nonneg offset) (by omega) hm
    obtain ⟨chunks, hread, hall⟩ := readChunks_reassembles hm serve hserve hpos le_rfl
    exact ⟨chunks, hread, hall.whole, hall.contiguous, hall.length_le⟩
  · refine serveChunkFrom_refused hσ hb ?_
    rcases h with h | h
    · rcases lt_or_ge offset 0 with ho | ho
      · exact .inl ho
      · exact .inr (.inl (by simpa [h] using ho))
    · exact h

/-- Five bytes in the SQLite store beside another stream, at most two in a chunk. -/
theorem stored_stream_reassembles_five :
    let config : PayloadConfig := ⟨2, 2, 8, by decide, by decide, by decide⟩
    let blob : BlobRecord := ⟨"blob", "session", "task", .stdout, [1, 2, 3, 4, 5], 5, 0⟩
    let other : BlobRecord := ⟨"other", "session", "task", .stderr, [9], 1, 0⟩
    ∃ chunks, readChunks (serveChunkFrom config sqliteBlobs (sqliteBlobs.saveAll [other, blob])
        "session" "task" .stdout · 3) 5 0 = some chunks ∧
      chunks.flatMap ChunkResult.data = blob.content ∧ Contiguous 0 chunks ∧ chunks.length ≤ 5 := by
  intro config blob other
  have hr : StoreKind.sqlite.HoldsBlob [other, blob] blob :=
    ⟨[other], [], rfl, ⟨rfl, fun _ => by decide⟩, fun r' hr' => by cases hr'⟩
  obtain ⟨found, -, -, honly, hchunks, -⟩ :=
    stored_stream_reassembles config .sqlite [other, blob] hr 3
  have hfound : found = blob := by
    refine honly ?_
    rintro r' ⟨before, after, hsplit, -⟩ ⟨-, -, htype⟩
    have hmem : r' ∈ [other, blob] := hsplit ▸ (by simp)
    obtain rfl | rfl : r' = other ∨ r' = blob := by simpa using hmem
    · cases htype
    · rfl
  subst hfound
  exact hchunks (by decide) (by decide)

end PayloadGuard

end AgenticLocalApp
