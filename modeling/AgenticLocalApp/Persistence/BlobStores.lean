import AgenticLocalApp.Persistence.Store
import Mathlib.Data.List.Induction

/-!
# Blobs in the two stores

The raw streams of the tasks, as the in-memory store and the SQLite store keep them.  The first
slices the bytes from zero, the second asks SQLite for a substring, which counts from one.
-/

namespace AgenticLocalApp

/-- The part of the store interface that blobs go through. -/
structure BlobStore where
  State : Type
  empty : State
  saveBlob : State → BlobRecord → Except Exc State
  getBlobForTask : State → String → String → OutputStream → Except Exc (Option BlobRecord)
  readBlobRange : State → String → Int → Int → Except Exc (List UInt8)

def blobNotFound (blobId : String) : Exc :=
  .app (persistenceError "BLOB_NOT_FOUND" false [("blob_id", .str blobId)])

def blobRangeInvalid (blobId : String) (offset maxBytes : Int) : Exc :=
  .app (persistenceError "BLOB_RANGE_INVALID" false
    [("blob_id", .str blobId), ("offset", .int offset), ("max_bytes", .int maxBytes)])

/-! ## The in-memory store -/

namespace MemoryBlobs

def saveBlob (σ : Table BlobRecord) (r : BlobRecord) : Except Exc (Table BlobRecord) :=
  if r.sizeBytes ≠ r.content.length then
    .error (.app (persistenceError "BLOB_SIZE_MISMATCH" false [("blob_id", .str r.blobId)]))
  else .ok (σ.save r)

def getBlobForTask (σ : Table BlobRecord) (sid taskId : String) (blobType : OutputStream) :
    Except Exc (Option BlobRecord) :=
  .ok (σ.rows.find? fun b => b.sessionId = sid ∧ b.taskId = taskId ∧ b.blobType = blobType)

def readBlobRange (σ : Table BlobRecord) (blobId : String) (offset maxBytes : Int) :
    Except Exc (List UInt8) :=
  match σ.find blobId with
  | none => .error (blobNotFound blobId)
  | some blob =>
    if offset < 0 ∨ maxBytes < 0 then .error (blobRangeInvalid blobId offset maxBytes)
    else .ok ((blob.content.take (offset + maxBytes).toNat).drop offset.toNat)

end MemoryBlobs

def memoryBlobs : BlobStore where
  State := Table BlobRecord
  empty := .empty
  saveBlob := MemoryBlobs.saveBlob
  getBlobForTask := MemoryBlobs.getBlobForTask
  readBlobRange := MemoryBlobs.readBlobRange

/-! ## The SQLite store -/

/-- A row of the table `blobs`.  The stream is the text of its value, as every enumeration is. -/
structure BlobRow where
  blobId : String
  sessionId : String
  taskId : String
  blobType : String
  content : List UInt8
  sizeBytes : Int
  createdAt : Instant

instance : Keyed BlobRow String := ⟨BlobRow.blobId⟩

/-- `SQLITE_MAX_LENGTH`, the longest value that SQLite accepts. -/
def sqliteMaxLength : Nat := 1000000000

/-- `substr` on a blob: `z` bytes from the `y`-th one, counted from one.  The store calls it with
positive numbers only. -/
def sqlSubstr (x : List UInt8) (y z : Int) : List UInt8 := (x.drop (y - 1).toNat).take z.toNat

namespace BlobRow

def encode (r : BlobRecord) : BlobRow where
  blobId := r.blobId
  sessionId := r.sessionId
  taskId := r.taskId
  blobType := StrEnum.value r.blobType
  content := r.content
  sizeBytes := r.sizeBytes
  createdAt := r.createdAt

/-- `OutputStream(value)`. -/
def decodeStream (value : String) : Option OutputStream :=
  [.stdout, .stderr].find? fun s => StrEnum.value s = value

def decode (row : BlobRow) : Except Exc BlobRecord :=
  match decodeStream row.blobType with
  | none => .error (.app (persistenceError "RECORD_INVALID" false [("table", .str "blobs")]))
  | some stream => .ok
    { blobId := row.blobId
      sessionId := row.sessionId
      taskId := row.taskId
      blobType := stream
      content := row.content
      sizeBytes := row.sizeBytes.toNat
      createdAt := row.createdAt }

@[simp] theorem decodeStream_value (s : OutputStream) : decodeStream (StrEnum.value s) = some s := by
  cases s <;> decide

@[simp] theorem decode_encode (r : BlobRecord) : (encode r).decode = .ok r := by
  simp [decode, encode]

@[simp] theorem key_encode (r : BlobRecord) : Keyed.key (encode r) = Keyed.key r := rfl

end BlobRow

namespace SqliteBlobs

def saveBlob (σ : Table BlobRow) (r : BlobRecord) : Except Exc (Table BlobRow) :=
  if r.sizeBytes ≠ r.content.length then
    .error (.app (persistenceError "BLOB_SIZE_MISMATCH" false
      [("blob_id", .str r.blobId), ("declared", .int r.sizeBytes),
       ("actual", .int r.content.length)]))
  else if sqliteMaxLength < r.content.length then
    .error (.app (persistenceError "SQLITE_ERROR" false
      [("sqlite", .str "string or blob too big"), ("sqlite_type", .str "DataError")]))
  else .ok (σ.save (.encode r))

def getBlobForTask (σ : Table BlobRow) (sid taskId : String) (blobType : OutputStream) :
    Except Exc (Option BlobRecord) :=
  match σ.rows.find? fun b =>
    b.sessionId = sid ∧ b.taskId = taskId ∧ b.blobType = StrEnum.value blobType with
  | none => .ok none
  | some row => row.decode.map some

def readBlobRange (σ : Table BlobRow) (blobId : String) (offset maxBytes : Int) :
    Except Exc (List UInt8) :=
  match σ.find blobId with
  | none => .error (blobNotFound blobId)
  | some row =>
    if offset < 0 ∨ maxBytes < 0 then .error (blobRangeInvalid blobId offset maxBytes)
    else
      let size : Int := row.content.length
      let length := min maxBytes (size - offset)
      if length ≤ 0 then .ok [] else .ok (sqlSubstr row.content (offset + 1) length)

end SqliteBlobs

def sqliteBlobs : BlobStore where
  State := Table BlobRow
  empty := .empty
  saveBlob := SqliteBlobs.saveBlob
  getBlobForTask := SqliteBlobs.getBlobForTask
  readBlobRange := SqliteBlobs.readBlobRange

/-! ## What the two agree on -/

/-- The stores that the program can be run with. -/
inductive StoreKind where
  | memory | sqlite
  deriving DecidableEq, Repr

def StoreKind.blobs : StoreKind → BlobStore
  | .memory => memoryBlobs
  | .sqlite => sqliteBlobs

namespace BlobStore

variable (B : BlobStore)

/-- The state after a save, which is the state before when the save is refused. -/
def afterSave (σ : B.State) (r : BlobRecord) : B.State :=
  match B.saveBlob σ r with
  | .ok σ' => σ'
  | .error _ => σ

/-- The state that saving the records of a list leads to. -/
def saveAll (saves : List BlobRecord) : B.State := saves.foldl B.afterSave B.empty

/-- What a store answers about the records that it holds: it finds a stream if it holds a record of
it, and what it finds is such a record, whose size is the number of its bytes and of which a range is
that part of its bytes. -/
structure Serves (σ : B.State) (held : BlobRecord → Prop) : Prop where
  lookup : ∀ r, held r → ∃ blob,
    B.getBlobForTask σ r.sessionId r.taskId r.blobType = .ok (some blob)
  found : ∀ {sid taskId stream blob}, B.getBlobForTask σ sid taskId stream = .ok (some blob) →
    held blob ∧ (blob.sessionId = sid ∧ blob.taskId = taskId ∧ blob.blobType = stream) ∧
      blob.sizeBytes = blob.content.length ∧
      ∀ offset maxBytes : Int, 0 ≤ offset → 0 ≤ maxBytes →
        B.readBlobRange σ blob.blobId offset maxBytes =
          .ok ((blob.content.drop offset.toNat).take maxBytes.toNat)

end BlobStore

theorem drop_take_eq_slice (bytes : List UInt8) {offset maxBytes : Int} (ho : 0 ≤ offset)
    (hm : 0 ≤ maxBytes) :
    (bytes.take (offset + maxBytes).toNat).drop offset.toNat =
      (bytes.drop offset.toNat).take maxBytes.toNat := by
  have h : (offset + maxBytes).toNat = offset.toNat + maxBytes.toNat := by omega
  rw [h, List.drop_take]
  congr 1
  omega

/-- The substring that SQLite is asked for is the same slice, also past the end of the bytes. -/
theorem sqlSubstr_eq_slice (bytes : List UInt8) {offset maxBytes : Int} (ho : 0 ≤ offset)
    (hm : 0 ≤ maxBytes) :
    (if min maxBytes (bytes.length - offset) ≤ 0 then []
      else sqlSubstr bytes (offset + 1) (min maxBytes (bytes.length - offset))) =
      (bytes.drop offset.toNat).take maxBytes.toNat := by
  have hlen : (bytes.drop offset.toNat).length = bytes.length - offset.toNat := List.length_drop
  split
  · rename_i h
    rcases (show maxBytes = 0 ∨ (bytes.length : Int) ≤ offset by omega) with h | h
    · simp [h]
    · rw [List.drop_of_length_le (by omega), List.take_nil]
  · unfold sqlSubstr
    rw [show (offset + 1 - 1).toNat = offset.toNat by omega]
    rcases le_total maxBytes (bytes.length - offset) with h | h
    · rw [min_eq_left h]
    · rw [min_eq_right h, List.take_of_length_le (by omega), List.take_of_length_le (by omega)]

/-! ## The rows that saves lead to -/

/-- The store takes the record: its size is the number of its bytes, and SQLite has a bound. -/
def StoreKind.TakesBlob (kind : StoreKind) (r : BlobRecord) : Prop :=
  r.sizeBytes = r.content.length ∧ (kind = .sqlite → r.content.length ≤ sqliteMaxLength)

/-- The record is the last of the saves that the store took under its identifier. -/
def StoreKind.HoldsBlob (kind : StoreKind) (saves : List BlobRecord) (r : BlobRecord) : Prop :=
  ∃ before after, saves = before ++ r :: after ∧ kind.TakesBlob r ∧
    ∀ r' ∈ after, kind.TakesBlob r' → r'.blobId ≠ r.blobId

theorem StoreKind.holdsBlob_append {kind : StoreKind} {saves : List BlobRecord}
    {x r : BlobRecord} : kind.HoldsBlob (saves ++ [x]) r ↔
      kind.TakesBlob x ∧ r = x ∨
        kind.HoldsBlob saves r ∧ (kind.TakesBlob x → x.blobId ≠ r.blobId) := by
  constructor
  · rintro ⟨before, after, hsplit, htakes, hlater⟩
    rcases List.eq_nil_or_concat after with rfl | ⟨init, y, rfl⟩
    · obtain ⟨-, hlast⟩ := List.append_inj' hsplit rfl
      obtain rfl := List.singleton_inj.1 hlast
      exact .inl ⟨htakes, rfl⟩
    · rw [List.concat_eq_append, ← List.cons_append, ← List.append_assoc] at hsplit
      obtain ⟨hsaves, hlast⟩ := List.append_inj' hsplit rfl
      obtain rfl := List.singleton_inj.1 hlast
      refine .inr ⟨⟨before, init, hsaves, htakes, fun r' hr' => hlater r' (by simp [hr'])⟩, ?_⟩
      exact hlater x (by simp)
  · rintro (⟨htakes, rfl⟩ | ⟨⟨before, after, rfl, htakes, hlater⟩, hx⟩)
    · exact ⟨saves, [], rfl, htakes, fun r' hr' => by cases hr'⟩
    · refine ⟨before, after ++ [x], by simp, htakes, fun r' hr' => ?_⟩
      rcases List.mem_append.1 hr' with hr' | hr'
      · exact hlater r' hr'
      · rw [List.mem_singleton.1 hr']
        exact hx

theorem StoreKind.not_holdsBlob_nil {kind : StoreKind} {r : BlobRecord} :
    ¬ kind.HoldsBlob [] r := by
  rintro ⟨before, after, hsplit, -⟩
  cases before <;> cases hsplit

theorem BlobStore.saveAll_append (B : BlobStore) (saves : List BlobRecord) (x : BlobRecord) :
    B.saveAll (saves ++ [x]) = B.afterSave (B.saveAll saves) x := by
  unfold saveAll
  rw [List.foldl_append]
  rfl

theorem BlobStore.afterSave_ok {B : BlobStore} {σ σ' : B.State} {r : BlobRecord}
    (h : B.saveBlob σ r = .ok σ') : B.afterSave σ r = σ' := by
  unfold afterSave
  rw [h]

theorem BlobStore.afterSave_error {B : BlobStore} {σ : B.State} {r : BlobRecord} {e : Exc}
    (h : B.saveBlob σ r = .error e) : B.afterSave σ r = σ := by
  unfold afterSave
  rw [h]

namespace MemoryBlobs

/-- The rows are the records that the store holds. -/
theorem mem_saveAll (saves : List BlobRecord) (r : BlobRecord) :
    r ∈ (memoryBlobs.saveAll saves : Table BlobRecord).rows ↔ StoreKind.memory.HoldsBlob saves r := by
  induction saves using List.reverseRecOn with
  | nil => exact ⟨fun h => (by cases h), fun h => absurd h StoreKind.not_holdsBlob_nil⟩
  | append_singleton saves x ih =>
    rw [BlobStore.saveAll_append, StoreKind.holdsBlob_append, ← ih]
    by_cases hsize : x.sizeBytes = x.content.length
    · have htakes : StoreKind.memory.TakesBlob x := ⟨hsize, fun h => by cases h⟩
      have hsave : memoryBlobs.saveBlob (memoryBlobs.saveAll saves) x =
          .ok (Table.save (memoryBlobs.saveAll saves) x) := if_neg (not_not_intro hsize)
      rw [BlobStore.afterSave_ok hsave]
      refine Table.mem_save.trans ?_
      constructor
      · rintro (rfl | ⟨hr, hne⟩)
        · exact .inl ⟨htakes, rfl⟩
        · exact .inr ⟨hr, fun _ => Ne.symm hne⟩
      · rintro (⟨-, rfl⟩ | ⟨hr, hne⟩)
        · exact .inl rfl
        · exact .inr ⟨hr, Ne.symm (hne htakes)⟩
    · have hnot : ¬ StoreKind.memory.TakesBlob x := fun h => hsize h.1
      have hsave : memoryBlobs.saveBlob (memoryBlobs.saveAll saves) x = .error _ := if_pos hsize
      rw [BlobStore.afterSave_error hsave]
      exact ⟨fun hr => .inr ⟨hr, fun h => absurd h hnot⟩,
        fun h => h.elim (fun h => absurd h.1 hnot) And.left⟩

theorem serves (saves : List BlobRecord) :
    memoryBlobs.Serves (memoryBlobs.saveAll saves) (StoreKind.memory.HoldsBlob saves) where
  lookup := by
    intro r hr
    have hmem := (mem_saveAll saves r).2 hr
    obtain ⟨blob, hblob⟩ := Option.isSome_iff_exists.1
      (List.find?_isSome.2 ⟨r, hmem, by simp⟩ : (List.find? (fun b : BlobRecord =>
        b.sessionId = r.sessionId ∧ b.taskId = r.taskId ∧ b.blobType = r.blobType)
        (memoryBlobs.saveAll saves : Table BlobRecord).rows).isSome)
    exact ⟨blob, congrArg Except.ok hblob⟩
  found := by
    intro sid taskId stream blob h
    have hmem := List.mem_of_find?_eq_some (Except.ok.inj h)
    have hblob := (mem_saveAll saves blob).1 hmem
    have hstream := List.find?_some (Except.ok.inj h)
    obtain ⟨-, -, -, ⟨hsize, -⟩, -⟩ := id hblob
    refine ⟨hblob, of_decide_eq_true hstream, hsize, fun offset maxBytes ho hm => ?_⟩
    show readBlobRange _ _ _ _ = _
    have hfind : Table.find (memoryBlobs.saveAll saves : Table BlobRecord) blob.blobId = some blob :=
      Table.find_of_mem hmem
    unfold readBlobRange
    rw [hfind]
    dsimp only
    rw [if_neg (by omega), drop_take_eq_slice _ ho hm]

end MemoryBlobs

namespace SqliteBlobs

/-- The rows are those of the records that the store holds. -/
theorem mem_saveAll (saves : List BlobRecord) (row : BlobRow) :
    row ∈ (sqliteBlobs.saveAll saves : Table BlobRow).rows ↔
      ∃ r, row = .encode r ∧ StoreKind.sqlite.HoldsBlob saves r := by
  induction saves using List.reverseRecOn generalizing row with
  | nil =>
    exact ⟨fun h => (by cases h), fun ⟨_, _, h⟩ => absurd h StoreKind.not_holdsBlob_nil⟩
  | append_singleton saves x ih =>
    rw [BlobStore.saveAll_append]
    simp only [StoreKind.holdsBlob_append]
    have hrefused : ¬ StoreKind.sqlite.TakesBlob x →
        (row ∈ (sqliteBlobs.saveAll saves : Table BlobRow).rows ↔
          ∃ r, row = .encode r ∧ (StoreKind.sqlite.TakesBlob x ∧ r = x ∨
            StoreKind.sqlite.HoldsBlob saves r ∧
              (StoreKind.sqlite.TakesBlob x → x.blobId ≠ r.blobId))) := by
      intro hnot
      rw [ih row]
      exact exists_congr fun r => and_congr_right fun _ =>
        ⟨fun hr => .inr ⟨hr, fun h => absurd h hnot⟩,
          fun h => h.elim (fun h => absurd h.1 hnot) And.left⟩
    by_cases hsize : x.sizeBytes = x.content.length
    · by_cases hlong : sqliteMaxLength < x.content.length
      · have hsave : sqliteBlobs.saveBlob (sqliteBlobs.saveAll saves) x = .error _ :=
          (if_neg (not_not_intro hsize)).trans (if_pos hlong)
        rw [BlobStore.afterSave_error hsave]
        exact hrefused fun h => Nat.not_lt.2 (h.2 rfl) hlong
      · have htakes : StoreKind.sqlite.TakesBlob x := ⟨hsize, fun _ => Nat.not_lt.1 hlong⟩
        have hsave : sqliteBlobs.saveBlob (sqliteBlobs.saveAll saves) x =
            .ok (Table.save (sqliteBlobs.saveAll saves) (.encode x)) :=
          (if_neg (not_not_intro hsize)).trans (if_neg hlong)
        rw [BlobStore.afterSave_ok hsave]
        refine Table.mem_save.trans ?_
        rw [ih row]
        constructor
        · rintro (rfl | ⟨⟨r, rfl, hr⟩, hne⟩)
          · exact ⟨x, rfl, .inl ⟨htakes, rfl⟩⟩
          · exact ⟨r, rfl, .inr ⟨hr, fun _ => Ne.symm hne⟩⟩
        · rintro ⟨r, rfl, ⟨-, rfl⟩ | ⟨hr, hne⟩⟩
          · exact .inl rfl
          · exact .inr ⟨⟨r, rfl, hr⟩, Ne.symm (hne htakes)⟩
    · have hsave : sqliteBlobs.saveBlob (sqliteBlobs.saveAll saves) x = .error _ := if_pos hsize
      rw [BlobStore.afterSave_error hsave]
      exact hrefused fun h => hsize h.1

theorem serves (saves : List BlobRecord) :
    sqliteBlobs.Serves (sqliteBlobs.saveAll saves) (StoreKind.sqlite.HoldsBlob saves) where
  lookup := by
    intro r hr
    have hmem := (mem_saveAll saves (.encode r)).2 ⟨r, rfl, hr⟩
    obtain ⟨row, hrow⟩ := Option.isSome_iff_exists.1
      (List.find?_isSome.2 ⟨.encode r, hmem, by simp [BlobRow.encode]⟩ :
        (List.find? (fun b : BlobRow => b.sessionId = r.sessionId ∧ b.taskId = r.taskId ∧
          b.blobType = StrEnum.value r.blobType)
          (sqliteBlobs.saveAll saves : Table BlobRow).rows).isSome)
    obtain ⟨blob, rfl, -⟩ := (mem_saveAll saves row).1 (List.mem_of_find?_eq_some hrow)
    refine ⟨blob, ?_⟩
    show getBlobForTask _ _ _ _ = _
    unfold getBlobForTask
    rw [hrow]
    dsimp only
    rw [BlobRow.decode_encode]
    rfl
  found := by
    intro sid taskId stream blob h
    simp only [sqliteBlobs, getBlobForTask] at h
    split at h
    · cases h
    · rename_i row hrow
      have hmem := List.mem_of_find?_eq_some hrow
      obtain ⟨r, rfl, hr⟩ := (mem_saveAll saves row).1 hmem
      rw [BlobRow.decode_encode] at h
      cases h
      have hstream : blob.sessionId = sid ∧ blob.taskId = taskId ∧
          StrEnum.value blob.blobType = StrEnum.value stream := by
        have hfound := List.find?_some hrow
        exact of_decide_eq_true hfound
      obtain ⟨-, -, -, ⟨hsize, -⟩, -⟩ := id hr
      have htype : blob.blobType = stream := by
        have hsame := congrArg BlobRow.decodeStream hstream.2.2
        rw [BlobRow.decodeStream_value, BlobRow.decodeStream_value] at hsame
        exact Option.some_inj.1 hsame
      refine ⟨hr, ⟨hstream.1, hstream.2.1, htype⟩, hsize, fun offset maxBytes ho hm => ?_⟩
      have hfind : Table.find (sqliteBlobs.saveAll saves : Table BlobRow) blob.blobId =
          some (.encode blob) := Table.find_of_mem hmem
      show readBlobRange _ _ _ _ = _
      unfold readBlobRange
      rw [hfind, ← sqlSubstr_eq_slice _ ho hm]
      dsimp only
      rw [if_neg (by omega)]
      exact (apply_ite Except.ok _ _ _).symm

end SqliteBlobs

theorem StoreKind.serves (kind : StoreKind) (saves : List BlobRecord) :
    kind.blobs.Serves (kind.blobs.saveAll saves) (kind.HoldsBlob saves) := by
  cases kind with
  | memory => exact MemoryBlobs.serves saves
  | sqlite => exact SqliteBlobs.serves saves

end AgenticLocalApp
