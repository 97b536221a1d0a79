import AgenticLocalApp.Persistence.Store
import AgenticLocalApp.Protocol.Messages

/-!
# The payload guard

Output budgets, truncation, the cap on the size of a message, and chunks served from the stored
blobs.  Ranges and budgets count bytes of the raw stream; text exists only once decoded, with a
replacement character for every part that is not UTF-8.
-/

namespace AgenticLocalApp

/-! ## Decoding -/

def replacementChar : Char := '\uFFFD'

/-- The rest of a sequence that expects `n` more continuation bytes, the next one within
`[lo, hi]`.  A byte out of range ends the sequence with one replacement and is read again. -/
def decodeContinuation : (n lo hi code : Nat) → List UInt8 → Char × List UInt8
  | 0, _, _, code, rest => (Char.ofNat code, rest)
  | _ + 1, _, _, _, [] => (replacementChar, [])
  | n + 1, lo, hi, code, b :: rest =>
    if lo ≤ b.toNat ∧ b.toNat ≤ hi then
      decodeContinuation n 0x80 0xBF (code * 64 + (b.toNat - 0x80)) rest
    else (replacementChar, b :: rest)

/-- The first character of `b :: rest`, and what is left. -/
def decodeHead (b : UInt8) (rest : List UInt8) : Char × List UInt8 :=
  let n := b.toNat
  if n < 0x80 then (Char.ofNat n, rest)
  else if n < 0xC2 then (replacementChar, rest)
  else if n < 0xE0 then decodeContinuation 1 0x80 0xBF (n - 0xC0) rest
  else if n = 0xE0 then decodeContinuation 2 0xA0 0xBF 0 rest
  else if n = 0xED then decodeContinuation 2 0x80 0x9F 0xD rest
  else if n < 0xF0 then decodeContinuation 2 0x80 0xBF (n - 0xE0) rest
  else if n = 0xF0 then decodeContinuation 3 0x90 0xBF 0 rest
  else if n < 0xF4 then decodeContinuation 3 0x80 0xBF (n - 0xF0) rest
  else if n = 0xF4 then decodeContinuation 3 0x80 0x8F 4 rest
  else (replacementChar, rest)

/-- At most `fuel` characters of `bytes`; every character takes at least one byte. -/
def decodeChars : (fuel : Nat) → List UInt8 → List Char
  | 0, _ => []
  | _ + 1, [] => []
  | fuel + 1, b :: rest =>
    let (c, rest') := decodeHead b rest
    c :: decodeChars fuel rest'

/-- `decode_output`: UTF-8 with replacement characters. -/
def decodeOutput (data : List UInt8) : String := .ofList (decodeChars data.length data)

/-! ## What the guard returns -/

/-- What is kept of the two streams of a task.  Ranges are `[start, end)` in the original stream. -/
structure TruncatedOutput where
  stdoutKept : List UInt8
  stderrKept : List UInt8
  truncated : Bool
  originalSizeBytes : Nat
  stdoutTotal : Nat
  stderrTotal : Nat
  stdoutRange : Int × Int
  stderrRange : Int × Int

/-- A served `chunk_request`. -/
structure ChunkResult where
  data : List UInt8
  range : Int × Int
  total : Nat
  eof : Bool

inductive ChunkErrorCode where
  | chunkRefNotFound | chunkRangeInvalid
  deriving DecidableEq, Repr

instance : StrEnum ChunkErrorCode where
  value
    | .chunkRefNotFound => "CHUNK_REF_NOT_FOUND"
    | .chunkRangeInvalid => "CHUNK_RANGE_INVALID"

structure ChunkError where
  code : ChunkErrorCode
  details : List (String × Json)

/-- The payload section of the configuration. -/
structure PayloadConfig where
  defaultMaxOutputBytes : Nat
  hardMaxOutputBytes : Nat
  maxMessageBytes : Nat
  defaultMaxOutputBytes_pos : 0 < defaultMaxOutputBytes
  hardMaxOutputBytes_pos : 0 < hardMaxOutputBytes
  maxMessageBytes_pos : 0 < maxMessageBytes

namespace PayloadGuard

variable (config : PayloadConfig)

def effectiveBudget (taskMax planDefault : Option Int) : Int :=
  min ((taskMax.or planDefault).getD config.defaultMaxOutputBytes) config.hardMaxOutputBytes

/-! ## Truncation -/

/-- The last `keep` bytes. -/
def lastBytes (keep : Nat) (bytes : List UInt8) : List UInt8 := bytes.drop (bytes.length - keep)

/-- `apply`, the budget being non-negative. -/
def applyBudget (stdout stderr : List UInt8) (budget : Nat) : TruncatedOutput :=
  let stderrTotal := stderr.length
  let stdoutTotal := stdout.length
  let half := budget / 2
  let stderrKeep := min stderrTotal half
  let stdoutKeep := min stdoutTotal half
  let spare := budget - stderrKeep - stdoutKeep
  let taken := min spare (stderrTotal - stderrKeep)
  let stderrKeep := stderrKeep + taken
  let spare := spare - taken
  let stdoutKeep := stdoutKeep + min spare (stdoutTotal - stdoutKeep)
  { stdoutKept := lastBytes stdoutKeep stdout
    stderrKept := lastBytes stderrKeep stderr
    truncated := stderrKeep < stderrTotal || stdoutKeep < stdoutTotal
    originalSizeBytes := stderrTotal + stdoutTotal
    stdoutTotal := stdoutTotal
    stderrTotal := stderrTotal
    stdoutRange := ((stdoutTotal : Int) - stdoutKeep, stdoutTotal)
    stderrRange := ((stderrTotal : Int) - stderrKeep, stderrTotal) }

/-- Keep the end of each stream, each guaranteed its own share of the budget. -/
def apply (stdout stderr : List UInt8) (budget : Int) : Except Exc TruncatedOutput :=
  if budget < 0 then .error (.valueError "budget must be >= 0")
  else .ok (applyBudget stdout stderr budget.toNat)

/-! ## The cap on a message -/

/-- Bytes of the canonical serialisation of `content`. -/
def messageSize (content : ExecutionResultContent) : Nat := content.toJson.sizeBytes

/-- The text of a result on one stream. -/
def streamText : OutputStream → TaskResult → String
  | .stdout, r => r.stdout
  | .stderr, r => r.stderr

def streamRange : OutputStream → TaskResult → Option (Int × Int)
  | .stdout, r => r.stdoutRange
  | .stderr, r => r.stderrRange

def streamTotal : OutputStream → TaskResult → Option Int
  | .stdout, r => r.stdoutTotal
  | .stderr, r => r.stderrTotal

/-- The size in UTF-8 of the text of a result on one stream. -/
def streamSize (stream : OutputStream) (r : TaskResult) : Nat :=
  (encodeText (streamText stream r)).length

/-- `_longest`: the first of the results whose text on the stream is the longest, if any has one. -/
def longestFrom (stream : OutputStream) :
    (index : Nat) → (best : Option Nat) → (bestSize : Nat) → List TaskResult → Option Nat
  | _, best, _, [] => best
  | index, best, bestSize, r :: rest =>
    if bestSize < streamSize stream r then
      longestFrom stream (index + 1) (some index) (streamSize stream r) rest
    else longestFrom stream (index + 1) best bestSize rest

def longest (results : List TaskResult) (stream : OutputStream) : Option Nat :=
  longestFrom stream 0 none 0 results

/-- `_halve`: the last half of the text on the stream, cut in its UTF-8 bytes and decoded again. -/
def halve (r : TaskResult) (stream : OutputStream) : TaskResult :=
  let encoded := encodeText (streamText stream r)
  let kept := lastBytes (encoded.length / 2) encoded
  let currentRange := (streamRange stream r).getD (0, encoded.length)
  let total := (streamTotal stream r).getD currentRange.2
  let range := (currentRange.2 - kept.length, currentRange.2)
  match stream with
  | .stdout =>
    { r with stdout := decodeOutput kept, stdoutRange := some range, stdoutTotal := some total,
             truncated := true }
  | .stderr =>
    { r with stderr := decodeOutput kept, stderrRange := some range, stderrTotal := some total,
             truncated := true }

/-- One round of `fit_message` on a content that is too big: the longest standard output is halved,
or the longest standard error once every standard output is empty; `none` when all are empty. -/
def shrink (results : List TaskResult) : Option (List TaskResult) :=
  match longest results .stdout with
  | some i => some (results.modify i fun r => halve r .stdout)
  | none =>
    match longest results .stderr with
    | some i => some (results.modify i fun r => halve r .stderr)
    | none => none

/-- `fit_message`, given up after `rounds` rounds: `none` when the loop is still going then. -/
def fitMessage (maxMessageBytes : Nat) :
    (rounds : Nat) → ExecutionResultContent → Option ExecutionResultContent
  | 0, _ => none
  | rounds + 1, content =>
    if messageSize content ≤ maxMessageBytes then some content
    else
      match shrink content.results with
      | none => some content
      | some results => fitMessage maxMessageBytes rounds { content with results := results }

/-! ## Chunk requests -/

/-- Bytes `[offset, offset + min maxBytes hard_max)` of a stored stream. -/
def serveChunk (σ : Store) (sid refTaskId : String) (stream : OutputStream)
    (offset maxBytes : Int) : Except ChunkError ChunkResult :=
  match σ.getBlobForTask sid refTaskId stream with
  | none =>
    .error ⟨.chunkRefNotFound,
      [("ref_task_id", .str refTaskId), ("stream", .str (StrEnum.value stream))]⟩
  | some blob =>
    let total := blob.sizeBytes
    let capped := min maxBytes config.hardMaxOutputBytes
    if offset < 0 ∨ total ≤ offset ∨ capped ≤ 0 then
      .error ⟨.chunkRangeInvalid,
        [("ref_task_id", .str refTaskId), ("stream", .str (StrEnum.value stream)),
         ("offset", .int offset), ("max_bytes", .int maxBytes), ("total", jsonNat total)]⟩
    else
      let data := (blob.content.drop offset.toNat).take capped.toNat
      let stop := offset + data.length
      .ok { data := data, range := (offset, stop), total := total, eof := total ≤ stop }

end PayloadGuard

end AgenticLocalApp
