import AgenticLocalApp.Domain.Errors

/-!
# JSON as it is received

A decoded text may hold halves of a surrogate pair, which an escape in the document can name one by
one.  Such a text has no encoding, and so no canonical serialisation to measure.
-/

namespace AgenticLocalApp

/-- One character of a decoded text. -/
inductive TextUnit where
  | scalar (c : Char)
  /-- Half of a surrogate pair. -/
  | surrogate (code : Nat)
  deriving DecidableEq

abbrev RawText := List TextUnit

/-- A JSON value as the decoder returns it. -/
inductive RawJson where
  | null
  | bool (b : Bool)
  | int (n : Int)
  | float (repr : String)
  | str (s : RawText)
  | arr (items : List RawJson)
  | obj (fields : List (RawText × RawJson))

def TextUnit.char? : TextUnit → Option Char
  | .scalar c => some c
  | .surrogate _ => none

/-- A text whose characters all have an encoding. -/
def RawText.encode (t : RawText) : Option String :=
  (t.mapM TextUnit.char?).map String.ofList

def RawText.ofString (s : String) : RawText := s.toList.map .scalar

/-- A text with an encoding is decoded to itself. -/
@[simp] theorem RawText.encode_ofString (s : String) : (RawText.ofString s).encode = some s := by
  have h : ∀ cs : List Char, (cs.map TextUnit.scalar).mapM TextUnit.char? = some cs := by
    intro cs
    induction cs with
    | nil => rfl
    | cons c cs ih =>
      rw [List.map_cons, List.mapM_cons, ih]
      rfl
  simp [RawText.encode, RawText.ofString, h]

namespace RawJson

mutual

/-- The value with its texts encoded, if they all can be. -/
def encode : RawJson → Option Json
  | null => some .null
  | bool b => some (.bool b)
  | int n => some (.int n)
  | float repr => some (.float repr)
  | str s => (RawText.encode s).map Json.str
  | arr items => (encodeItems items).map Json.arr
  | obj fields => (encodeFields fields).map Json.obj

def encodeItems : List RawJson → Option (List Json)
  | [] => some []
  | x :: xs => (encode x).bind fun y => (encodeItems xs).map (y :: ·)

def encodeFields : List (RawText × RawJson) → Option (List (String × Json))
  | [] => some []
  | (k, v) :: rest =>
    (RawText.encode k).bind fun key => (encode v).bind fun value =>
      (encodeFields rest).map ((key, value) :: ·)

end

/-- The messages of a reply as `size_bytes` measures them: it raises where a text has no encoding. -/
def measured (messages : List RawJson) : Except Exc (List Json) :=
  match encodeItems messages with
  | some encoded => .ok encoded
  | none => .error (.valueError "'utf-8' codec can't encode: surrogates not allowed")

end RawJson

end AgenticLocalApp
