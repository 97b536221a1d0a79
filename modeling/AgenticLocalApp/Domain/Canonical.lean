import Mathlib.Algebra.Group.Int.Defs
import Mathlib.Algebra.GroupWithZero.Nat
import Mathlib.Data.List.Sort

/-!
# Canonical JSON

The deterministic serialisation behind every outbound message and every size measurement: sorted
keys, compact separators, non-ASCII characters left as they are.
-/

namespace AgenticLocalApp

/-- A decoded JSON value.  A float is kept as the text it is printed as. -/
inductive Json where
  | null
  | bool (b : Bool)
  | int (n : Int)
  | float (repr : String)
  | str (s : String)
  | arr (items : List Json)
  | obj (fields : List (String × Json))

/-- The bytes of a text in UTF-8. -/
def encodeText (s : String) : List UInt8 := s.toList.flatMap String.utf8EncodeChar

namespace Json

def hexDigit (n : Nat) : Char := (Nat.toDigits 16 n).headD '0'

/-- One character inside a JSON string, `ensure_ascii` being off. -/
def escapeChar (c : Char) : List Char :=
  if c = '"' then ['\\', '"']
  else if c = '\\' then ['\\', '\\']
  else if c = '\n' then ['\\', 'n']
  else if c = '\r' then ['\\', 'r']
  else if c = '\t' then ['\\', 't']
  else if c.toNat = 8 then ['\\', 'b']
  else if c.toNat = 12 then ['\\', 'f']
  else if c.toNat < 32 then ['\\', 'u', '0', '0', hexDigit (c.toNat / 16), hexDigit (c.toNat % 16)]
  else [c]

def quote (s : String) : List Char := '"' :: s.toList.flatMap escapeChar ++ ['"']

def ofInt (n : Int) : List Char :=
  if n < 0 then '-' :: Nat.toDigits 10 n.natAbs else Nat.toDigits 10 n.natAbs

/-- The texts of a list, a comma between each two. -/
def commas : List (List Char) → List Char
  | [] => []
  | [x] => x
  | x :: y :: rest => x ++ ',' :: commas (y :: rest)

/-- Fields in the order of their keys. -/
def sortFields {α : Type} (fields : List (String × α)) : List (String × α) :=
  fields.insertionSort fun a b => a.1 ≤ b.1

mutual

/-- `canonical_json`. -/
def canonical : Json → List Char
  | null => "null".toList
  | bool true => "true".toList
  | bool false => "false".toList
  | int n => ofInt n
  | float repr => repr.toList
  | str s => quote s
  | arr items => '[' :: commas (canonicalItems items) ++ [']']
  | obj fields =>
    '{' :: commas ((sortFields (canonicalFields fields)).map fun f => quote f.1 ++ ':' :: f.2) ++ ['}']

def canonicalItems : List Json → List (List Char)
  | [] => []
  | x :: xs => canonical x :: canonicalItems xs

def canonicalFields : List (String × Json) → List (String × List Char)
  | [] => []
  | (k, v) :: rest => (k, canonical v) :: canonicalFields rest

end

/-- `size_bytes`: the size of the canonical serialisation in UTF-8. -/
def sizeBytes (j : Json) : Nat := ((canonical j).map Char.utf8Size).sum

/-- An object without the fields that carry no value. -/
def record (fields : List (String × Option Json)) : Json :=
  .obj (fields.filterMap fun f => f.2.map fun v => (f.1, v))

example : sizeBytes (.obj [("b", .arr [.int (-12), .null]), ("a", .str "é\n")]) = 27 := by decide +kernel

end Json

end AgenticLocalApp
