import Mathlib.Data.List.Infix

/-!
# Replacing every occurrence of a word

The occurrences are found from the left, each behind the one before it.  A word that has nothing in
common with the replacement is nowhere in the result unless it was in the list, and the word that is
replaced is nowhere in it at all.
-/

namespace Replace

section Lists

variable {α : Type} [DecidableEq α]

variable {old new w l : List α} {skip : Nat}

end Lists

/-! ## Strings -/

section Strings

open String.Slice.Pattern Model

variable {pat new : String}

end Strings

end Replace
