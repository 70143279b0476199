import SfcContract.Text.Basic

/-!
# Names without repetition

A list of names in the order in which each was first seen.
-/

namespace SfcContract

abbrev Names := List Text

namespace Names

/-- Adds a name unless it is there already. -/
def insert (names : Names) (name : Text) : Names :=
  if name ∈ names then names else names ++ [name]

def ofList (names : List Text) : Names := names.foldl insert []

end Names

end SfcContract
