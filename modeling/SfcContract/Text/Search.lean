import SfcContract.Text.Word

/-!
# Searching

A recogniser is tried at one place of a text. It knows the character before that place and the text
from there on, and answers what it read together with what is left. Searching tries it at every place
from left to right; a search for all occurrences goes on after the end of each one.
-/

namespace SfcContract

/-- Reads something at one place of a text. Every recogniser of the library passes at least one
character when it succeeds. -/
abbrev Recognizer (α : Type) := Option Char → Text → Option (α × Text)

namespace Text

variable {α : Type}

def find? (r : Recognizer α) : Option Char → Text → Option (α × Text)
  | _, [] => none
  | prev, c :: t => match r prev (c :: t) with
    | some hit => some hit
    | none => find? r (some c) t

/-- All occurrences from left to right, none overlapping another: `skip` characters still belong to
the last one. -/
def findFrom (r : Recognizer α) : Option Char → Nat → Text → List α
  | _, _, [] => []
  | _, skip + 1, c :: t => findFrom r (some c) skip t
  | prev, 0, c :: t => match r prev (c :: t) with
    | some (a, rest) => a :: findFrom r (some c) (t.length - rest.length) t
    | none => findFrom r (some c) 0 t

def findAll (r : Recognizer α) (t : Text) : List α := findFrom r none 0 t

def findFirst? (r : Recognizer α) (t : Text) : Option α := (find? r none t).map Prod.fst

/-- The shortest text up to a place where `tail` can be read, and what follows that reading. -/
def upTo? (tail : Text → Option Text) : Text → Option (Text × Text)
  | [] => (tail []).map fun rest => ([], rest)
  | c :: t => match tail (c :: t) with
    | some rest => some ([], rest)
    | none => (upTo? tail t).map fun r => (c :: r.1, r.2)

def upToChar? (c : Char) : Text → Option (Text × Text) := upTo? (expect? c)

/-- A word that no word character precedes. -/
def wordStart? (word : Text) (prev : Option Char) (t : Text) : Option Text :=
  if prev.any isWord then none else after? word t

/-- A quote of one of the given kinds, at least one character that is no quote of these kinds, and
again a quote of these kinds; reads the characters between. -/
def between? (quotes : List Char) (t : Text) : Option (Text × Text) :=
  match t with
  | [] => none
  | c :: t =>
    if quotes.contains c then
      match t.takeWhile (!quotes.contains ·), t.dropWhile (!quotes.contains ·) with
      | [], _ => none
      | _, [] => none
      | inner, _ :: rest => some (inner, rest)
    else none

end Text

end SfcContract
