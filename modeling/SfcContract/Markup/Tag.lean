import SfcContract.Text.Search

/-!
# Tags in markup
-/

namespace SfcContract.Tag

/-- What follows the name of a tag: `>` or `/>` at once, or a blank and anything up to the next `>`. -/
def rest? (t : Text) : Option (Text × Text) :=
  match t with
  | [] => none
  | c :: r =>
    if Text.isBlank c then (Text.upToChar? '>' r).map fun u => (c :: u.1 ++ ['>'], u.2)
    else ((Text.after? ['/', '>'] t).map fun r => (['/', '>'], r)) <|>
      ((Text.expect? '>' t).map fun r => (['>'], r))

/-- An opening or self-closing tag of a name; reads the text of the tag. -/
def named (name : Text) : Recognizer Text := fun _ t => do
  let t ← Text.after? ('<' :: name) t
  let (inner, rest) ← rest? t
  return ('<' :: name ++ inner, rest)

structure Occurrence where
  start : Nat
  stop : Nat
  text : Text
  deriving DecidableEq, Repr

/-- All tags of a name, with their byte offsets. -/
def occurrences (name text : Text) : List Occurrence :=
  let located : Recognizer Occurrence := fun prev t =>
    (named name prev t).map fun r =>
      (⟨Text.byteSize text - Text.byteSize t, Text.byteSize text - Text.byteSize r.2, r.1⟩, r.2)
  Text.findAll located text

/-- The rest of a tag up to its `>`, which may stand in quoted values before that. -/
def quotedRest? : Option Char → Text → Option (Text × Text)
  | _, [] => none
  | none, c :: t =>
    if c = '>' then some ([c], t)
    else (quotedRest? (if c = '\x22' ∨ c = '\x27' then some c else none) t).map
      fun r => (c :: r.1, r.2)
  | some q, c :: t =>
    (quotedRest? (if c = q then none else some q) t).map fun r => (c :: r.1, r.2)

def opening : Recognizer Text := fun _ t =>
  match t with
  | '<' :: c :: t =>
    if c.isAlpha then (quotedRest? none t).map fun r => ('<' :: c :: r.1, r.2) else none
  | _ => none

end SfcContract.Tag
