import SfcContract.Text.Case
import SfcContract.Text.Search

/-!
# Regions of a component

A component holds a template and up to two scripts, one of them marked `setup`. Each region is the
body of the first block of its kind; a block ends at the first closing tag after it.
-/

namespace SfcContract

/-- A top-level block: the text of its opening tag after the name, and its body. -/
structure Block where
  attributes : Text
  body : Text
  deriving DecidableEq, Repr

namespace Block

/-- The rest of a closing tag: the name regardless of case, blanks and `>`. -/
def closing? (tag : Text) (t : Text) : Option Text := do
  let t ← Text.after? ['<', '/'] t
  let t ← Text.afterFolded? tag t
  Text.expect? '>' (Text.skipBlanks t)

def recognizer (tag : Text) : Recognizer Block := fun _ t => do
  let t ← Text.expect? '<' t
  let t ← Text.afterFolded? tag t
  if t.head?.any Text.isWord then none
  else
    let (attributes, t) ← Text.upToChar? '>' t
    let (body, rest) ← Text.upTo? (closing? tag) t
    return (⟨attributes, body⟩, rest)

def setupMark : Recognizer Unit := fun prev t => do
  let rest ← Text.afterFolded? "setup".toList t
  if prev.any Text.isWord || rest.head?.any Text.isWord then none else some ((), rest)

def isSetup (b : Block) : Bool := (Text.findFirst? setupMark b.attributes).isSome

end Block

/-- The three regions of a component; a missing one is empty. -/
structure Regions where
  markup : Text := []
  setup : Text := []
  plain : Text := []
  deriving DecidableEq, Repr

namespace Regions

def bodyOf (b : Option Block) : Text := (b.map Block.body).getD []

def ofSource (source : Text) : Regions :=
  let scripts := Text.findAll (Block.recognizer "script".toList) source
  { markup := bodyOf (Text.findFirst? (Block.recognizer "template".toList) source)
    setup := bodyOf (scripts.find? Block.isSetup)
    plain := bodyOf (scripts.find? (!Block.isSetup ·)) }

end Regions

end SfcContract
