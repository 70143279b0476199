import SfcContract.Code.Scan

/-!
# Entries of a literal

The body of an object or type literal is cut into entries at the separators that stand outside all
brackets, literals and comments, and an entry into key and value at its first colon of that kind.
-/

namespace SfcContract.Code

/-- The pieces between separators at depth zero, trimmed; blank pieces are dropped. -/
def splitTop (separators : List Char) (angles : Angles) (body : Text) : List Text :=
  (((marks angles body).splitOnP fun m => m.depth == some 0 && separators.contains m.char).map
    fun piece => Text.trim (piece.map Mark.char)).filter (!·.isEmpty)

/-- The text between two quotes of one kind, or else the text itself. -/
def unquote (t : Text) : Text :=
  ((quotes.filterMap fun q => (Text.expect? q t).bind (Text.before? [q])).head?).getD t

def isKeyColon (m : Mark) : Bool := m.depth == some 0 && m.char == ':'

/-- The key of an entry, without its quotes, and its value; an entry without a colon or with an empty
key has none. -/
def keyValue? (entry : Text) : Option (Text × Text) :=
  let ms := marks .brackets entry
  match ms.dropWhile (!isKeyColon ·) with
  | [] => none
  | _ :: value =>
    let key := unquote (Text.trim ((ms.takeWhile (!isKeyColon ·)).map Mark.char))
    if key.isEmpty then none else some (key, Text.trim (value.map Mark.char))

end SfcContract.Code
