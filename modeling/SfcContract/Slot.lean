import SfcContract.Markup.Attribute
import SfcContract.Markup.Tag
import SfcContract.Names

/-!
# Slots of a component

A slot is declared by a `<slot>` element and consumed by a `v-slot` or `#` attribute.
-/

namespace SfcContract.Slot

def unnamed : Text := "default".toList

/-- A `<slot>` tag up to the next `>`; reads its text. -/
def slotTag : Recognizer Text := fun _ t => do
  let t ← Text.after? "<slot".toList t
  if t.head?.any Text.isWord then none
  else
    let (inner, rest) ← Text.upToChar? '>' t
    return ("<slot".toList ++ inner ++ ['>'], rest)

/-- A quoted `name` attribute. -/
def nameAttribute : Recognizer Text := fun _ t =>
  match t with
  | [] => none
  | c :: t =>
    if Text.isBlank c then do
      let t ← Text.after? "name".toList t
      let t ← Text.expect? '=' (Text.skipBlanks t)
      Attribute.quotedValue? (Text.skipBlanks t)
    else none

def ofTag (tag : Text) : Text :=
  match (Text.findFirst? nameAttribute tag).map Text.trim with
  | none => unnamed
  | some name => if name.isEmpty then unnamed else name

/-- An attribute after a blank; reads its name. -/
def attributeName : Recognizer Text := fun _ t =>
  match t with
  | [] => none
  | c :: t => if Text.isBlank c then (Attribute.raw? t).map fun r => (r.1.1, r.2) else none

def isName (t : Text) : Bool := !t.isEmpty && t.all fun c => Text.isAsciiWord c || c == '-'

def ofAttribute? (written : Text) : Option Text :=
  if written = "v-slot".toList then some unnamed
  else (Text.after? "v-slot:".toList written <|> Text.expect? '#' written).filter isName

/-- The slots of a template: declared ones, then consumed ones, each once. -/
def declared (markup : Text) : Names :=
  Names.ofList ((Text.findAll slotTag markup).map ofTag ++
    (Text.findAll Tag.opening markup).flatMap fun tag =>
      (Text.findAll attributeName tag).filterMap ofAttribute?)

end SfcContract.Slot
