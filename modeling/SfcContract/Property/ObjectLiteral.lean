import SfcContract.Code.Bracket
import SfcContract.Code.Entry
import SfcContract.Property
import SfcContract.Text.Search

/-!
# Properties declared by an object

`defineProps({ title: String, count: { type: Number, default: 0 } })` in the setup script, and the same
object as the field `props` in the options of a plain script.
-/

namespace SfcContract.Property

/-- What an options object says about a property so far. -/
structure Options where
  type : Option Text := none
  required : Bool := false
  defaultValue : Option Text := none

namespace Options

/-- A `default` written as a method: what follows the word. -/
def defaultMethod? (field : Text) : Option Text :=
  (Text.after? "default".toList field).bind fun rest =>
    if Text.startsWith '(' (Text.skipBlanks rest) then some (Text.trim rest) else none

/-- Takes one field into account; a later field overrides an earlier one. -/
def addField (o : Options) (field : Text) : Options :=
  match Code.keyValue? field with
  | some (key, value) =>
    if key = "type".toList then { o with type := some value }
    else if key = "required".toList then { o with required := value = "true".toList }
    else if key = "default".toList then { o with defaultValue := some value }
    else o
  | none => match defaultMethod? field with
    | some value => { o with defaultValue := some value }
    | none => o

def ofBody (body : Text) : Options :=
  (Code.splitTop [','] .generic body).foldl addField {}

end Options

/-- A declared type, which may be left out. -/
def typeOr (type : Text) : Text := if type.isEmpty then unknownType else type

/-- The declaration of one entry `name: value`. -/
def propertyOfObject? (origin : Origin) (entry : Text) : Option Property := do
  let (name, value) ← Code.keyValue? entry
  if Text.isPropertyName name then
    if Text.startsWith '{' value then
      let options := Options.ofBody ((Code.bracedBody? value).getD [])
      some { name, type := options.type.getD unknownType, required := options.required,
             defaultValue := options.defaultValue, origin }
    else some { name, type := typeOr value, origin }
  else none

def ofObjectBody (origin : Origin) (body : Text) : List Property :=
  (Code.splitTop [','] .generic body).filterMap (propertyOfObject? origin)

/-- A word, a sign and an opening brace, with blanks between; reads the text from the brace on. -/
def objectAfter (word : Text) (sign : Char) : Recognizer Text := fun prev t => do
  let t ← Text.wordStart? word prev t
  let t ← Text.expect? sign (Text.skipBlanks t)
  let object := Text.skipBlanks t
  let rest ← Text.expect? '{' object
  return (object, rest)

/-- The objects given to `defineProps`. -/
def inObjectLiteral (script : Text) : List Property :=
  ((Text.findAll (objectAfter "defineProps".toList '(') script).filterMap Code.bracedBody?).flatMap
    (ofObjectBody .objectLiteral)

/-- The first `props` field. -/
def inOptions (script : Text) : List Property :=
  (((Text.findFirst? (objectAfter "props".toList ':') script).bind Code.bracedBody?).map
    (ofObjectBody .optionsStyle)).getD []

end SfcContract.Property
