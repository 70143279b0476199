import SfcContract.Text.Search

/-!
# Attributes of a tag
-/

namespace SfcContract

/-- An attribute. A binding is written with `:` or `v-bind:` before its name. -/
structure Attribute where
  name : Text
  value : Option Text
  bound : Bool
  deriving DecidableEq, Repr

namespace Attribute

def isNamePart (c : Char) : Bool :=
  !(Text.isBlank c || c == '\x22' || c == '\x27' || c == '=' || c == '<' || c == '>' || c == '/')

def isBarePart (c : Char) : Bool :=
  !(Text.isBlank c || c == '\x22' || c == '\x27' || c == '=' || c == '<' || c == '>' || c == '\x60')

def quotedValue? (t : Text) : Option (Text × Text) :=
  ((Text.expect? '\x22' t).bind (Text.upToChar? '\x22')) <|>
    ((Text.expect? '\x27' t).bind (Text.upToChar? '\x27'))

def value? (t : Text) : Option (Text × Text) :=
  quotedValue? t <|>
    if (t.takeWhile isBarePart).isEmpty then none
    else some (t.takeWhile isBarePart, t.dropWhile isBarePart)

/-- The sign `=` and a value, with blanks before each. -/
def assignment? (t : Text) : Option (Text × Text) :=
  (Text.expect? '=' (Text.skipBlanks t)).bind fun t => value? (Text.skipBlanks t)

/-- A name as it is written, with its value if it has one. -/
def raw? (t : Text) : Option ((Text × Option Text) × Text) :=
  let name := t.takeWhile isNamePart
  let rest := t.dropWhile isNamePart
  if name.isEmpty then none
  else match assignment? rest with
    | some (value, rest) => some ((name, some value), rest)
    | none => some ((name, none), rest)

def ofRaw (raw : Text × Option Text) : Attribute :=
  match Text.after? "v-bind:".toList raw.1 <|> Text.expect? ':' raw.1 with
  | some name => ⟨name, raw.2, true⟩
  | none => ⟨raw.1, raw.2, false⟩

/-- The part of a tag after its name, without the closing `/` and `>`. -/
def region (tag : Text) : Text :=
  let inner := (Text.expect? '<' tag).getD tag
  let inner := ((inner.reverse.dropWhile (· == '>')).dropWhile (· == '/')).reverse
  inner.dropWhile (!Text.isBlank ·)

def ofTag (tag : Text) : List Attribute :=
  (Text.findAll (fun _ t => raw? t) (region tag)).map ofRaw

/-- Whether an attribute is given, bound or not. -/
def given (attributes : List Attribute) (name : Text) : Bool :=
  attributes.any (·.name == name)

/-- The value of the first attribute of a name that is not bound. -/
def static? (attributes : List Attribute) (name : Text) : Option Text :=
  (attributes.find? fun a => a.name == name && !a.bound).bind Attribute.value

end Attribute

end SfcContract
