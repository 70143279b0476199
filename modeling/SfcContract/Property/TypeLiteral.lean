import SfcContract.Property.ObjectLiteral

/-!
# Properties declared by a type

`defineProps<{ title: string; count?: number }>()`, or the name of a type of the same script, with
defaults from `withDefaults`.
-/

namespace SfcContract.Property

/-- The end of a call that has a type argument: `>`, `(` and `)`, with blanks between. -/
def callEnd? (t : Text) : Option Text := do
  let t ← Text.expect? '>' t
  let t ← Text.expect? '(' (Text.skipBlanks t)
  Text.expect? ')' (Text.skipBlanks t)

/-- A call of `defineProps` with a type argument; reads the argument. -/
def typeArgument : Recognizer Text := fun prev t => do
  let t ← Text.wordStart? "defineProps".toList prev t
  let t ← Text.expect? '<' (Text.skipBlanks t)
  Text.upTo? callEnd? t

/-- A keyword and the name of a type after it; reads the text after the name. -/
def typeHead? (keyword name : Text) (prev : Option Char) (t : Text) : Option Text := do
  let t ← Text.wordStart? keyword prev t
  if t.head?.any Text.isBlank then
    let t ← Text.after? name (Text.skipBlanks t)
    if Text.isWordBreak name.getLast? t.head? then some t else none
  else none

def interfaceDefinition (name : Text) : Recognizer Text := fun prev t => do
  let t ← typeHead? "interface".toList name prev t
  match t.dropWhile (· != '{') with
  | [] => none
  | brace :: rest => some (brace :: rest, rest)

/-- The definition of a type alias by a literal; reads the text from its brace on. -/
def aliasDefinition (name : Text) : Recognizer Text := fun prev t => do
  let t ← typeHead? "type".toList name prev t
  let (_, t) ← Text.upToChar? '=' t
  let literal := Text.skipBlanks t
  let rest ← Text.expect? '{' literal
  return (literal, rest)

/-- The body of the type a reference starts with, if the script defines it. -/
def namedTypeBody? (script reference : Text) : Option Text := do
  let (name, _) ← Text.name? reference
  let definition ← Text.findFirst?
    (fun prev t => interfaceDefinition name prev t <|> aliasDefinition name prev t) script
  Code.bracedBody? definition

def propertyOfType? (entry : Text) : Option Property := do
  let (key, value) ← Code.keyValue? entry
  let key := Text.trim ((Text.after? "readonly ".toList key).getD key)
  let bare := Text.before? ['?'] key
  let name := Code.unquote ((bare.map Text.trimEnd).getD key)
  if Text.isPropertyName name then
    some { name, type := typeOr value, required := bare.isNone, origin := .typeLiteral }
  else none

def ofTypeBody (body : Text) : List Property :=
  (Code.splitTop [';', ',', '\n'] .brackets body).filterMap propertyOfType?

/-- The body a type argument stands for: its own braces, or the type it names. -/
def argumentBody? (script argument : Text) : Option Text :=
  match argument.dropWhile (· != '{') with
  | [] => namedTypeBody? script (Text.trim argument)
  | literal => Code.bracedBody? literal

/-- A call of `withDefaults`; reads the text from its parenthesis on. -/
def withDefaultsCall : Recognizer Text := fun prev t => do
  let t ← Text.wordStart? "withDefaults".toList prev t
  let arguments := Text.skipBlanks t
  let rest ← Text.expect? '(' arguments
  return (arguments, rest)

def defaultsBody? (script : Text) : Option Text := do
  let call ← Text.findFirst? withDefaultsCall script
  let arguments ← Code.bracedBody? call
  let second ← (Code.splitTop [','] .brackets arguments)[1]?
  Code.bracedBody? second

def applyDefaults (script : Text) (props : List Property) : List Property :=
  match defaultsBody? script with
  | none => props
  | some body => ((Code.splitTop [','] .generic body).filterMap Code.keyValue?).foldl
      (fun ps entry => setDefault entry.1 entry.2 ps) props

/-- The types given to `defineProps`. -/
def inTypeLiteral (script : Text) : List Property :=
  applyDefaults script
    (((Text.findAll typeArgument script).filterMap (argumentBody? script)).flatMap ofTypeBody)

end SfcContract.Property
