import SfcContract.Code.Bracket
import SfcContract.Code.Entry
import SfcContract.Names
import SfcContract.Region

/-!
# Events of a component

Events are declared by a list or a type given to `defineEmits`, and emitted by calls of `$emit` or of
the variable that holds the result of `defineEmits`.
-/

namespace SfcContract.Event

def quotedName : Recognizer Text := fun _ t => Text.between? Code.quotes t

/-- An opening parenthesis and a quoted name, with blanks before each. -/
def nameArgument? (t : Text) : Option (Text × Text) := do
  let t ← Text.expect? '(' (Text.skipBlanks t)
  Text.between? Code.quotes (Text.skipBlanks t)

def listEnd? (t : Text) : Option Text := do
  let t ← Text.expect? ']' t
  Text.expect? ')' (Text.skipBlanks t)

/-- A call of `defineEmits` with a list; reads what stands in the list. -/
def listDeclaration : Recognizer Text := fun prev t => do
  let t ← Text.wordStart? "defineEmits".toList prev t
  let t ← Text.expect? '(' (Text.skipBlanks t)
  let t ← Text.expect? '[' (Text.skipBlanks t)
  Text.upTo? listEnd? t

def inLists (script : Text) : List Text :=
  (Text.findAll listDeclaration script).flatMap (Text.findAll quotedName)

/-- A call of `defineEmits` with a type literal; reads the text from the brace on. -/
def typeDeclaration : Recognizer Text := fun prev t => do
  let t ← Text.wordStart? "defineEmits".toList prev t
  let t ← Text.expect? '<' (Text.skipBlanks t)
  let literal := Text.skipBlanks t
  let rest ← Text.expect? '{' literal
  return (literal, rest)

/-- The event of a call signature `(e: 'save', …): void`. -/
def eventOfSignature? (entry : Text) : Option Text := do
  let t := Text.skipBlanks (← Text.expect? '(' entry)
  if (t.takeWhile Text.isNamePart).isEmpty then none
  else
    let t ← Text.expect? ':' (Text.skipBlanks (t.dropWhile Text.isNamePart))
    let (name, _) ← Text.between? ['\x22', '\x27'] (Text.skipBlanks t)
    return name

/-- The event of an entry of a type literal: a call signature, or a key whose value is a tuple. -/
def eventOfType? (entry : Text) : Option Text :=
  if Text.startsWith '(' entry then eventOfSignature? entry
  else match Code.keyValue? entry with
    | some (key, value) => if Text.startsWith '[' value then some (Code.unquote key) else none
    | none => none

def inTypes (script : Text) : List Text :=
  ((Text.findAll typeDeclaration script).filterMap Code.bracedBody?).flatMap fun body =>
    (Code.splitTop [';', ',', '\n'] .brackets body).filterMap eventOfType?

def emitCall : Recognizer Text := fun _ t => (Text.after? "$emit".toList t).bind nameArgument?

/-- A variable that holds the result of `defineEmits`; reads its name. -/
def binding : Recognizer Text := fun prev t => do
  let t ← ["const", "let", "var"].findSome? fun word => Text.wordStart? word.toList prev t
  if t.head?.any Text.isBlank then
    let (name, t) ← Text.name? (Text.skipBlanks t)
    let t ← Text.expect? '=' (Text.skipBlanks t)
    let rest ← Text.after? "defineEmits".toList (Text.skipBlanks t)
    if rest.head?.any Text.isWord then none else some (name, rest)
  else none

/-- A call of the given variable, at the start of the script or after a character that is neither a
part of a name nor a dot. That character belongs to the occurrence. -/
def boundCall (emitter : Text) : Recognizer Text := fun prev t =>
  let call? (t : Text) := (Text.after? emitter t).bind nameArgument?
  let atStart := if prev.isNone then call? t else none
  atStart <|> match t with
    | [] => none
    | c :: t => if Text.isNamePart c || c == '.' then none else call? t

def inBoundCalls (script : Text) : List Text :=
  match Text.findFirst? binding script with
  | none => []
  | some emitter => Text.findAll (boundCall emitter) script

def declared (regions : Regions) : Names :=
  Names.ofList (inLists regions.setup ++ inTypes regions.setup ++
    Text.findAll emitCall regions.setup ++ Text.findAll emitCall regions.plain ++
    inBoundCalls regions.setup)

end SfcContract.Event
