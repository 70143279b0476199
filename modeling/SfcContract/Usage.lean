import SfcContract.Diagnostic
import SfcContract.Number.Binary64
import SfcContract.Region

/-!
# Use of properties in a template
-/

namespace SfcContract

/-- An occurrence of a name; reads whether its neighbours leave it a token of its own. -/
def tokenOccurrence (name : Text) : Recognizer Bool := fun prev t =>
  (Text.after? name t).map fun rest =>
    (!prev.any Text.isAsciiWord && !rest.head?.any Text.isAsciiWord, rest)

/-- Whether a name occurs as a token of its own. Occurrences are taken from left to right, each after
the end of the last. -/
def isReferenced (text name : Text) : Bool :=
  !name.isEmpty && (Text.findAll (tokenOccurrence name) text).any id

structure Usage where
  used : List Text
  unused : List Text
  deriving DecidableEq, Repr

namespace Usage

def ofMarkup (markup : Text) (names : List Text) : Usage :=
  ⟨names.filter (isReferenced markup), names.filter (!isReferenced markup ·)⟩

def declared (u : Usage) : Nat := u.used.length + u.unused.length

/-- The used part in hundredths: all or nothing only when it is all or nothing. -/
def cohesionHundredths (used declared : Nat) : Nat :=
  if used = declared then 100
  else if used = 0 then 0
  else
    let k := ((Binary64.ofRatio? false used declared).bind Binary64.hundredths?).getD 0
    min 99 (max 1 k)

def cohesion (u : Usage) : Binary64 :=
  Binary64.ofHundredths (cohesionHundredths u.used.length u.declared)

/-- One diagnostic for each unused property. -/
def diagnostics (u : Usage) : List Diagnostic := u.unused.map Diagnostic.unusedProperty

end Usage

/-- The number of lines of a region, none when it is empty. -/
def lineCount (t : Text) : Nat := if t.isEmpty then 0 else t.count '\n' + 1

/-- One of the three directives that make a template branch. -/
def branchDirective : Recognizer Unit := fun _ t =>
  (["v-if", "v-else-if", "v-for"].findSome? fun word => Text.after? word.toList t).map fun r => ((), r)

structure Metrics where
  templateLines : Nat
  scriptLines : Nat
  branches : Nat
  propsDeclared : Nat
  propsUsed : Nat
  cohesion : Binary64
  deriving DecidableEq, Repr

def Metrics.of (regions : Regions) (usage : Usage) : Metrics where
  templateLines := lineCount regions.markup
  scriptLines := lineCount regions.setup + lineCount regions.plain
  branches := (Text.findAll branchDirective regions.markup).length
  propsDeclared := usage.declared
  propsUsed := usage.used.length
  cohesion := usage.cohesion

end SfcContract
