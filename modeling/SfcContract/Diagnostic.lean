import SfcContract.Text.Basic

/-!
# Diagnostics
-/

namespace SfcContract

inductive RuleId where
  | imgAlt
  | buttonType
  | linkHash
  | inputLabel
  | propUnused
  deriving DecidableEq, Repr

namespace RuleId

def all : List RuleId := [imgAlt, buttonType, linkHash, inputLabel, propUnused]

def label : RuleId → Text
  | imgAlt => "img-alt".toList
  | buttonType => "button-type".toList
  | linkHash => "link-hash".toList
  | inputLabel => "input-label".toList
  | propUnused => "prop-unused".toList

end RuleId

/-- Advice on a component, with an excerpt of the tag it is about. -/
structure Diagnostic where
  rule : RuleId
  message : Text
  excerpt : Option Text := none
  deriving DecidableEq, Repr

namespace Diagnostic

/-- A text on one line, cut with an ellipsis when it has more than `limit` characters. -/
def excerptOf (limit : Nat) (t : Text) : Text :=
  let flat := t.map fun c => if c = '\n' ∨ c = '\r' then ' ' else c
  if flat.length ≤ limit then flat else flat.take limit ++ ['…']

def excerptLimit : Nat := 80

def onTag (rule : RuleId) (message tag : Text) : Diagnostic :=
  { rule, message, excerpt := some (excerptOf excerptLimit tag) }

def unusedProperty (name : Text) : Diagnostic :=
  { rule := .propUnused
    message := "Prop declared but not referenced in template: ".toList ++ name }

end Diagnostic

end SfcContract
