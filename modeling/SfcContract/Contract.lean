import SfcContract.Event
import SfcContract.Property.Declared
import SfcContract.Rule
import SfcContract.Slot
import SfcContract.Text.Case
import SfcContract.Usage

/-!
# The contract of a component

What a component declares to its users, found in its source alone. Every text has a contract.
-/

namespace SfcContract

structure Contract where
  path : Text
  name : Text
  properties : List Property
  events : List Text
  slots : List Text
  metrics : Metrics
  diagnostics : List Diagnostic
  deriving DecidableEq, Repr

/-- The last part of a path, without its extension. -/
def componentName (path : Text) : Text :=
  let base := (path.reverse.takeWhile fun c => c != '/' && c != '\\').reverse
  (Text.before? ".vue".toList base).getD base

namespace Contract

def analyze (source path : Text) : Contract :=
  let regions := Regions.ofSource source
  let properties := Property.declared regions
  let usage := Usage.ofMarkup regions.markup (properties.map Property.name)
  { path
    name := componentName path
    properties
    events := Event.declared regions
    slots := Slot.declared regions.markup
    metrics := Metrics.of regions usage
    diagnostics := MarkupRule.checkAll regions.markup ++ usage.diagnostics }

/-- Whether a query is empty or part of a name or path, regardless of case. -/
def queryMatches (query name path : Text) : Bool :=
  query.isEmpty || Text.occurs (Text.lower query) (Text.lower name) ||
    Text.occurs (Text.lower query) (Text.lower path)

def answers (c : Contract) (query : Text) : Bool := queryMatches query c.name c.path

end Contract

end SfcContract
