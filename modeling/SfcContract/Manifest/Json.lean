import SfcContract.Json.Basic
import SfcContract.Json.Reader
import SfcContract.Manifest

/-!
# Manifests as JSON

Each record is written with its members in order, and read into a draft that becomes the record once
every member without a default is there.
-/

namespace SfcContract

open Json (Reader)
open Json.Reader (Member)

/-- Counts are integers of 64 bits. -/
def Json.Reader.count : Reader Nat := Json.Reader.nat (Nat.pow 2 64)

namespace Property

def toJson (p : Property) : Json :=
  .object ([("name".toList, .string p.name), ("type".toList, .string p.type),
      ("required".toList, .bool p.required)] ++
    Json.optional "default".toList p.defaultValue ++
    [("origin".toList, .string p.origin.label)])

structure Draft where
  name : Option Text := none
  type : Option Text := none
  required : Option Bool := none
  defaultValue : Option (Option Text) := none
  origin : Option Origin := none

def fields : List (Member Draft) := [
  .of "name" .string (·.name.isSome) fun a d => { d with name := some a },
  .of "type" .string (·.type.isSome) fun a d => { d with type := some a },
  .of "required" .bool (·.required.isSome) fun a d => { d with required := some a },
  .of "default" (.nullable .string) (·.defaultValue.isSome) fun a d => { d with defaultValue := some a },
  .of "origin" (.choice Origin.label Origin.all) (·.origin.isSome) fun a d => { d with origin := some a }]

def Draft.finish (d : Draft) : Option Property := do
  return { name := ← d.name, type := ← d.type, required := ← d.required,
           defaultValue := d.defaultValue.join, origin := ← d.origin }

def reader : Reader Property := .record fields {} Draft.finish

end Property

namespace Diagnostic

def toJson (d : Diagnostic) : Json :=
  .object ([("rule".toList, .string d.rule.label), ("message".toList, .string d.message)] ++
    Json.optional "excerpt".toList d.excerpt)

structure Draft where
  rule : Option RuleId := none
  message : Option Text := none
  excerpt : Option (Option Text) := none

def fields : List (Member Draft) := [
  .of "rule" (.choice RuleId.label RuleId.all) (·.rule.isSome) fun a d => { d with rule := some a },
  .of "message" .string (·.message.isSome) fun a d => { d with message := some a },
  .of "excerpt" (.nullable .string) (·.excerpt.isSome) fun a d => { d with excerpt := some a }]

def Draft.finish (d : Draft) : Option Diagnostic := do
  return { rule := ← d.rule, message := ← d.message, excerpt := d.excerpt.join }

def reader : Reader Diagnostic := .record fields {} Draft.finish

end Diagnostic

namespace Metrics

def toJson (m : Metrics) : Json :=
  .object [("templateLines".toList, .nat m.templateLines), ("scriptLines".toList, .nat m.scriptLines),
    ("branches".toList, .nat m.branches), ("propsDeclared".toList, .nat m.propsDeclared),
    ("propsUsed".toList, .nat m.propsUsed), ("cohesion".toList, .number m.cohesion)]

structure Draft where
  templateLines : Option Nat := none
  scriptLines : Option Nat := none
  branches : Option Nat := none
  propsDeclared : Option Nat := none
  propsUsed : Option Nat := none
  cohesion : Option Binary64 := none

def fields : List (Member Draft) := [
  .of "templateLines" .count (·.templateLines.isSome) fun a d => { d with templateLines := some a },
  .of "scriptLines" .count (·.scriptLines.isSome) fun a d => { d with scriptLines := some a },
  .of "branches" .count (·.branches.isSome) fun a d => { d with branches := some a },
  .of "propsDeclared" .count (·.propsDeclared.isSome) fun a d => { d with propsDeclared := some a },
  .of "propsUsed" .count (·.propsUsed.isSome) fun a d => { d with propsUsed := some a },
  .of "cohesion" .binary64 (·.cohesion.isSome) fun a d => { d with cohesion := some a }]

def Draft.finish (d : Draft) : Option Metrics := do
  return { templateLines := ← d.templateLines, scriptLines := ← d.scriptLines, branches := ← d.branches,
           propsDeclared := ← d.propsDeclared, propsUsed := ← d.propsUsed, cohesion := ← d.cohesion }

def reader : Reader Metrics := .record fields {} Draft.finish

end Metrics

namespace Contract

def toJson (c : Contract) : Json :=
  .object [("path".toList, .string c.path), ("name".toList, .string c.name),
    ("props".toList, .array (c.properties.map Property.toJson)),
    ("events".toList, Json.strings c.events), ("slots".toList, Json.strings c.slots),
    ("metrics".toList, c.metrics.toJson),
    ("diagnostics".toList, .array (c.diagnostics.map Diagnostic.toJson))]

structure Draft where
  path : Option Text := none
  name : Option Text := none
  properties : Option (List Property) := none
  events : Option (List Text) := none
  slots : Option (List Text) := none
  metrics : Option Metrics := none
  diagnostics : Option (List Diagnostic) := none

def fields : List (Member Draft) := [
  .of "path" .string (·.path.isSome) fun a d => { d with path := some a },
  .of "name" .string (·.name.isSome) fun a d => { d with name := some a },
  .of "props" (.list Property.reader) (·.properties.isSome) fun a d => { d with properties := some a },
  .of "events" (.list .string) (·.events.isSome) fun a d => { d with events := some a },
  .of "slots" (.list .string) (·.slots.isSome) fun a d => { d with slots := some a },
  .of "metrics" Metrics.reader (·.metrics.isSome) fun a d => { d with metrics := some a },
  .of "diagnostics" (.list Diagnostic.reader) (·.diagnostics.isSome) fun a d =>
    { d with diagnostics := some a }]

def Draft.finish (d : Draft) : Option Contract := do
  return { path := ← d.path, name := ← d.name, properties := ← d.properties, events := ← d.events,
           slots := ← d.slots, metrics := ← d.metrics, diagnostics := ← d.diagnostics }

def reader : Reader Contract := .record fields {} Draft.finish

end Contract

namespace Manifest

def toJson (m : Manifest) : Json :=
  .object [("version".toList, .string m.version), ("scannedAt".toList, .string m.scannedAt),
    ("components".toList, .array (m.components.map Contract.toJson))]

structure Draft where
  version : Option Text := none
  scannedAt : Option Text := none
  components : Option (List Contract) := none

def fields : List (Member Draft) := [
  .of "version" .string (·.version.isSome) fun a d => { d with version := some a },
  .of "scannedAt" .string (·.scannedAt.isSome) fun a d => { d with scannedAt := some a },
  .of "components" (.list Contract.reader) (·.components.isSome) fun a d => { d with components := some a }]

def Draft.finish (d : Draft) : Option Manifest := do
  return { version := ← d.version, scannedAt := ← d.scannedAt, components := ← d.components }

def reader : Reader Manifest := .record fields {} Draft.finish

def write (m : Manifest) : Text := m.toJson.write

def parse (t : Text) : Except Json.Fault Manifest := Json.Reader.whole reader t

end Manifest

end SfcContract
