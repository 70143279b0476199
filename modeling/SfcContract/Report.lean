import SfcContract.Manifest
import SfcContract.Number.Shortest

/-!
# Markdown reports

One section for each component; what a component does not have is left out of its section.
-/

namespace SfcContract.Report

def title : Text := "# Vue Pact Report".toList

/-- Numbers are written without an exponent, and integers without a fraction. -/
def numberLayout : Binary64.Layout := ⟨none, false⟩

/-- A table cell holds neither bars nor line breaks. -/
def escapeCell (t : Text) : Text :=
  Text.substitute (fun c =>
    if c = '|' then ['\\', '|'] else if c = '\n' ∨ c = '\r' then [' '] else [c]) t

def escapeTags (t : Text) : Text :=
  Text.substitute (fun c =>
    if c = '<' then "&lt;".toList else if c = '>' then "&gt;".toList else [c]) t

def commaSeparated (ts : List Text) : Text := [',', ' '].intercalate ts

def inCode (t : Text) : Text := ['\x60'] ++ t ++ ['\x60']

def parenthesized (n : Nat) : Text := ['('] ++ Text.ofNat n ++ [')']

def row (p : Property) : Text :=
  "| ".toList ++ p.name ++ " | ".toList ++ escapeCell p.type ++ " | ".toList ++
    (if p.required then "yes".toList else "no".toList) ++ " | ".toList ++
    (match p.defaultValue with
      | none => []
      | some d => inCode (escapeCell d)) ++ " |".toList

def finding (d : Diagnostic) : Text :=
  "- [".toList ++ d.rule.label ++ "] ".toList ++ escapeTags d.message ++
    match d.excerpt with
    | none => []
    | some e => " (".toList ++ inCode e ++ ")".toList

/-- Lines that are left out when there is nothing to tell. -/
def unlessEmpty {α : Type} (as : List α) (lines : List Text) : List Text :=
  if as.isEmpty then [] else [] :: lines

def componentLines (c : Contract) : List Text :=
  ["## ".toList ++ c.name ++ " (".toList ++ inCode c.path ++ ")".toList,
    [],
    "**Props ".toList ++ parenthesized c.properties.length ++ "** | **Emits ".toList ++
      parenthesized c.events.length ++ "** | **Slots ".toList ++ parenthesized c.slots.length ++
      "** | **Cohesion ".toList ++ numberLayout.write c.metrics.cohesion ++ "**".toList] ++
  unlessEmpty c.properties
    (["| name | type | required | default |".toList, "| --- | --- | --- | --- |".toList] ++
      c.properties.map row) ++
  unlessEmpty c.events ["**Emits:** ".toList ++ commaSeparated c.events] ++
  unlessEmpty c.slots ["**Slots:** ".toList ++ commaSeparated c.slots] ++
  unlessEmpty c.diagnostics
    (["**Diagnostics ".toList ++ parenthesized c.diagnostics.length ++ "**".toList, []] ++
      c.diagnostics.map finding)

def lines (m : Manifest) : List Text :=
  [title, [],
    "Scanned ".toList ++ Text.ofNat m.components.length ++ " component(s) at ".toList ++ m.scannedAt ++
      ".".toList] ++
  m.components.flatMap fun c => [] :: componentLines c

def write (m : Manifest) : Text := Text.unlines (lines m)

end SfcContract.Report
