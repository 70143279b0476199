import SfcContract.Report
import SfcContract.Scan
import SfcContract.Text.Width

/-!
# Output of commands
-/

namespace SfcContract.Terminal

open Style (paint)

def successMark : Text := ['\u2713']

def failureMark : Text := ['\u2718']

def plural (n : Nat) (one many : String) : Text := (if n = 1 then one else many).toList

def diagnosticLines (color : Bool) (path : Text) (d : Diagnostic) : List Text :=
  [paint color [.bold, .yellow] "warning".toList ++ ": ".toList ++ d.message ++ "  ".toList ++
      paint color [.dimmed, .cyan] d.rule.label,
    "  ".toList ++ paint color [.blue] "-->".toList ++ [' '] ++ path] ++
  (match d.excerpt with
    | none => []
    | some e => ["   ".toList ++ paint color [.blue] ['='] ++ [' '] ++ paint color [.bold] "note:".toList ++
        [' '] ++ e]) ++ [[]]

def scanSummary (color : Bool) (m : Manifest) : Text :=
  let count := m.components.length
  let total := m.diagnosticCount
  if total = 0 then
    paint color [.green] successMark ++ [' '] ++ paint color [.green] ("Scanned ".toList ++
      Text.ofNat count ++ [' '] ++ plural count "component" "components" ++ " - no diagnostics found".toList)
  else
    paint color [.red] failureMark ++ [' '] ++ Text.ofNat total ++ [' '] ++
      paint color [.yellow] (plural total "diagnostic" "diagnostics") ++ " in ".toList ++
      Text.ofNat (m.components.countP (!·.diagnostics.isEmpty)) ++ " of ".toList ++ Text.ofNat count ++
      [' '] ++ plural count "component" "components"

def scan (color : Bool) (m : Manifest) (manifestPath : Path) (reportPath : Option Path) : Text :=
  let wrote (what : String) (p : Path) : Text := paint color [.bold] what.toList ++ [' '] ++ p
  Text.unlines ((m.components.flatMap fun c => c.diagnostics.flatMap (diagnosticLines color c.path)) ++
    [scanSummary color m, wrote "Wrote manifest:" manifestPath] ++
    reportPath.toList.map (wrote "Wrote report:"))

def skippedFiles (color verbose : Bool) (skipped : List SkippedFile) : Text :=
  if skipped.isEmpty then []
  else if verbose then
    Text.unlines (skipped.map fun s => Note.warning color ++ " skipped ".toList ++ s.text)
  else
    Text.unlines [Note.warning color ++ [' '] ++ Text.ofNat skipped.length ++
      " file(s) could not be read (use ".toList ++ paint color [.cyan] "-v".toList ++ " for details)".toList]

def noMatch (color : Bool) (query : Text) (manifestPath : Path) : Text :=
  Text.unlines [paint color [.red] failureMark ++ " No components match ".toList ++
    (if query.isEmpty then "(all)".toList else ['\x22'] ++ query ++ ['\x22']) ++ " in ".toList ++ manifestPath]

/-- The widest of some cells. -/
def columnWidth (cells : List Text) : Nat := (cells.map Text.width).foldl max 0

def alignRight (columns n : Nat) : Text :=
  List.replicate (columns - (Text.ofNat n).length) ' ' ++ Text.ofNat n

/-- All components of a query, of which one is marked. -/
def matchList (color : Bool) (found : List Contract) (selected : Nat) : Text :=
  let indexWidth := (Text.ofNat found.length).length
  let nameWidth := columnWidth (found.map Contract.name)
  Text.unlines ((Text.ofNat found.length ++ " matching components:".toList) ::
    found.mapIdx fun i c =>
      paint color [.cyan] (if i = selected then ['>'] else [' ']) ++ [' '] ++
        alignRight indexWidth (i + 1) ++ ". ".toList ++ paint color [.bold] (Text.padTo nameWidth c.name) ++
        "  ".toList ++ paint color [.dimmed] c.path)

def propertyLine (nameWidth typeWidth : Nat) (p : Property) : Text :=
  Text.trimEnd ("    ".toList ++ Text.padTo nameWidth p.name ++ "  ".toList ++
    Text.padTo typeWidth p.type ++ "  ".toList ++
    (if p.required then "required".toList else "optional".toList) ++
    match p.defaultValue with
    | none => []
    | some d => "  default: ".toList ++ d)

def contract (color : Bool) (c : Contract) : Text :=
  let heading (what : String) (n : Nat) : Text :=
    "  ".toList ++ paint color [.bold] (what.toList ++ " (".toList ++ Text.ofNat n ++ "):".toList)
  let m := c.metrics
  Text.unlines (
    [paint color [.bold] c.name ++ " (".toList ++ paint color [.dimmed] c.path ++ ")".toList,
      heading "props" c.properties.length] ++
    c.properties.map (propertyLine (columnWidth (c.properties.map Property.name))
      (columnWidth (c.properties.map Property.type))) ++
    [heading "emits" c.events.length ++ [' '] ++ Report.commaSeparated c.events,
      heading "slots" c.slots.length ++ [' '] ++ Report.commaSeparated c.slots,
      "  ".toList ++ paint color [.bold] "metrics:".toList ++ [' '] ++ Text.ofNat m.templateLines ++
        " template lines, ".toList ++ Text.ofNat m.scriptLines ++ " script lines, ".toList ++
        Text.ofNat m.branches ++ " branches, cohesion ".toList ++ Report.numberLayout.write m.cohesion ++
        " (".toList ++ Text.ofNat m.propsUsed ++ "/".toList ++ Text.ofNat m.propsDeclared ++ ")".toList,
      heading "diagnostics" c.diagnostics.length] ++
    c.diagnostics.map fun d =>
      "    ".toList ++ paint color [.yellow] (['['] ++ d.rule.label ++ [']']) ++ [' '] ++ d.message)

/-- The selected one of some components, after a list of them when there are several. -/
def selection (color : Bool) (found : List Contract) (selected : Nat) : Text :=
  (if 1 < found.length then matchList color found selected ++ ['\n'] else []) ++
    match found[selected]? with
    | some c => contract color c
    | none => []

def configCreated (color : Bool) : Text :=
  Text.unlines [paint color [.green] successMark ++ [' '] ++
    paint color [.green] ("Created ".toList ++ Config.fileName)]

def configExists : Text := Text.unlines ["Error: ".toList ++ Config.fileName ++ " already exists".toList]

end SfcContract.Terminal
