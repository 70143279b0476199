import SfcContract.Store
import SfcContract.Terminal.Output

/-!
# Commands

A command works on a file tree and answers the tree it leaves, what it prints, and its exit status or
the failure that ended it.
-/

namespace SfcContract

/-- What is asked of a look into a manifest. Components are counted from one. -/
structure ShowRequest where
  query : Text := []
  manifest : Option Path := none
  select : Nat := 1
  verbose : Bool := false
  deriving DecidableEq, Repr

inductive Command where
  | scan (request : Scan.Request)
  | display (request : ShowRequest)
  | init
  | serve
  deriving DecidableEq, Repr

namespace Command

structure Run where
  tree : Tree
  output : Text := []
  errors : Text := []
  status : Except Failure Nat := .ok 0

structure Setting where
  color : Bool := false
  /-- The time that a manifest is marked with. -/
  now : Text := []

/-- Writes the manifest and then the report, if one is wanted. -/
def saveOutputs (t : Tree) (plan : Scan.Plan) (m : Manifest) : Tree × Except Failure Unit :=
  match m.save t plan.manifestPath with
  | (t', .error failure) => (t', .error failure)
  | (t', .ok ()) =>
    match plan.reportPath with
    | none => (t', .ok ())
    | some p => Report.save t' p m

/-- Scans, and writes what was found. Diagnostics make the status one when the scan is strict. -/
def runScan (s : Setting) (t : Tree) (r : Scan.Request) : Run :=
  match Scan.plan t r with
  | .error failure => { tree := t, status := .error failure }
  | .ok plan =>
    let outcome := plan.analyze t
    let m := Manifest.ofScan s.now outcome.components
    let notes := Note.write s.color r.verbose plan.notes
    match saveOutputs t plan m with
    | (t', .error failure) => { tree := t', errors := notes, status := .error failure }
    | (t', .ok ()) =>
      { tree := t'
        output := Terminal.scan s.color m plan.manifestPath plan.reportPath
        errors := notes ++ Terminal.skippedFiles s.color r.verbose outcome.skipped
        status := .ok (if r.strict && m.diagnosticCount != 0 then 1 else 0) }

def manifestPathOf (t : Tree) (r : ShowRequest) : Except Failure Path :=
  match r.manifest with
  | some p => .ok p
  | none => (Config.load t ['.']).map (·.config.manifestPath)

/-- The components a request is about, and the place of the selected one among them; `none` when there
are no components. -/
def pick (m : Manifest) (r : ShowRequest) : Except Failure (Option (List Contract × Nat)) :=
  let found := m.filter r.query
  if found.isEmpty then .ok none
  else if r.select = 0 ∨ found.length < r.select then .error (.selectOutOfRange r.select found.length)
  else .ok (some (found, r.select - 1))

/-- Shows a component of a manifest. It changes nothing, and has status one when there is none. -/
def runDisplay (s : Setting) (t : Tree) (r : ShowRequest) : Run :=
  let result : Except Failure (Text × Nat) := do
    let p ← manifestPathOf t r
    let m ← Manifest.load t p
    match ← pick m r with
    | none => return (Terminal.noMatch s.color r.query p, 1)
    | some (found, selected) => return (Terminal.selection s.color found selected, 0)
  match result with
  | .error failure => { tree := t, status := .error failure }
  | .ok (output, status) => { tree := t, output, status := .ok status }

/-- Writes a new configuration file, and never over an old one. -/
def runInit (s : Setting) (t : Tree) : Run :=
  if t.contains Config.fileName then { tree := t, errors := Terminal.configExists, status := .ok 1 }
  else match t.write Config.fileName (Tree.encode Config.initialText) with
    | .ok t' => { tree := t', output := Terminal.configCreated s.color }
    | .error fault => { tree := t, status := .error (.writeConfig fault) }

def run (s : Setting) (t : Tree) (c : Command) : Run :=
  match c with
  | scan r => runScan s t r
  | display r => runDisplay s t r
  | init => runInit s t
  | serve => { tree := t, status := .error .serveIsNoCommand }

end Command

end SfcContract
