import SfcContract.Manifest
import SfcContract.Scan.Files

/-!
# Scans

A scan is planned from the configuration and then analyses every file on its own: a file that cannot
be read is left out and reported, and has no effect on the others.
-/

namespace SfcContract

/-- A file without a contract. -/
structure SkippedFile where
  path : Text
  reason : Text
  deriving DecidableEq, Repr

def SkippedFile.text (s : SkippedFile) : Text := s.path ++ " - ".toList ++ s.reason

namespace Scan

/-- What is asked of a scan. Paths that are given here outrank the configured ones. -/
structure Request where
  root : Path := ['.']
  out : Option Path := none
  report : Option Path := none
  strict : Bool := false
  verbose : Bool := false
  deriving DecidableEq, Repr

structure Plan where
  root : Path
  files : List Path
  manifestPath : Path
  reportPath : Option Path
  notes : List Note
  deriving DecidableEq, Repr

/-- Plans a scan. Configured paths are seen from the scanned directory. -/
def plan (t : Tree) (r : Request) : Except Failure Plan :=
  if !t.isDirectory r.root then .error (.rootNotDirectory r.root)
  else do
    let loaded ← Config.load t r.root
    let found := files t r.root loaded.config.includes loaded.config.ignores
    return {
      root := r.root
      files := found.paths
      manifestPath := r.out.getD (Path.fromRoot r.root loaded.config.manifestPath)
      reportPath := r.report <|> loaded.config.reportPath.map (Path.fromRoot r.root)
      notes := (if loaded.fromFile then [] else [.defaultConfig]) ++ found.notes ++
        if found.skipped = 0 then [] else [.skipped found.skipped] }

/-- The contracts, ordered by path, and the files that could not be read. -/
structure Outcome where
  components : List Contract
  skipped : List SkippedFile
  deriving DecidableEq, Repr

def record (t : Tree) (root file : Path) : Except SkippedFile Contract :=
  match t.read file with
  | .ok source => .ok (Contract.analyze source (Path.display root file))
  | .error fault => .error ⟨Path.display root file, "Failed to read file: ".toList ++ fault.description⟩

def Plan.analyze (t : Tree) (p : Plan) : Outcome :=
  let records := p.files.map (record t p.root)
  { components := (records.filterMap Except.toOption).mergeSort fun a b => Text.isAtMost a.path b.path
    skipped := records.filterMap fun
      | .error s => some s
      | .ok _ => none }

end Scan

end SfcContract
