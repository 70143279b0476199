import SfcContract.Scan.Note

/-!
# Component files

The files of a scan lie below the included directories, or below the base when none are included, and
are not ignored. An entry with wildcards is a pattern; any other entry is a path seen from the base.
-/

namespace SfcContract.Scan

structure Ignores where
  paths : List Path
  patterns : List (List Glob.Token)

def Ignores.ofEntries (base : Path) (entries : List Text) : Ignores where
  paths := (entries.filter (!Glob.isPattern ·)).map (Path.join base)
  patterns := (entries.filter Glob.isPattern).filterMap fun t => (Glob.parse t).toOption

/-- A path is ignored by the path of a directory it lies in, and by a pattern it matches as it is
written. -/
def Ignores.covers (i : Ignores) (p : Path) : Bool :=
  i.paths.any (Path.isBelow p) || i.patterns.any (Glob.matchesText · p)

def ignoreNotes (entries : List Text) : List Note :=
  (entries.filter Glob.isPattern).filterMap fun t => (Config.patternError? t).map (.invalidIgnore t)

/-- The paths an included entry stands for, and what there is to note. -/
def included (t : Tree) (base : Path) (entry : Text) : List Path × List Note :=
  let path := Path.join base entry
  if Glob.isPattern entry then
    match Glob.directories t path with
    | .ok paths => (paths, [])
    | .error e => ([], [.invalidInclude entry e])
  else if t.contains path then ([path], [])
  else ([], [.missingInclude path])

def starts (t : Tree) (base : Path) (includes : List Text) : List Path × List Note :=
  if includes.isEmpty then ([base], [])
  else (includes.flatMap fun e => (included t base e).1, includes.flatMap fun e => (included t base e).2)

def isComponentFile (p : Path) : Bool := Path.extension? p == some "vue".toList

def componentFiles (t : Tree) (ignores : Ignores) (start : Path) : Except FileFault (List Path) := do
  let found ← t.below start
  return found.filterMap fun (p, e) =>
    if !e.isDirectory && isComponentFile p && !ignores.covers p then some p else none

structure Files where
  /-- Each file once, in order. -/
  paths : List Path
  notes : List Note
  deriving DecidableEq, Repr

/-- The number of places that could not be accessed. -/
def Files.skipped (f : Files) : Nat :=
  f.notes.countP fun
    | .inaccessible _ _ => true
    | _ => false

def files (t : Tree) (base : Path) (includes ignores : List Text) : Files :=
  let (starts, notes) := starts t base includes
  let found := starts.map fun p => (p, componentFiles t (Ignores.ofEntries base ignores) p)
  { paths := ((found.flatMap fun r => r.2.toOption.getD []).eraseDups).mergeSort Text.isAtMost
    notes := ignoreNotes ignores ++ notes ++ found.filterMap fun
      | (p, .error fault) => some (.inaccessible p fault)
      | _ => none }

end SfcContract.Scan
