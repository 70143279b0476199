import SfcContract.Failure
import SfcContract.Json.Basic

/-!
# Configuration

A configuration is looked for in the scanned directory and then in its parents, up to the root of a
repository. Without one the defaults hold.
-/

namespace SfcContract

structure Config where
  ignores : List Text := ["**/node_modules/**".toList, "**/dist/**".toList]
  includes : List Text := []
  manifestPath : Path := "vuepact.manifest.json".toList
  /-- Where a report is written, if one is wanted. -/
  reportPath : Option Path := none
  deriving DecidableEq, Repr

namespace Config

open Json (Reader)
open Json.Reader (Member)

def fileName : Text := ".vuepactrc.json".toList

/-- What marks the root of a repository. -/
def repositoryMark : Text := ".git".toList

def toJson (c : Config) : Json :=
  .object ([("ignores".toList, Json.strings c.ignores), ("includes".toList, Json.strings c.includes),
      ("manifestPath".toList, .string c.manifestPath)] ++
    Json.optional "reportPath".toList c.reportPath)

structure Draft where
  ignores : Option (List Text) := none
  includes : Option (List Text) := none
  manifestPath : Option Path := none
  reportPath : Option (Option Path) := none

def fields : List (Member Draft) := [
  .of "ignores" (.list .string) (·.ignores.isSome) fun a d => { d with ignores := some a },
  .of "includes" (.list .string) (·.includes.isSome) fun a d => { d with includes := some a },
  .of "manifestPath" .string (·.manifestPath.isSome) fun a d => { d with manifestPath := some a },
  .of "reportPath" (.nullable .string) (·.reportPath.isSome) fun a d => { d with reportPath := some a }]

/-- A missing member has its default. -/
def Draft.finish (d : Draft) : Config :=
  let base : Config := {}
  { ignores := d.ignores.getD base.ignores
    includes := d.includes.getD base.includes
    manifestPath := d.manifestPath.getD base.manifestPath
    reportPath := d.reportPath.getD base.reportPath }

def reader : Reader Config := .record fields {} fun d => some d.finish

def parse (t : Text) : Except Json.Fault Config := Json.Reader.whole reader t

def initialText : Text := (toJson {}).write

def patternError? (t : Text) : Option Glob.Error :=
  match Glob.parse t with
  | .error e => some e
  | .ok _ => none

/-- The first fault of a configuration. Every ignored pattern must be one, and so must an included one
that has wildcards: without them it is a directory as it stands. -/
def fault? (c : Config) : Option Failure :=
  (c.ignores.findSome? fun t => (patternError? t).map (.invalidIgnore t)) <|>
    (c.includes.filter Glob.isPattern).findSome? fun t => (patternError? t).map (.invalidInclude t)

/-- The first of some directories that has a configuration file, unless the root of a repository comes
before it. -/
def search (t : Tree) : List Path → Option Path
  | [] => none
  | directory :: rest =>
    if t.contains (Path.join directory fileName) then some (Path.join directory fileName)
    else if t.contains (Path.join directory repositoryMark) then none
    else search t rest

def find? (t : Tree) (start : Path) : Option Path := search t (Path.ancestors start)

/-- A configuration and whether it is that of a file. -/
structure Loaded where
  config : Config
  fromFile : Bool
  deriving DecidableEq, Repr

def load (t : Tree) (start : Path) : Except Failure Loaded :=
  match find? t start with
  | none => .ok ⟨{}, false⟩
  | some path =>
    match t.read path with
    | .error fault => .error (.readConfig path fault)
    | .ok content =>
      match parse content with
      | .error fault => .error (.parseConfig path fault)
      | .ok config =>
        match config.fault? with
        | some failure => .error failure
        | none => .ok ⟨config, true⟩

end Config

end SfcContract
