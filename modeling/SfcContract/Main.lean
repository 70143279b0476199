import Std.Time.DateTime.Timestamp
import SfcContract.Command.Line
import SfcContract.Time

/-!
# The program

Takes the working directory as a file tree, of which it is the top, runs a command on it, and writes
back what the command changed. What lies outside of the working directory is not read.
-/

namespace SfcContract.Program

/-- Everything at and below a directory entry. -/
partial def entriesAt (above : Location) (e : IO.FS.DirEntry) : IO (List (Location × Entry)) := do
  let here := above ++ [e.fileName.toList]
  if ← e.path.isDir then
    let below ← (← e.path.readDir).toList.mapM (entriesAt here)
    return (here, .directory) :: below.flatten
  else
    return [(here, .file (← IO.FS.readBinFile e.path))]

def workingTree : IO Tree := do
  let found ← (← (← IO.currentDir).readDir).toList.mapM (entriesAt [])
  return found.flatten.foldl (fun t e => t.set e.1 e.2) .empty

/-- Writes the entries of a tree that another one does not have. -/
def writeChanges (old new : Tree) : IO Unit := do
  for (l, e) in new.entries do
    let path := String.ofList (Path.ofSegments l)
    match e, old.get? l with
    | .directory, some .directory => pure ()
    | .directory, _ => IO.FS.createDirAll path
    | .file content, some (.file before) =>
      unless content.toList == before.toList do IO.FS.writeBinFile path content
    | .file content, _ => IO.FS.writeBinFile path content

def describe (f : Failure) : Text :=
  f.message ++ match f.cause? with
    | none => []
    | some (.file fault) => ": ".toList ++ fault.description
    | some (.pattern e) => ": ".toList ++ e.message
    | some (.json .ended) => ": the text ends too early".toList
    | some (.json .malformed) => ": the text is not JSON".toList
    | some (.json .mismatched) => ": the text has another form".toList

def help : String :=
  "Usage: vuepact <COMMAND>\n\n" ++
  "Commands:\n" ++
  "  scan [PATH] [--out PATH] [--report PATH] [--strict] [-v]\n" ++
  "  show [QUERY] [--manifest PATH] [--select N] [-v]\n" ++
  "  init\n" ++
  "  serve\n"

def explain : CommandLine.Usage → String
  | .help => help
  | .version => "vuepact " ++ String.ofList Manifest.currentVersion ++ "\n"
  | .unknownCommand => "error: unknown command\n"
  | .unknownArgument => "error: unknown argument\n"
  | .missingValue => "error: a value is missing\n"
  | .excessValue => "error: the argument takes no value\n"
  | .malformedValue => "error: a value has the wrong form\n"
  | .repeated => "error: an argument is given twice\n"

def runCommand (c : Command) : IO UInt32 := do
  let stdout ← IO.getStdout
  let stderr ← IO.getStderr
  let seconds := (← Std.Time.Timestamp.now).toSecondsSinceUnixEpoch.val.toNat
  let tree ← workingTree
  let run := c.run { color := ← stdout.isTty, now := Time.write seconds } tree
  writeChanges tree run.tree
  stdout.putStr (String.ofList run.output)
  stderr.putStr (String.ofList run.errors)
  match run.status with
  | .ok status => return status.toUInt32
  | .error failure =>
    stderr.putStrLn ("Error: " ++ String.ofList (describe failure))
    return 2

end SfcContract.Program

open SfcContract in
def main (arguments : List String) : IO UInt32 := do
  match CommandLine.parse (arguments.map String.toList) with
  | .ok none =>
    (← IO.getStdout).putStr Program.help
    return 0
  | .ok (some c) => Program.runCommand c
  | .error usage =>
    if usage = .help ∨ usage = .version then
      (← IO.getStdout).putStr (Program.explain usage)
      return 0
    else
      (← IO.getStderr).putStr (Program.explain usage)
      return 2
