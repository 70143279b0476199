import SfcContract.Glob
import SfcContract.Json.Reader
import SfcContract.Text.Quoted

/-!
# Failures of a command

A failure tells what could not be done, and most have a cause of their own.
-/

namespace SfcContract

inductive Cause where
  | file (fault : FileFault)
  | json (fault : Json.Fault)
  | pattern (error : Glob.Error)
  deriving DecidableEq, Repr

inductive Failure where
  | rootNotDirectory (root : Path)
  | readConfig (path : Path) (fault : FileFault)
  | parseConfig (path : Path) (fault : Json.Fault)
  | invalidIgnore (pattern : Text) (error : Glob.Error)
  | invalidInclude (pattern : Text) (error : Glob.Error)
  | writeConfig (fault : FileFault)
  | readManifest (path : Path) (fault : FileFault)
  | parseManifest (path : Path) (fault : Json.Fault)
  | createDirectory (path : Path) (fault : FileFault)
  | writeManifest (path : Path) (fault : FileFault)
  | writeReport (path : Path) (fault : FileFault)
  | selectOutOfRange (select matching : Nat)
  /-- A server is no command that runs to an end. -/
  | serveIsNoCommand
  deriving DecidableEq, Repr

namespace Failure

def message : Failure → Text
  | rootNotDirectory root => "Scan root is not a directory: ".toList ++ root
  | readConfig path _ => "Failed to read config file: ".toList ++ Text.quoted path
  | parseConfig path _ => "Failed to parse config file: ".toList ++ Text.quoted path
  | invalidIgnore pattern _ => "Invalid glob pattern in 'ignores': \"".toList ++ pattern ++ ['\x22']
  | invalidInclude pattern _ => "Invalid glob pattern in 'includes': \"".toList ++ pattern ++ ['\x22']
  | writeConfig _ => "Failed to write .vuepactrc.json".toList
  | readManifest path _ => "Failed to read manifest: ".toList ++ path
  | parseManifest path _ => "Failed to parse manifest: ".toList ++ path
  | createDirectory path _ => "Failed to create directory: ".toList ++ path
  | writeManifest path _ => "Failed to write manifest: ".toList ++ path
  | writeReport path _ => "Failed to write report: ".toList ++ path
  | selectOutOfRange select matching =>
    "--select ".toList ++ Text.ofNat select ++ " is out of range (".toList ++ Text.ofNat matching ++
      " matching component(s))".toList
  | serveIsNoCommand => "Serve command should be handled before run()".toList

def cause? : Failure → Option Cause
  | readConfig _ fault => some (.file fault)
  | parseConfig _ fault => some (.json fault)
  | invalidIgnore _ error => some (.pattern error)
  | invalidInclude _ error => some (.pattern error)
  | writeConfig fault => some (.file fault)
  | readManifest _ fault => some (.file fault)
  | parseManifest _ fault => some (.json fault)
  | createDirectory _ fault => some (.file fault)
  | writeManifest _ fault => some (.file fault)
  | writeReport _ fault => some (.file fault)
  | rootNotDirectory _ => none
  | selectOutOfRange _ _ => none
  | serveIsNoCommand => none

end Failure

end SfcContract
