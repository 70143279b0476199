import SfcContract.Config
import SfcContract.Terminal.Style

/-!
# Notes

What a scan has to say beside its result. Some of it only matters when details are wanted.
-/

namespace SfcContract

inductive Note where
  | invalidIgnore (pattern : Text) (error : Glob.Error)
  | invalidInclude (pattern : Text) (error : Glob.Error)
  | missingInclude (path : Path)
  | inaccessible (path : Path) (fault : FileFault)
  | defaultConfig
  /-- How many paths could not be accessed. -/
  | skipped (count : Nat)
  deriving DecidableEq, Repr

namespace Note

def isDetail : Note → Bool
  | skipped _ => false
  | _ => true

def warning (color : Bool) : Text := Style.paint color [.bold, .yellow] "warning:".toList

def message (color details : Bool) : Note → Text
  | invalidIgnore pattern e =>
    warning color ++ " Invalid ignore pattern '".toList ++ pattern ++ "': ".toList ++ e.message
  | invalidInclude pattern e =>
    warning color ++ " Invalid glob pattern '".toList ++ pattern ++ "': ".toList ++ e.message
  | missingInclude path => warning color ++ " Include path does not exist: ".toList ++ path
  | inaccessible path fault =>
    warning color ++ " Cannot access path: IO error for operation on ".toList ++ path ++ ": ".toList ++
      fault.description
  | defaultConfig => "Note: No ".toList ++ Config.fileName ++ " found, using default configuration".toList
  | skipped count =>
    "Warning: ".toList ++ Text.ofNat count ++ " path(s) skipped due to access errors".toList ++
      if details then [] else " (use -v for details)".toList

def write (color details : Bool) (notes : List Note) : Text :=
  Text.unlines ((notes.filter fun n => details || !n.isDetail).map (message color details))

end Note

end SfcContract
