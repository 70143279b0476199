import SfcContract.Manifest.Json
import SfcContract.Report
import SfcContract.Failure

/-!
# Manifests and reports in a file tree
-/

namespace SfcContract

namespace Tree

/-- Writes a text after making the directories above it. Directories made before a failure stay. -/
def save (t : Tree) (p : Path) (content : Text) (failure : FileFault → Failure) :
    Tree × Except Failure Unit :=
  let parent := (Path.parent? p).getD []
  match t.makeDirectoryPath parent with
  | (t', .error fault) => (t', .error (.createDirectory parent fault))
  | (t', .ok ()) =>
    match t'.write p (encode content) with
    | .ok t'' => (t'', .ok ())
    | .error fault => (t', .error (failure fault))

end Tree

namespace Manifest

def fileText (m : Manifest) : Text := m.write ++ ['\n']

def save (t : Tree) (p : Path) (m : Manifest) : Tree × Except Failure Unit :=
  t.save p m.fileText (.writeManifest p)

def load (t : Tree) (p : Path) : Except Failure Manifest :=
  match t.read p with
  | .error fault => .error (.readManifest p fault)
  | .ok content =>
    match parse content with
    | .error fault => .error (.parseManifest p fault)
    | .ok m => .ok m

end Manifest

def Report.save (t : Tree) (p : Path) (m : Manifest) : Tree × Except Failure Unit :=
  t.save p (Report.write m) (.writeReport p)

end SfcContract
