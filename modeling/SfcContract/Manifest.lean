import SfcContract.Contract

/-!
# Manifests

All contracts of one scan, with the version of the format and the time of the scan.
-/

namespace SfcContract

structure Manifest where
  version : Text
  scannedAt : Text
  components : List Contract
  deriving DecidableEq, Repr

namespace Manifest

def currentVersion : Text := "0.1.0".toList

def ofScan (scannedAt : Text) (components : List Contract) : Manifest :=
  ⟨currentVersion, scannedAt, components⟩

def filter (m : Manifest) (query : Text) : List Contract := m.components.filter (·.answers query)

/-- The component with a path, or else the first one with a name. -/
def find? (m : Manifest) (key : Text) : Option Contract :=
  m.components.find? (·.path == key) <|> m.components.find? (·.name == key)

def diagnostics (m : Manifest) : List Diagnostic := m.components.flatMap Contract.diagnostics

def diagnosticCount (m : Manifest) : Nat := m.diagnostics.length

end Manifest

end SfcContract
