import SfcContract.Code.Scan

/-!
# Partners of brackets
-/

namespace SfcContract.Code

/-- The place of the bracket that closes the one a text starts with. Literals and comments in front of
that bracket are passed over. -/
def matchingClose? (t : Text) : Option Nat :=
  let ms := marks .ignore t
  match ms.dropWhile (·.depth.isNone) with
  | [] => none
  | first :: rest =>
    if isOpening first.char then
      (rest.findIdx? fun m => m.depth == some 0 && isClosing m.char).map
        (· + (ms.takeWhile (·.depth.isNone)).length + 1)
    else none

/-- The text from the second character up to that place. -/
def bracedBody? (t : Text) : Option Text :=
  (matchingClose? t).map fun n => (t.take n).drop 1

def matchingCloseAt? (t : Text) (offset : Nat) : Option Nat := do
  let rest ← Text.dropBytes? offset t
  let n ← matchingClose? rest
  return offset + Text.byteSize (rest.take n)

def bracedBodyAt? (t : Text) (offset : Nat) : Option Text :=
  (Text.dropBytes? offset t).bind bracedBody?

end SfcContract.Code
