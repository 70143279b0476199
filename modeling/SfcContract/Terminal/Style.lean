import SfcContract.Text.Basic

/-!
# Styled text

A style is a list of codes. It starts before the text it applies to, and again after every reset
within that text.
-/

namespace SfcContract

inductive Style where
  | bold
  | dimmed
  | red
  | green
  | yellow
  | blue
  | cyan
  deriving DecidableEq, Repr

namespace Style

def code : Style → Nat
  | bold => 1
  | dimmed => 2
  | red => 31
  | green => 32
  | yellow => 33
  | blue => 34
  | cyan => 36

def reset : Text := "\x1b[0m".toList

def start (styles : List Style) : Text :=
  "\x1b[".toList ++ [';'].intercalate (styles.map fun s => Text.ofNat s.code) ++ ['m']

/-- Starts a style again after each reset. -/
def resume (start : Text) : Text → Text
  | '\x1b' :: '[' :: '0' :: 'm' :: t => reset ++ start ++ resume start t
  | c :: t => c :: resume start t
  | [] => []

def paint (color : Bool) (styles : List Style) (t : Text) : Text :=
  if color then start styles ++ resume (start styles) t ++ reset else t

end Style

end SfcContract
