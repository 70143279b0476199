/-!
# Text as a list of characters

Offsets are measured in UTF-8 bytes. A blank is a character of Unicode's `White_Space`.
-/

namespace SfcContract

/-- Everything the library reads or writes as text. -/
abbrev Text := List Char

namespace Text

def byteSize : Text → Nat
  | [] => 0
  | c :: t => c.utf8Size + byteSize t

/-- The text from a byte offset on; `none` past the end and inside a character. -/
def dropBytes? : Nat → Text → Option Text
  | 0, t => some t
  | _ + 1, [] => none
  | n + 1, c :: t => if c.utf8Size ≤ n + 1 then dropBytes? (n + 1 - c.utf8Size) t else none

def inRanges (ranges : List (Nat × Nat)) (c : Char) : Bool :=
  ranges.any fun r => r.1 ≤ c.toNat && c.toNat ≤ r.2

def blankRanges : List (Nat × Nat) :=
  [(0x9, 0xD), (0x20, 0x20), (0x85, 0x85), (0xA0, 0xA0), (0x1680, 0x1680), (0x2000, 0x200A),
    (0x2028, 0x2029), (0x202F, 0x202F), (0x205F, 0x205F), (0x3000, 0x3000)]

def isBlank (c : Char) : Bool := inRanges blankRanges c

def skipBlanks (t : Text) : Text := t.dropWhile isBlank

def trimEnd (t : Text) : Text := (skipBlanks t.reverse).reverse

def trim (t : Text) : Text := trimEnd (skipBlanks t)

/-- The first character, when it is the expected one, is passed over. -/
def expect? (c : Char) : Text → Option Text
  | [] => none
  | d :: t => if d = c then some t else none

def startsWith (c : Char) (t : Text) : Bool := (expect? c t).isSome

def after? (lead t : Text) : Option Text := List.isPrefixOf? lead t

def before? (tail t : Text) : Option Text := (after? tail.reverse t.reverse).map List.reverse

def occurs (part : Text) : Text → Bool
  | [] => part.isEmpty
  | c :: t => part.isPrefixOf (c :: t) || occurs part t

def substitute (f : Char → Text) (t : Text) : Text := (t.map f).flatten

def unlines (ls : List Text) : Text := (ls.map (· ++ ['\n'])).flatten

/-- Whether a text comes before another one, or is that one, in the order of code points. -/
def isAtMost : Text → Text → Bool
  | [], _ => true
  | _ :: _, [] => false
  | c :: s, d :: t => if c.toNat = d.toNat then isAtMost s t else c.toNat < d.toNat

def ofNat (n : Nat) : Text := Nat.toDigits 10 n

end Text

end SfcContract
