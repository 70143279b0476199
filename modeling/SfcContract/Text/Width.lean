import SfcContract.Text.Emoji
import SfcContract.Text.Mark

/-!
# Display width

The number of columns a text takes in a terminal. Marks take none and ideographs take two. Characters
that make one sign together take the columns of that sign: the parts of an emoji, the letters of some
ligatures, a consonant and the one written below it. What a character takes is known from what follows
it, so a text is measured from its end.
-/

namespace SfcContract.Text

def wideRanges : List (Nat × Nat) := [
  (0x1100, 0x115F), (0x17A4, 0x17A4), (0x231A, 0x231B), (0x2329, 0x232A), (0x23E9, 0x23EC), (0x23F0, 0x23F0),
  (0x23F3, 0x23F3), (0x25FD, 0x25FE), (0x2614, 0x2615), (0x2630, 0x2637), (0x2648, 0x2653), (0x267F, 0x267F),
  (0x268A, 0x268F), (0x2693, 0x2693), (0x26A1, 0x26A1), (0x26AA, 0x26AB), (0x26BD, 0x26BE), (0x26C4, 0x26C5),
  (0x26CE, 0x26CE), (0x26D4, 0x26D4), (0x26EA, 0x26EA), (0x26F2, 0x26F3), (0x26F5, 0x26F5), (0x26FA, 0x26FA),
  (0x26FD, 0x26FD), (0x2705, 0x2705), (0x270A, 0x270B), (0x2728, 0x2728), (0x274C, 0x274C), (0x274E, 0x274E),
  (0x2753, 0x2755), (0x2757, 0x2757), (0x2795, 0x2797), (0x27B0, 0x27B0), (0x27BF, 0x27BF), (0x2B1B, 0x2B1C),
  (0x2B50, 0x2B50), (0x2B55, 0x2B55), (0x2E80, 0x2E99), (0x2E9B, 0x2EF3), (0x2F00, 0x2FD5), (0x2FF0, 0x3029),
  (0x3030, 0x303E), (0x3041, 0x3096), (0x309B, 0x30FF), (0x3105, 0x312F), (0x3131, 0x3163), (0x3165, 0x318E),
  (0x3190, 0x31E5), (0x31EF, 0x321E), (0x3220, 0x3247), (0x3250, 0xA48C), (0xA490, 0xA4C6), (0xA960, 0xA97C),
  (0xAC00, 0xD7A3), (0xF900, 0xFAFF), (0xFE10, 0xFE19), (0xFE30, 0xFE52), (0xFE54, 0xFE66), (0xFE68, 0xFE6B),
  (0xFF01, 0xFF60), (0xFFE0, 0xFFE6), (0x16FE0, 0x16FE3), (0x16FF2, 0x16FF6), (0x17000, 0x18CD5), (0x18CFF, 0x18D1E),
  (0x18D80, 0x18DF2), (0x18E00, 0x19191), (0x191A0, 0x191D2), (0x1AFF0, 0x1AFF3), (0x1AFF5, 0x1AFFB), (0x1AFFD, 0x1AFFE),
  (0x1B000, 0x1B123), (0x1B132, 0x1B132), (0x1B150, 0x1B152), (0x1B155, 0x1B155), (0x1B164, 0x1B167), (0x1B170, 0x1B2FB),
  (0x1D300, 0x1D356), (0x1D360, 0x1D376), (0x1F004, 0x1F004), (0x1F0CF, 0x1F0CF), (0x1F18E, 0x1F18E), (0x1F191, 0x1F19A),
  (0x1F1AE, 0x1F1AE), (0x1F200, 0x1F202), (0x1F210, 0x1F23B), (0x1F240, 0x1F248), (0x1F250, 0x1F251), (0x1F260, 0x1F265),
  (0x1F300, 0x1F320), (0x1F32D, 0x1F335), (0x1F337, 0x1F37C), (0x1F37E, 0x1F393), (0x1F3A0, 0x1F3CA), (0x1F3CF, 0x1F3D3),
  (0x1F3E0, 0x1F3F0), (0x1F3F4, 0x1F3F4), (0x1F3F8, 0x1F43E), (0x1F440, 0x1F440), (0x1F442, 0x1F4FC), (0x1F4FF, 0x1F53D),
  (0x1F54B, 0x1F54E), (0x1F550, 0x1F567), (0x1F57A, 0x1F57A), (0x1F595, 0x1F596), (0x1F5A4, 0x1F5A4), (0x1F5FB, 0x1F64F),
  (0x1F680, 0x1F6C5), (0x1F6CC, 0x1F6CC), (0x1F6D0, 0x1F6D2), (0x1F6D5, 0x1F6D9), (0x1F6DC, 0x1F6DF), (0x1F6EB, 0x1F6EC),
  (0x1F6F4, 0x1F6FC), (0x1F7E0, 0x1F7EB), (0x1F7F0, 0x1F7F0), (0x1F90C, 0x1F93A), (0x1F93C, 0x1F945), (0x1F947, 0x1F9FF),
  (0x1FA70, 0x1FA7C), (0x1FA80, 0x1FAC6), (0x1FAC8, 0x1FAC8), (0x1FACC, 0x1FADD), (0x1FADF, 0x1FAEB), (0x1FAEF, 0x1FAFA),
  (0x20000, 0x2FFFD), (0x30000, 0x3FFFD)]

/-- Characters beside those of `markRanges` that take no column: format characters, vowels and finals of
Hangul, consonants written above the next one, and marks newer than those. -/
def weightlessRanges : List (Nat × Nat) := [
  (0xAD, 0xAD), (0x5C8, 0x5C8), (0x605, 0x605), (0x61C, 0x61C), (0x70F, 0x70F), (0x890, 0x891),
  (0x8E2, 0x8E2), (0xB53, 0xB54), (0xD4E, 0xD4E), (0x1160, 0x11FF), (0x180E, 0x180E), (0x1ADE, 0x1ADF),
  (0x1AEC, 0x1AEC), (0x200B, 0x200B), (0x200D, 0x200F), (0x202A, 0x202E), (0x2060, 0x206F), (0x3164, 0x3164),
  (0xA8FA, 0xA8FA), (0xD7B0, 0xD7C6), (0xD7CB, 0xD7FB), (0xFEFF, 0xFEFF), (0xFFA0, 0xFFA0), (0xFFF0, 0xFFF8),
  (0x10ECB, 0x10ECB), (0x111C2, 0x111C3), (0x113D1, 0x113D1), (0x1193F, 0x1193F), (0x11941, 0x11941), (0x11A84, 0x11A89),
  (0x11D46, 0x11D46), (0x11DF0, 0x11DF0), (0x11F02, 0x11F02), (0x1BCA0, 0x1BCA3), (0x1D127, 0x1D128), (0x1D173, 0x1D17A),
  (0xE0000, 0xE001F), (0xE0080, 0xE00FF), (0xE01F0, 0xE0FFF)]

/-- Characters without a column that part a lam from its alef. -/
def partingRanges : List (Nat × Nat) := [
  (0x605, 0x605), (0x890, 0x891), (0x8E2, 0x8E2), (0x9BE, 0x9BE), (0x9D7, 0x9D7), (0xB3E, 0xB3E),
  (0xB57, 0xB57), (0xBBE, 0xBBE), (0xBD7, 0xBD7), (0xCC0, 0xCC0), (0xCC2, 0xCC2), (0xCC7, 0xCC8),
  (0xCCA, 0xCCB), (0xCD5, 0xCD6), (0xD3E, 0xD3E), (0xD4E, 0xD4E), (0xD57, 0xD57), (0xDCF, 0xDCF),
  (0xDDF, 0xDDF), (0x1160, 0x11FF), (0x1715, 0x1715), (0x1734, 0x1734), (0x180E, 0x180E), (0x1B35, 0x1B35),
  (0x1B3B, 0x1B3B), (0x1B3D, 0x1B3D), (0x1B43, 0x1B44), (0x1BAA, 0x1BAA), (0x1BF2, 0x1BF3), (0x200C, 0x200D),
  (0x2065, 0x2069), (0x302E, 0x302F), (0x3164, 0x3164), (0xA8FA, 0xA8FA), (0xA953, 0xA953), (0xA9C0, 0xA9C0),
  (0xD7B0, 0xD7C6), (0xD7CB, 0xD7FB), (0xFFA0, 0xFFA0), (0xFFF0, 0xFFF8), (0x111C0, 0x111C0), (0x111C2, 0x111C3),
  (0x11235, 0x11235), (0x1133E, 0x1133E), (0x1134D, 0x1134D), (0x11357, 0x11357), (0x113B8, 0x113B8), (0x113C2, 0x113C2),
  (0x113C5, 0x113C5), (0x113C7, 0x113C9), (0x113CF, 0x113CF), (0x113D1, 0x113D1), (0x114B0, 0x114B0), (0x114BD, 0x114BD),
  (0x115AF, 0x115AF), (0x116B6, 0x116B6), (0x11930, 0x11930), (0x1193D, 0x1193D), (0x1193F, 0x1193F), (0x11941, 0x11941),
  (0x11A84, 0x11A89), (0x11D46, 0x11D46), (0x11F02, 0x11F02), (0x11F41, 0x11F41), (0x16FF0, 0x16FF1), (0x1D165, 0x1D166),
  (0x1D16D, 0x1D172), (0xE0000, 0xE0000), (0xE0002, 0xE001F), (0xE0080, 0xE00FF), (0xE01F0, 0xE0FFF)]

/-- The columns of a character on its own; a control character takes one. -/
def charWidth (c : Char) : Nat :=
  if c.toNat = 0x2D7F then 1
  else if c.toNat = 0x17D8 then 3
  else if isMark c || inRanges weightlessRanges c then 0
  else if inRanges wideRanges c then 2
  else 1

/-- Letters that can make one sign with a letter before them. -/
inductive Letter where
  /-- Hebrew lamed, joined to alef. -/
  | lamed
  /-- Buginese ya, joined to a letter with the vowel i. -/
  | ya
  /-- That vowel with the ya. -/
  | vowelAndYa
  | tifinagh
  /-- A consonant of Tifinagh behind the joiner of that script. -/
  | joinerAndTifinagh
  /-- The last tone of a pair in Lisu. -/
  | tone
  /-- Old Turkic i, joined to ec. -/
  | orkhonI
  /-- A letter of Khmer that can stand below the one before it. -/
  | khmer
  deriving DecidableEq, Repr

/-- What a text starts with, as far as it concerns the character before it. -/
inductive Sign where
  | other
  | lineFeed
  | alef
  /-- A letter, with a joiner in front of it when `joined` holds. -/
  | letter (letter : Letter) (joined : Bool)
  /-- The vowels e and ai of Kirat Rai. -/
  | vowelE
  | vowelAi
  | skinTone
  | picture
  | flagHalf
  /-- At least two halves of flags. -/
  | flagHalves
  /-- A joiner and a picture. -/
  | joinedPicture
  /-- The frame of a key before a joiner and a picture. -/
  | joinedKey
  | joinedFlagHalf
  /-- At least two halves of flags before a joiner and a picture. -/
  | joinedFlagHalves (even : Bool)
  /-- Tags before a joiner and a picture: digits, and letters behind them. -/
  | joinedTags (digits letters : Nat)
  deriving DecidableEq, Repr

/-- What a selector asks of the character before it. -/
inductive Selector where
  | picture
  | text
  /-- Two columns for a quotation mark. -/
  | wide
  deriving DecidableEq, Repr

structure Following where
  selector : Option Selector
  sign : Sign
  deriving DecidableEq, Repr

def isJoiner (c : Char) : Bool := c.toNat == 0x200D

/-- The letters that join with a lam before them. -/
def isAlef (c : Char) : Bool :=
  inRanges [(0x622, 0x623), (0x625, 0x625), (0x627, 0x627), (0x671, 0x673), (0x675, 0x675), (0x773, 0x774),
    (0x870, 0x882)] c

def isLam (c : Char) : Bool :=
  inRanges [(0x644, 0x644), (0x6B5, 0x6B8), (0x76A, 0x76A), (0x8A6, 0x8A6), (0x8C7, 0x8C7)] c

def isTifinagh (c : Char) : Bool := inRanges [(0x2D31, 0x2D65), (0x2D6F, 0x2D6F)] c

/-- Characters that may stand between the letters of a sign. -/
def isLinking (c : Char) : Bool :=
  inRanges [(0x34F, 0x34F), (0x17B4, 0x17B5), (0x180B, 0x180D), (0x180F, 0x180F), (0xFE00, 0xFE0F),
    (0xE0100, 0xE01EF)] c

def letter? (c : Char) : Option Letter :=
  if c.toNat = 0x5DC then some .lamed
  else if c.toNat = 0x1A10 then some .ya
  else if isTifinagh c then some .tifinagh
  else if inRanges [(0xA4FC, 0xA4FD)] c then some .tone
  else if c.toNat = 0x10C03 then some .orkhonI
  else if inRanges [(0x1780, 0x1782), (0x1784, 0x1787), (0x1789, 0x178C), (0x178E, 0x1793), (0x1795, 0x1798), (0x179B, 0x179D),
    (0x17A0, 0x17A0), (0x17A2, 0x17A2), (0x17A7, 0x17A7), (0x17AB, 0x17AC), (0x17AF, 0x17AF)] c then some .khmer
  else none

/-- The sign that a character is by itself. -/
def Sign.ofChar (c : Char) : Sign :=
  if c = '\n' then .lineFeed
  else if isAlef c then .alef
  else if isFlagHalf c then .flagHalf
  else if isSkinTone c then .skinTone
  else if isPicture c then .picture
  else if c.toNat = 0x16D67 then .vowelE
  else if c.toNat = 0x16D68 then .vowelAi
  else match letter? c with
    | some l => .letter l false
    | none => .other

/-- The columns that a character adds in front of a letter and the sign they make, if they make one. -/
def Letter.join? (c : Char) (joined : Bool) : Letter → Option (Int × Sign)
  | .lamed => if joined && c.toNat == 0x5D0 then some (0, .other) else none
  | .ya => if joined && c.toNat == 0x1A17 then some (0, .letter .vowelAndYa true) else none
  | .vowelAndYa => if c.toNat = 0x1A15 then some (0, .other) else none
  | .tifinagh =>
    if c.toNat = 0x2D7F then some (1, .letter .joinerAndTifinagh true)
    else if joined && isTifinagh c then some (0, .other)
    else none
  | .joinerAndTifinagh => if isTifinagh c then some (-1, .other) else none
  | .tone => if inRanges [(0xA4F8, 0xA4FB)] c then some (0, .other) else none
  | .orkhonI => if joined && c.toNat == 0x10C32 then some (0, .other) else none
  | .khmer => if c.toNat = 0x17D2 then some (-1, .other) else none

/-- The columns that a character adds in front of a sign and the sign they make, if they make one. -/
def Sign.join? (c : Char) : Sign → Option (Int × Sign)
  | .other => none
  | .lineFeed => if c = '\r' then some (0, .other) else none
  | .alef =>
    if isLam c then some (0, .other)
    else if charWidth c == 0 && !inRanges partingRanges c then some (0, .alef)
    else none
  | .letter l joined =>
    if isJoiner c then some (0, .letter l true)
    else if isLinking c then some (0, .letter l joined)
    else l.join? c joined
  | .vowelE =>
    if c.toNat = 0x16D63 ∨ c.toNat = 0x16D69 then some (0, .other)
    else if c.toNat = 0x16D67 then some (0, .vowelAi)
    else if c.toNat = 0x16D68 then some (1, .vowelE)
    else none
  | .vowelAi => if c.toNat = 0x16D63 then some (0, .other) else none
  | .skinTone =>
    if isModifiable c then some (0, .picture)
    else if isJoiner c then some (0, .joinedPicture)
    else none
  | .picture => if isJoiner c then some (0, .joinedPicture) else none
  | .flagHalf => if isFlagHalf c then some (1, .flagHalves) else none
  | .flagHalves =>
    if isFlagHalf c then some (1, .flagHalves)
    else if isJoiner c then some (0, .joinedPicture)
    else none
  | .joinedPicture =>
    if c.toNat = 0x20E3 then some (0, .joinedKey)
    else if isFlagHalf c then some (1, .joinedFlagHalf)
    else if isSkinTone c then some (0, .skinTone)
    else if c.toNat = 0xE007F then some (0, .joinedTags 0 0)
    else if isPicture c then some (0, .picture)
    else none
  | .joinedKey => none
  | .joinedFlagHalf => if isFlagHalf c then some (-1, .joinedFlagHalves true) else none
  | .joinedFlagHalves even =>
    if isFlagHalf c then some (if even then 3 else -1, .joinedFlagHalves (!even))
    else if isJoiner c then some (0, .joinedPicture)
    else none
  | .joinedTags digits letters =>
    if isTagLetter c && digits == 0 && letters < 6 then some (0, .joinedTags 0 (letters + 1))
    else if isTagDigit c && digits < 3 && (digits != 0 || letters < 5) then
      some (0, .joinedTags (digits + 1) letters)
    else if c.toNat == 0x1F3F4 && (digits == 3 || digits == 0 && 3 ≤ letters) then some (0, .picture)
    else none

/-- Whether selectors in front of a sign leave it what it is. -/
def Sign.isLetter : Sign → Bool
  | .alef => true
  | .letter _ _ => true
  | _ => false

/-- Whether a picture in front of a sign becomes a part of it. -/
def Sign.isJoined : Sign → Bool
  | .joinedPicture => true
  | .joinedKey => true
  | _ => false

def selector? (c : Char) : Option Selector :=
  if c.toNat = 0xFE0F then some .picture
  else if c.toNat = 0xFE0E then some .text
  else if c.toNat = 0xFE01 then some .wide
  else none

def Selector.before (s : Selector) (sign : Sign) : Following :=
  if sign.isLetter || (s == .picture && sign.isJoined) then ⟨some s, sign⟩ else ⟨some s, .other⟩

/-- The columns of a character that does what the selector behind it asks, and the sign it makes. -/
def Following.selected? (c : Char) (f : Following) : Option (Int × Sign) :=
  match f.selector with
  | none => none
  | some .picture =>
    if hasPicture c then some (if f.sign.isJoined then 0 else 2, .picture) else none
  | some .text =>
    if hasEitherStyle c && !inRanges [(0x1F200, 0x1F2FF)] c then some (1, .other) else none
  | some .wide =>
    if inRanges [(0x2018, 0x2019), (0x201C, 0x201D)] c then some (2, .other) else none

/-- The sign behind a selector to which nobody listens. -/
def Following.unselected (f : Following) : Sign :=
  if f.selector == some .picture && !f.sign.isLetter then .other else f.sign

/-- The columns of a character in front of what follows. -/
def widthBefore (c : Char) (f : Following) : Int × Following :=
  match f.selected? c with
  | some (columns, sign) => (columns, ⟨none, sign⟩)
  | none =>
    match selector? c with
    | some s => (0, s.before f.unselected)
    | none =>
      match f.unselected.join? c with
      | some (columns, sign) => (columns, ⟨none, sign⟩)
      | none => (charWidth c, ⟨none, .ofChar c⟩)

/-- The columns of a text, and what it is for a character before it. -/
def measure : Text → Int × Following
  | [] => (0, ⟨none, .other⟩)
  | c :: t =>
    let (columns, following) := measure t
    let (own, this) := widthBefore c following
    (own + columns, this)

def width (t : Text) : Nat := (measure t).1.toNat

def padTo (columns : Nat) (t : Text) : Text := t ++ List.replicate (columns - width t) ' '

end SfcContract.Text
