import SfcContract.Number.Shortest

/-!
# JSON text

Values are written over several lines, two blanks for each level, members in the order given. Only
quotes, backslashes and control characters are escaped.
-/

namespace SfcContract

inductive Json where
  | null
  | bool (b : Bool)
  | nat (n : Nat)
  | number (x : Binary64)
  | string (t : Text)
  | array (items : List Json)
  | object (members : List (Text × Json))
  deriving Repr

namespace Json

/-- Numbers have a fraction or an exponent; from `10 ^ 16` on and below `10 ^ -5` an exponent. -/
def numberLayout : Binary64.Layout := ⟨some (-5, 15), true⟩

def hexDigit (n : Nat) : Char := (Nat.toDigits 16 n).head?.getD '0'

def escapeChar (c : Char) : Text :=
  if c = '\x22' then ['\\', '\x22']
  else if c = '\\' then ['\\', '\\']
  else if c = '\x08' then ['\\', 'b']
  else if c = '\x0c' then ['\\', 'f']
  else if c = '\n' then ['\\', 'n']
  else if c = '\r' then ['\\', 'r']
  else if c = '\t' then ['\\', 't']
  else if c.toNat < 0x20 then ['\\', 'u', '0', '0', hexDigit (c.toNat / 16), hexDigit (c.toNat % 16)]
  else [c]

def writeString (t : Text) : Text := ['\x22'] ++ Text.substitute escapeChar t ++ ['\x22']

def newLine (level : Nat) : Text := '\n' :: List.replicate (2 * level) ' '

mutual

/-- A value whose first line starts at a level. -/
def writeAt (level : Nat) : Json → Text
  | null => "null".toList
  | bool b => if b then "true".toList else "false".toList
  | nat n => Text.ofNat n
  | number x => numberLayout.write x
  | string t => writeString t
  | array [] => ['[', ']']
  | array (item :: items) =>
    ['['] ++ newLine (level + 1) ++ writeAt (level + 1) item ++ writeItems (level + 1) items ++
      newLine level ++ [']']
  | object [] => ['{', '}']
  | object ((key, value) :: members) =>
    ['{'] ++ newLine (level + 1) ++ writeString key ++ [':', ' '] ++ writeAt (level + 1) value ++
      writeMembers (level + 1) members ++ newLine level ++ ['}']

/-- Further items, each after a comma. -/
def writeItems (level : Nat) : List Json → Text
  | [] => []
  | item :: items => [','] ++ newLine level ++ writeAt level item ++ writeItems level items

def writeMembers (level : Nat) : List (Text × Json) → Text
  | [] => []
  | (key, value) :: members =>
    [','] ++ newLine level ++ writeString key ++ [':', ' '] ++ writeAt level value ++
      writeMembers level members

end

def write (j : Json) : Text := writeAt 0 j

/-- A member that is left out when it has no value. -/
def optional (key : Text) (value : Option Text) : List (Text × Json) :=
  match value with
  | none => []
  | some t => [(key, string t)]

def strings (ts : List Text) : Json := array (ts.map string)

end Json

end SfcContract
