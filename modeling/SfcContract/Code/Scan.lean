import SfcContract.Text.Word

/-!
# Scanning script text

A scan passes over string literals and comments and keeps the bracket depth of every other character.
It is no parser: it knows just enough to find the partner of a bracket and to cut a list at its own
separators.
-/

namespace SfcContract.Code

/-- How `<` and `>` are read. -/
inductive Angles where
  /-- As ordinary characters. -/
  | ignore
  /-- As brackets, in the manner of types. -/
  | brackets
  /-- As brackets where `<` follows an identifier, so that a comparison stays one. -/
  | generic
  deriving DecidableEq, Repr

/-- What the next character belongs to. -/
inductive Mode where
  | code
  | quoted (quote : Char)
  /-- After a backslash inside a literal. -/
  | escaped (quote : Char)
  | lineComment
  /-- Before the star that opens a block comment. -/
  | blockOpening
  | blockComment (afterStar : Bool)
  deriving DecidableEq, Repr

structure State where
  mode : Mode := .code
  depth : Nat := 0
  /-- Number of open angle brackets. -/
  angleDepth : Nat := 0
  /-- The last character of code, or the quote of the last literal. -/
  prev : Char := '\x00'
  deriving DecidableEq, Repr

def quotes : List Char := ['\x22', '\x27', '\x60']

def isOpening (c : Char) : Bool := c == '{' || c == '(' || c == '['

def isClosing (c : Char) : Bool := c == '}' || c == ')' || c == ']'

namespace State

def opens (angles : Angles) (s : State) (c : Char) : Bool :=
  if c = '<' then
    match angles with
    | .ignore => false
    | .brackets => true
    | .generic => Text.isAsciiWord s.prev || s.prev == '$'
  else isOpening c

/-- Whether a character of code closes a bracket; the `>` of an arrow never does. -/
def closes (angles : Angles) (s : State) (c : Char) : Bool :=
  if c = '>' then
    s.prev != '=' && match angles with
      | .ignore => false
      | .brackets => true
      | .generic => 0 < s.angleDepth
  else isClosing c

/-- A character of code. An opening bracket has the depth before it and a closing one the depth after
it, so that partners have the same depth. -/
def stepCode (angles : Angles) (s : State) (c : Char) : State × Nat :=
  if s.opens angles c then
    ({ s with depth := s.depth + 1, prev := c,
              angleDepth := if c = '<' then s.angleDepth + 1 else s.angleDepth }, s.depth)
  else if s.closes angles c then
    ({ s with depth := s.depth - 1, prev := c,
              angleDepth := if c = '>' then s.angleDepth - 1 else s.angleDepth }, s.depth - 1)
  else ({ s with prev := c }, s.depth)

/-- One character, seen with the one after it; the answer has a depth when the character is code. -/
def step (angles : Angles) (s : State) (c : Char) (next : Option Char) : State × Option Nat :=
  match s.mode with
  | .code =>
    if quotes.contains c then ({ s with mode := .quoted c, prev := c }, none)
    else if c = '/' ∧ next = some '/' then ({ s with mode := .lineComment }, none)
    else if c = '/' ∧ next = some '*' then ({ s with mode := .blockOpening }, none)
    else ((s.stepCode angles c).1, some (s.stepCode angles c).2)
  | .quoted q =>
    if c = '\\' then ({ s with mode := .escaped q }, none)
    else if c = q then ({ s with mode := .code }, none)
    else (s, none)
  | .escaped q => ({ s with mode := .quoted q }, none)
  | .lineComment =>
    if c = '\n' then
      (({ s with mode := .code }.stepCode angles c).1, some ({ s with mode := .code }.stepCode angles c).2)
    else (s, none)
  | .blockOpening => ({ s with mode := .blockComment false }, none)
  | .blockComment afterStar =>
    if afterStar ∧ c = '/' then ({ s with mode := .code }, none)
    else ({ s with mode := .blockComment (c == '*') }, none)

def run (angles : Angles) : State → Text → State
  | s, [] => s
  | s, c :: t => run angles (s.step angles c t.head?).1 t

end State

/-- A character of a scanned text, with its depth when it is code. -/
structure Mark where
  char : Char
  depth : Option Nat
  deriving DecidableEq, Repr

def marksFrom (angles : Angles) : State → Text → List Mark
  | _, [] => []
  | s, c :: t =>
    ⟨c, (s.step angles c t.head?).2⟩ :: marksFrom angles (s.step angles c t.head?).1 t

def marks (angles : Angles) (t : Text) : List Mark := marksFrom angles {} t

structure CodeChar where
  offset : Nat
  char : Char
  depth : Nat
  deriving DecidableEq, Repr

/-- The marks that are code, in a text that starts at a byte offset. -/
def codeCharsFrom : Nat → List Mark → List CodeChar
  | _, [] => []
  | offset, m :: ms => match m.depth with
    | some depth => ⟨offset, m.char, depth⟩ :: codeCharsFrom (offset + m.char.utf8Size) ms
    | none => codeCharsFrom (offset + m.char.utf8Size) ms

def codeChars (angles : Angles) (t : Text) : List CodeChar := codeCharsFrom 0 (marks angles t)

end SfcContract.Code
