import SfcContract.Tree

/-!
# Wildcard patterns

A pattern is matched with a whole path. `*` and `?` pass slashes too; `**` stands for whole path
components and must be one itself.
-/

namespace SfcContract

namespace Glob

inductive Problem where
  | range
  | wildcards
  | recursiveWildcards
  deriving DecidableEq, Repr

/-- A problem and the number of the character where it is. -/
structure Error where
  position : Nat
  problem : Problem
  deriving DecidableEq, Repr

def Problem.message : Problem → Text
  | range => "invalid range pattern".toList
  | wildcards => "wildcards are either regular \x60*\x60 or recursive \x60**\x60".toList
  | recursiveWildcards => "recursive wildcards must form a single path component".toList

def Error.message (e : Error) : Text :=
  "Pattern syntax error near position ".toList ++ Text.ofNat e.position ++ [':', ' '] ++ e.problem.message

inductive Token where
  | char (c : Char)
  | anyChar
  | within (ranges : List (Char × Char))
  | without (ranges : List (Char × Char))
  /-- Any text. -/
  | sequence
  /-- Any number of path components. -/
  | components
  deriving DecidableEq, Repr

/-- The ranges between brackets: `a-z` or a single character. -/
def rangesOf : Text → List (Char × Char)
  | a :: '-' :: b :: t => (a, b) :: rangesOf t
  | a :: t => (a, a) :: rangesOf t
  | [] => []

def inRanges (ranges : List (Char × Char)) (c : Char) : Bool := ranges.any fun r => r.1 ≤ c && c ≤ r.2

/-- A bracket expression, of which `t` follows the opening bracket: its token and its length. The
first character between the brackets may be a closing bracket itself. -/
def bracket? (t : Text) : Option (Token × Nat) :=
  let close (first : Char) (t : Text) : Option Text :=
    if t.contains ']' then some (first :: t.takeWhile (· != ']')) else none
  match t with
  | '!' :: first :: t => (close first t).map fun body => (.without (rangesOf body), body.length + 2)
  | '!' :: [] => none
  | first :: t => (close first t).map fun body => (.within (rangesOf body), body.length + 1)
  | [] => none

/-- Adds a token. Further components in a row add nothing, except at the very start. -/
def addComponents (tokens : List Token) : List Token :=
  if 1 < tokens.length ∧ tokens.getLast? = some .components then tokens else tokens ++ [.components]

/-- Reads a pattern from left to right: `position` counts the characters before `t`, of which `prev` is
the last, and the next `skip` characters are already read. -/
def parseFrom (position : Nat) (prev : Option Char) (tokens : List Token) :
    Nat → Text → Except Error (List Token)
  | _, [] => .ok tokens
  | skip + 1, c :: t => parseFrom (position + 1) (some c) tokens skip t
  | 0, c :: t =>
    if c = '?' then parseFrom (position + 1) (some c) (tokens ++ [.anyChar]) 0 t
    else if c = '*' then
      let more := (t.takeWhile (· == '*')).length
      if more = 0 then parseFrom (position + 1) (some c) (tokens ++ [.sequence]) 0 t
      else if 1 < more then .error ⟨position + 2, .wildcards⟩
      else if prev.any (· != '/') then .error ⟨position - 1, .recursiveWildcards⟩
      else match t.drop 1 with
        | [] => .ok (addComponents tokens)
        | d :: _ =>
          if d = '/' then parseFrom (position + 1) (some c) (addComponents tokens) 2 t
          else .error ⟨position + 2, .recursiveWildcards⟩
    else if c = '[' then
      match bracket? t with
      | some (token, length) => parseFrom (position + 1) (some c) (tokens ++ [token]) length t
      | none => .error ⟨position, .range⟩
    else parseFrom (position + 1) (some c) (tokens ++ [.char c]) 0 t

def parse (t : Text) : Except Error (List Token) := parseFrom 0 none [] 0 t

def Token.accepts : Token → Char → Bool
  | char d, c => c == d
  | anyChar, _ => true
  | within ranges, c => inRanges ranges c
  | without ranges, c => !inRanges ranges c
  | sequence, _ => false
  | components, _ => false

/-- Whether a condition holds after some of the first characters of a text. -/
def anySuffix (p : Text → Bool) : Text → Bool
  | [] => p []
  | c :: t => p (c :: t) || anySuffix p t

/-- Whether a condition holds after some slash of a text. -/
def anyAfterSlash (p : Text → Bool) : Text → Bool
  | [] => false
  | c :: t => (c == '/' && p t) || anyAfterSlash p t

def matchesText : List Token → Text → Bool
  | [], t => t.isEmpty
  | .sequence :: tokens, t => anySuffix (matchesText tokens) t
  | .components :: tokens, t =>
    matchesText tokens t || anyAfterSlash (matchesText tokens) t || matchesText tokens []
  | _ :: _, [] => false
  | token :: tokens, c :: t => token.accepts c && matchesText tokens t

def isPattern (t : Text) : Bool := t.contains '*' || t.contains '?'

def literal? (tokens : List Token) : Option Text :=
  tokens.mapM fun
    | .char c => some c
    | _ => none

/-- Whether a path component stands for any number of components. -/
def isRecursive (tokens : List Token) : Bool := tokens.contains .components

/-- A path below another one, where `.` itself is not written. -/
def extend (p name : Path) : Path := if Path.components p = [.current] then name else Path.join p name

/-- What lies in a directory, with the names. -/
def children (t : Tree) (p : Path) : List (Text × Path) :=
  match t.find p with
  | .ok (l, .directory) =>
    (t.entries.filterMap fun (k, _) =>
      match l.isPrefixOf? k with
      | some [n] => some (n, extend p n)
      | _ => none)
  | _ => []

/-- What lies below a directory, with the last names. -/
def descendants (t : Tree) (p : Path) : List (Text × Path) :=
  match t.find p with
  | .ok (l, .directory) =>
    (t.entries.filterMap fun (k, _) =>
      match l.isPrefixOf? k with
      | some (n :: ns) => some ((n :: ns).getLast?.getD [], ns.foldl Path.join (extend p n))
      | _ => none)
  | _ => []

/-- The paths that a pattern, given by its path components, stands for below `p`. A component without
wildcards is taken as it is; `.` and `..` are matched only by a component that starts with a dot.
A recursive component passes through any number of directories, and at the end stands for each
directory it passes. -/
def expand (t : Tree) : List (List Token) → Path → List Path
  | [], p => [p]
  | component :: rest, p =>
    if isRecursive component then
      match rest with
      | [] => ((descendants t p).map Prod.snd).filter t.isDirectory
      | next :: rest' =>
        if isRecursive next then expand t (next :: rest') p
        else ((descendants t p).filter fun q => matchesText next q.1).flatMap fun q => expand t rest' q.2
    else match literal? component with
      | some name =>
        let q := extend p name
        let found := if name = ['.'] ∨ name = ['.', '.'] then t.isDirectory p else t.contains q
        if found then expand t rest q else []
      | none =>
        (((children t p).filter fun q => matchesText component q.1).flatMap fun q => expand t rest q.2) ++
          if component.head? = some (.char '.') ∧ t.isDirectory p then
            ([['.'], ['.', '.']].filter (matchesText component)).flatMap fun name =>
              expand t rest (Path.join p name)
          else []

/-- The path components of a pattern. A slash at the end adds none. -/
def componentTexts (pattern : Text) : List Text :=
  let segments := Path.segments pattern
  if segments.getLast? = some [] then segments.dropLast else segments

def directories (t : Tree) (pattern : Text) : Except Error (List Path) := do
  let _ ← parse pattern
  let components ← (componentTexts pattern).mapM parse
  -- the first component of an absolute pattern is the empty text in front of its slash
  let paths := if Path.isAbsolute pattern then expand t (components.drop 1) ['/'] else expand t components ['.']
  return paths.filter t.isDirectory

end Glob

end SfcContract
