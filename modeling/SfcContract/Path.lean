import SfcContract.Text.Basic

/-!
# Paths

A path is text and stays as it was written. Its components leave out what does not matter for where it
leads: empty segments, and every `.` but a leading one.
-/

namespace SfcContract

abbrev Path := Text

namespace Path

inductive Component where
  /-- The `/` of an absolute path. -/
  | root
  /-- A leading `.`. -/
  | current
  | parent
  | name (n : Text)
  deriving DecidableEq, Repr

def Component.text : Component → Text
  | root => ['/']
  | current => ['.']
  | parent => ['.', '.']
  | name n => n

def isAbsolute (p : Path) : Bool := p.head? == some '/'

/-- The texts between slashes. -/
def segments (p : Path) : List Text := p.splitOnP (· == '/')

def ofSegments (segments : List Text) : Path := ['/'].intercalate segments

/-- Whether a segment stays where it is. -/
def isVoid (segment : Text) : Bool := segment == [] || segment == ['.']

/-- The component of a segment that is not void. -/
def componentOf (segment : Text) : Component := if segment = ['.', '.'] then .parent else .name segment

/-- The leading component that is no name, if there is one, and the segments after it. -/
def lead (p : Path) : Option Component × List Text :=
  if isAbsolute p then (some .root, (segments p).drop 1)
  else if (segments p).head? = some ['.'] then (some .current, (segments p).drop 1)
  else (none, segments p)

def components (p : Path) : List Component :=
  (lead p).1.toList ++ ((lead p).2.filter (!isVoid ·)).map componentOf

/-- A path seen from another one. -/
def join (base p : Path) : Path :=
  if isAbsolute p || base.isEmpty then p
  else if base.getLast? = some '/' then base ++ p
  else base ++ ['/'] ++ p

/-- Whether a path leads to or below another one, by its components. -/
def isBelow (p base : Path) : Bool := (components base).isPrefixOf (components p)

def dropLastVoid (segments : List Text) : List Text := (segments.reverse.dropWhile isVoid).reverse

/-- The path without its last component. -/
def parent? (p : Path) : Option Path :=
  match lead p, dropLastVoid (lead p).2 with
  | (none, _), [] => none
  | (some .root, _), [] => none
  | (some _, _), [] => some []
  | (none, _), body => some (ofSegments (dropLastVoid body.dropLast))
  | (some c, _), body =>
    match dropLastVoid body.dropLast with
    | [] => some c.text
    | rest => some (ofSegments ((if c = .root then [] else c.text) :: rest))

def ancestorsFrom : Nat → Path → List Path
  | 0, p => [p]
  | fuel + 1, p => p :: match parent? p with
    | none => []
    | some q => ancestorsFrom fuel q

/-- A path and its parents. Each is shorter than the one before, so the length bounds their number. -/
def ancestors (p : Path) : List Path := ancestorsFrom p.length p

/-- The last component, when it is a name. -/
def fileName? (p : Path) : Option Text :=
  match (components p).getLast? with
  | some (.name n) => some n
  | _ => none

/-- What follows the last dot of a file name that has something before that dot. -/
def extension? (p : Path) : Option Text :=
  match fileName? p with
  | none => none
  | some n =>
    match n.reverse.dropWhile (· != '.') with
    | _ :: _ :: _ => some (n.reverse.takeWhile (· != '.')).reverse
    | _ => none

def withoutCurrent (p : Path) : Path :=
  match lead p with
  | (some .current, body) => ofSegments (dropLastVoid (body.dropWhile isVoid))
  | _ => p

/-- A configured path seen from the scanned directory. -/
def fromRoot (root configured : Path) : Path :=
  if isAbsolute configured then configured
  else if (components root).all (· == .current) then configured
  else join root (withoutCurrent configured)

/-- A path relative to the scanned directory, without a leading `.`. -/
def display (root p : Path) : Path :=
  let rest := if isBelow p root then (components p).drop (components root).length else components p
  ofSegments ((rest.filter (· != .current)).map Component.text)

end Path

end SfcContract
