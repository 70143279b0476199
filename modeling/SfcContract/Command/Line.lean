import SfcContract.Command

/-!
# The command line

Arguments are read from left to right. An option that takes a value and a positional argument are
settled only when the next known argument comes, or at the end; an argument that is not known ends the
reading at once.
-/

namespace SfcContract.CommandLine

inductive Usage where
  | help
  | version
  | unknownCommand
  | unknownArgument
  /-- A value is missing or empty. -/
  | missingValue
  /-- A value is given to an option that takes none. -/
  | excessValue
  /-- A value is not of the expected form. -/
  | malformedValue
  /-- An argument is given twice. -/
  | repeated
  deriving DecidableEq, Repr

inductive Form where
  | path
  | text
  | number
  deriving DecidableEq, Repr

/-- A natural number of at most 64 bits, which may have a plus sign. -/
def number? (t : Text) : Option Nat :=
  let digits := (Text.expect? '+' t).getD t
  if digits.isEmpty || !digits.all Char.isDigit then none
  else
    let n := digits.foldl (fun n c => n * 10 + (c.toNat - '0'.toNat)) 0
    if n < Nat.pow 2 64 then some n else none

def Form.check (form : Form) (value : Text) : Except Usage Unit :=
  match form with
  | path => if value.isEmpty then .error .missingValue else .ok ()
  | text => .ok ()
  | number => if (number? value).isSome then .ok () else .error .malformedValue

structure Grammar where
  flags : List String := []
  /-- The letter of a flag. -/
  letters : List (Char × String) := []
  options : List (String × Form) := []
  positional : Option (String × Form) := none

/-- Arguments that are settled, each name once. -/
structure Given where
  flags : List Text := []
  values : List (Text × Text) := []

def Given.has (g : Given) (flag : String) : Bool := g.flags.contains flag.toList

def Given.value? (g : Given) (name : String) : Option Text := g.values.lookup name.toList

/-- An argument that is not settled yet, with its value if that was read. -/
structure Pending where
  name : Text
  form : Form
  value : Option Text

structure Reading where
  given : Given := {}
  pending : Option Pending := none
  /-- Whether only positional arguments follow. -/
  escaped : Bool := false
  positionalRead : Bool := false

namespace Reading

def accept (r : Reading) (name : Text) (form : Form) (value : Text) : Except Usage Reading := do
  if (r.given.values.lookup name).isSome then .error .repeated
  form.check value
  return { r with given := { r.given with values := r.given.values ++ [(name, value)] }, pending := none }

def settle (r : Reading) : Except Usage Reading :=
  match r.pending with
  | none => .ok r
  | some ⟨_, _, none⟩ => .error .missingValue
  | some ⟨name, form, some value⟩ => r.accept name form value

def flag (r : Reading) (name : String) : Except Usage Reading := do
  let r ← r.settle
  if r.given.has name then .error .repeated
  return { r with given := { r.given with flags := r.given.flags ++ [name.toList] } }

/-- A word after two hyphens, with the value that stands after an equals sign. -/
def long (g : Grammar) (r : Reading) (name : Text) (value : Option Text) : Except Usage Reading :=
  if name = "help".toList then
    if value.isSome then .error .excessValue else do
      let _ ← r.settle
      .error .help
  else match g.flags.find? (·.toList == name), g.options.find? (·.1.toList == name), value with
    | some flag, _, none => r.flag flag
    | some _, _, some _ => .error .excessValue
    | none, some (_, form), none => do
      let r ← r.settle
      return { r with pending := some ⟨name, form, none⟩ }
    | none, some (_, form), some value => do
      let r ← r.settle
      r.accept name form value
    | none, none, _ => .error .unknownArgument

/-- Letters after one hyphen. -/
def short (g : Grammar) (r : Reading) : Text → Except Usage Reading
  | [] => .ok r
  | c :: letters =>
    if c = 'h' then do
      let _ ← r.settle
      .error .help
    else match g.letters.lookup c with
      | some name => do short g (← r.flag name) letters
      | none => .error .unknownArgument

def positional (g : Grammar) (r : Reading) (argument : Text) : Except Usage Reading :=
  match g.positional with
  | some (name, form) =>
    if r.positionalRead then .error .unknownArgument
    else do
      let r ← r.settle
      return { r with pending := some ⟨name.toList, form, some argument⟩, positionalRead := true }
  | none => .error .unknownArgument

def next (g : Grammar) (r : Reading) (argument : Text) : Except Usage Reading :=
  if r.escaped then r.positional g argument
  else match argument with
    | ['-', '-'] => .ok { r with escaped := true }
    | '-' :: '-' :: word =>
      r.long g (word.takeWhile (· != '='))
        (if word.contains '=' then some ((word.dropWhile (· != '=')).drop 1) else none)
    | '-' :: c :: letters => r.short g (c :: letters)
    | _ =>
      match r.pending with
      | some ⟨name, form, none⟩ => .ok { r with pending := some ⟨name, form, some argument⟩ }
      | _ => r.positional g argument

end Reading

def Grammar.read (g : Grammar) (arguments : List Text) : Except Usage Given := do
  let r ← arguments.foldlM (Reading.next g) {}
  return (← r.settle).given

def scanGrammar : Grammar where
  flags := ["strict", "verbose"]
  letters := [('v', "verbose")]
  options := [("out", .path), ("report", .path)]
  positional := some ("path", .path)

def displayGrammar : Grammar where
  flags := ["verbose"]
  letters := [('v', "verbose")]
  options := [("manifest", .path), ("select", .number)]
  positional := some ("query", .text)

def scanCommand (g : Given) : Command :=
  .scan {
    root := (g.value? "path").getD ['.']
    out := g.value? "out"
    report := g.value? "report"
    strict := g.has "strict"
    verbose := g.has "verbose" }

def displayCommand (g : Given) : Command :=
  .display {
    query := (g.value? "query").getD []
    manifest := g.value? "manifest"
    select := ((g.value? "select").bind number?).getD 1
    verbose := g.has "verbose" }

def command? (name : Text) : Option (Grammar × (Given → Command)) :=
  [("scan", scanGrammar, scanCommand), ("show", displayGrammar, displayCommand),
    ("init", {}, fun _ => .init), ("serve", {}, fun _ => .serve)].findSome? fun c =>
      if c.1.toList = name then some c.2 else none

/-- `help` may be followed by the name of one command. -/
def helpOn (topics : List Text) : Usage :=
  match topics with
  | [] => .help
  | [name] => if (command? name).isSome || name = "help".toList then .help else .unknownCommand
  | _ => .unknownCommand

def leadingLetters : Text → Usage
  | 'h' :: _ => .help
  | 'V' :: _ => .version
  | _ => .unknownArgument

def leadingWord (word : Text) : Usage :=
  let name := word.takeWhile (· != '=')
  if name = "help".toList ∨ name = "version".toList then
    if word.contains '=' then .excessValue
    else if name = "help".toList then .help else .version
  else .unknownArgument

/-- The command that arguments ask for; `none` when they ask for none. -/
def parse : List Text → Except Usage (Option Command)
  | [] => .ok none
  | argument :: rest =>
    match argument with
    | ['-', '-'] =>
      match rest with
      | [] => .ok none
      | name :: _ =>
        if (command? name).isSome || name = "help".toList then .error .unknownArgument
        else .error .unknownCommand
    | '-' :: '-' :: word => .error (leadingWord word)
    | '-' :: c :: letters => .error (leadingLetters (c :: letters))
    | name =>
      if name = "help".toList then .error (helpOn rest)
      else match command? name with
        | none => .error .unknownCommand
        | some (grammar, build) => do return some (build (← grammar.read rest))

end SfcContract.CommandLine
