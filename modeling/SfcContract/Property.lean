import SfcContract.Text.Basic

/-!
# Declared properties

A property is declared in one of three idioms. When a name is declared more than once, a declaration
of the setup script outranks one of the component options, and among equals the last one counts.
-/

namespace SfcContract

inductive Origin where
  /-- A type argument of `defineProps`. -/
  | typeLiteral
  /-- An object argument of `defineProps`. -/
  | objectLiteral
  /-- The `props` field of a component's options. -/
  | optionsStyle
  deriving DecidableEq, Repr

namespace Origin

def all : List Origin := [typeLiteral, objectLiteral, optionsStyle]

def rank : Origin → Nat
  | typeLiteral => 1
  | objectLiteral => 1
  | optionsStyle => 0

def label : Origin → Text
  | typeLiteral => "inline-generic-literal".toList
  | objectLiteral => "object-literal".toList
  | optionsStyle => "options-style".toList

end Origin

structure Property where
  name : Text
  type : Text
  required : Bool := false
  defaultValue : Option Text := none
  origin : Origin
  deriving DecidableEq, Repr

namespace Property

/-- The type of a declaration that names none. -/
def unknownType : Text := "unknown".toList

/-- Puts a declaration in the place of the one with its name, unless that one outranks it. -/
def place (p : Property) : List Property → List Property
  | [] => [p]
  | q :: kept =>
    if q.name = p.name then (if q.origin.rank ≤ p.origin.rank then p else q) :: kept
    else q :: place p kept

/-- One declaration for each name, in the order of the names. -/
def merge (candidates : List Property) : List Property :=
  candidates.foldl (fun kept p => place p kept) []

/-- Gives the first property of a name its default. -/
def setDefault (name value : Text) : List Property → List Property
  | [] => []
  | p :: ps =>
    if p.name = name then { p with defaultValue := some value } :: ps
    else p :: setDefault name value ps

end Property

end SfcContract
