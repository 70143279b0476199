import SfcContract.Path

/-!
# File trees

The top of a tree is `/` and the working directory too, so that a path leads to the same place with
and without a leading slash. A path is followed segment by segment, and every segment must be reached
from a directory.
-/

namespace SfcContract

inductive FileFault where
  | notFound
  | isDirectory
  | notDirectory
  | alreadyExists
  | notText
  deriving DecidableEq, Repr

namespace FileFault

def description : FileFault → Text
  | notFound => "No such file or directory (os error 2)".toList
  | isDirectory => "Is a directory (os error 21)".toList
  | notDirectory => "Not a directory (os error 20)".toList
  | alreadyExists => "File exists (os error 17)".toList
  | notText => "stream did not contain valid UTF-8".toList

end FileFault

inductive Entry where
  | directory
  | file (content : ByteArray)

def Entry.isDirectory : Entry → Bool
  | directory => true
  | file _ => false

/-- The names that lead from the top to an entry. -/
abbrev Location := List Text

/-- Whether a location comes before another one, or is that one, name by name. -/
def Location.isAtMost : Location → Location → Bool
  | [], _ => true
  | _ :: _, [] => false
  | m :: l, n :: k => if m = n then isAtMost l k else Text.isAtMost m n

/-- Entries by their locations, each location once. The top itself is not listed. -/
structure Tree where
  entries : List (Location × Entry)
  distinct : (entries.map Prod.fst).Nodup

namespace Tree

def empty : Tree := ⟨[], List.nodup_nil⟩

def get? (t : Tree) (l : Location) : Option Entry :=
  if l = [] then some .directory else t.entries.lookup l

def put (l : Location) (e : Entry) : List (Location × Entry) → List (Location × Entry)
  | [] => [(l, e)]
  | (k, d) :: rest => if k = l then (l, e) :: rest else (k, d) :: put l e rest

theorem map_fst_put (l : Location) (e : Entry) (entries : List (Location × Entry)) :
    (put l e entries).map Prod.fst =
      if l ∈ entries.map Prod.fst then entries.map Prod.fst else entries.map Prod.fst ++ [l] := by
  induction entries with
  | nil => simp [put]
  | cons x rest ih => grind [put]

theorem nodup_put {l : Location} {e : Entry} {entries : List (Location × Entry)}
    (h : (entries.map Prod.fst).Nodup) : ((put l e entries).map Prod.fst).Nodup := by
  rw [map_fst_put]
  split
  · exact h
  · rename_i hl
    rw [List.nodup_append]
    refine ⟨h, by simp, ?_⟩
    intro a ha b hb
    simp only [List.mem_singleton] at hb
    exact fun hab => hl (hb ▸ hab ▸ ha)

theorem lookup_put (l k : Location) (e : Entry) (entries : List (Location × Entry)) :
    (put l e entries).lookup k = if k = l then some e else entries.lookup k := by
  induction entries with
  | nil => grind [put]
  | cons x rest ih => grind [put]

def set (t : Tree) (l : Location) (e : Entry) : Tree := ⟨put l e t.entries, nodup_put t.distinct⟩

theorem get?_set (t : Tree) {l : Location} (h : l ≠ []) (k : Location) (e : Entry) :
    (t.set l e).get? k = if k = l then some e else t.get? k := by
  by_cases hk : k = [] <;> simp [get?, set, lookup_put, hk, Ne.symm h]

/-- Removes an entry and all below it. -/
def erase (t : Tree) (l : Location) : Tree :=
  ⟨t.entries.filter (!l.isPrefixOf ·.1), t.distinct.sublist ((List.filter_sublist).map _)⟩

def step (t : Tree) (l : Location) (segment : Text) : Except FileFault Location :=
  match t.get? l with
  | none => .error .notFound
  | some (.file _) => .error .notDirectory
  | some .directory =>
    if Path.isVoid segment then .ok l
    -- the top is its own parent
    else if segment = ['.', '.'] then .ok l.dropLast
    else .ok (l ++ [segment])

def follow (t : Tree) (segments : List Text) : Except FileFault Location := segments.foldlM (step t) []

/-- Where a path leads. There need not be an entry. -/
def locate (t : Tree) (p : Path) : Except FileFault Location :=
  if p.isEmpty then .error .notFound else t.follow (Path.segments p)

def find (t : Tree) (p : Path) : Except FileFault (Location × Entry) := do
  let l ← t.locate p
  match t.get? l with
  | some e => return (l, e)
  | none => .error .notFound

def contains (t : Tree) (p : Path) : Bool := (t.find p).toBool

def isDirectory (t : Tree) (p : Path) : Bool :=
  match t.find p with
  | .ok (_, .directory) => true
  | _ => false

def decode? (content : ByteArray) : Option Text := (String.fromUTF8? content).map String.toList

def encode (t : Text) : ByteArray := (String.ofList t).toUTF8

theorem decode?_encode (t : Text) : decode? (encode t) = some t := by
  have h : String.fromUTF8? (String.ofList t).toUTF8 = some (String.ofList t) :=
    dif_pos (String.ofList t).isValidUTF8
  simp only [decode?, encode, h, Option.map_some, String.toList_ofList]

def read (t : Tree) (p : Path) : Except FileFault Text := do
  match ← t.find p with
  | (_, .directory) => .error .isDirectory
  | (_, .file content) =>
    match decode? content with
    | some text => return text
    | none => .error .notText

/-- Where a file is written. A path that ends in a slash after a name can only be a directory. -/
def target (t : Tree) (p : Path) : Except FileFault Location := do
  let segments := (Path.segments p).reverse
  let named := segments.dropWhile List.isEmpty
  if p.isEmpty then .error .notFound
  else if named.length < segments.length ∧ named.head?.any (fun s => s != ['.'] && s != ['.', '.']) then
    let l ← t.follow (named.drop 1).reverse
    let _ ← t.step l []
    .error .isDirectory
  else
    let l ← t.locate p
    if (t.get? l).any Entry.isDirectory then .error .isDirectory else return l

def write (t : Tree) (p : Path) (content : ByteArray) : Except FileFault Tree :=
  (t.target p).map fun l => t.set l (.file content)

def makeDirectory (t : Tree) (p : Path) : Except FileFault Tree := do
  let l ← t.locate p
  if (t.get? l).isSome then .error .alreadyExists else return t.set l .directory

/-- Makes the first of a list of directories, each of which lies in the next. Those made before a
failure stay. -/
def makeDirectories (t : Tree) : List Path → Tree × Except FileFault Unit
  | [] => (t, .ok ())
  | p :: above =>
    if p.isEmpty then (t, .ok ())
    else match t.makeDirectory p with
      | .ok t' => (t', .ok ())
      | .error .notFound =>
        match makeDirectories t above with
        | (t', .error fault) => (t', .error fault)
        | (t', .ok ()) =>
          match t'.makeDirectory p with
          | .ok t'' => (t'', .ok ())
          | .error fault => (t', if t'.isDirectory p then .ok () else .error fault)
      | .error fault => (t, if t.isDirectory p then .ok () else .error fault)

def makeDirectoryPath (t : Tree) (p : Path) : Tree × Except FileFault Unit :=
  t.makeDirectories (Path.ancestors p)

/-- All that lies at or below a path, each with the path that leads there from the given one. -/
def below (t : Tree) (p : Path) : Except FileFault (List (Path × Entry)) := do
  let (l, e) ← t.find p
  return (p, e) :: t.entries.filterMap fun (k, d) =>
    match l.isPrefixOf? k with
    | some (n :: ns) => some ((n :: ns).foldl Path.join p, d)
    | _ => none

/-- Everything in the tree, directories before what they hold and marked by a slash. -/
def listing (t : Tree) : List Path :=
  (t.entries.mergeSort fun a b => Location.isAtMost a.1 b.1).map fun (l, e) =>
    Path.ofSegments l ++ if e.isDirectory then ['/'] else []

end Tree

end SfcContract
