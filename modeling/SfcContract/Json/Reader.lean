import SfcContract.Number.Binary64
import SfcContract.Text.Basic

/-!
# Reading JSON text

Text is read for an expected shape from left to right, and the first problem that is met decides the
fault. A record may be written as an object, whose members come in any order, or as an array of its
members in their own order.
-/

namespace SfcContract.Json

inductive Fault where
  /-- It ends too early. -/
  | ended
  /-- It is no JSON. -/
  | malformed
  /-- What stands there is JSON, but not what is expected. -/
  | mismatched
  deriving DecidableEq, Repr

/-- Reads a value at the start of a text and answers what follows it. -/
abbrev Reader (α : Type) := Text → Except Fault (α × Text)

def isSpace (c : Char) : Bool := c == ' ' || c == '\n' || c == '\t' || c == '\r'

def skipSpace (t : Text) : Text := t.dropWhile isSpace

def afterWord : Text → Text → Except Fault Text
  | [], t => .ok t
  | _ :: _, [] => .error .ended
  | w :: word, c :: t => if c = w then afterWord word t else .error .malformed

def hexValue? (c : Char) : Option Nat :=
  if c.isDigit then some (c.toNat - '0'.toNat)
  else if 'a' ≤ c ∧ c ≤ 'f' then some (c.toNat - 'a'.toNat + 10)
  else if 'A' ≤ c ∧ c ≤ 'F' then some (c.toNat - 'A'.toNat + 10)
  else none

/-- Four hexadecimal digits. They are four bytes: a text of fewer ends too early. -/
def hexQuad (t : Text) : Except Fault Nat :=
  match t with
  | a :: b :: c :: d :: _ =>
    match hexValue? a, hexValue? b, hexValue? c, hexValue? d with
    | some a, some b, some c, some d => .ok (((a * 16 + b) * 16 + c) * 16 + d)
    | _, _, _, _ => .error .malformed
  | _ => .error (if Text.byteSize t < 4 then .ended else .malformed)

def isLowSurrogate (n : Nat) : Bool := 0xDC00 ≤ n && n ≤ 0xDFFF

def isHighSurrogate (n : Nat) : Bool := 0xD800 ≤ n && n ≤ 0xDBFF

/-- The second half of a pair, after the digits of the first; also the character of the pair. -/
def surrogatePair (high : Nat) (t : Text) : Except Fault Char :=
  match t with
  | [] => .error .ended
  | ['\\'] => .error .ended
  | '\\' :: 'u' :: t => do
    let low ← hexQuad t
    if isLowSurrogate low then
      return Char.ofNat (0x10000 + (high - 0xD800) * 0x400 + (low - 0xDC00))
    else .error .malformed
  | _ => .error .malformed

/-- The character of an escape, of which `t` follows the backslash, and the length of the escape. A
string that is only passed over may have half of a pair. -/
def escape (strict : Bool) (t : Text) : Except Fault (Char × Nat) :=
  match t with
  | [] => .error .ended
  | 'b' :: _ => .ok ('\x08', 1)
  | 'f' :: _ => .ok ('\x0c', 1)
  | 'n' :: _ => .ok ('\n', 1)
  | 'r' :: _ => .ok ('\r', 1)
  | 't' :: _ => .ok ('\t', 1)
  | 'u' :: t => do
    let n ← hexQuad t
    if !strict then return ('\x00', 5)
    else if isLowSurrogate n then .error .malformed
    else if isHighSurrogate n then return (← surrogatePair n (t.drop 4), 11)
    else return (Char.ofNat n, 5)
  | c :: _ => if c = '\x22' ∨ c = '\\' ∨ c = '/' then .ok (c, 1) else .error .malformed

/-- The rest of a string after its opening quote; `skip` characters still belong to an escape. -/
def stringRest (strict : Bool) : Nat → Text → Except Fault (Text × Text)
  | _, [] => .error .ended
  | skip + 1, _ :: t => stringRest strict skip t
  | 0, c :: t =>
    if c = '\x22' then .ok ([], t)
    else if c = '\\' then do
      let (d, n) ← escape strict t
      let (s, rest) ← stringRest strict n t
      return (d :: s, rest)
    else if c.toNat < 0x20 then .error .malformed
    else do
      let (s, rest) ← stringRest strict 0 t
      return (c :: s, rest)

inductive Numeral where
  | integer (negative : Bool) (n : Nat)
  | binary (x : Binary64)
  deriving DecidableEq, Repr

def digitValue (c : Char) : Nat := c.toNat - '0'.toNat

/-- Extends a significand by digits as long as it fits 64 bits; also how many were taken. -/
def absorb : Nat → Text → Nat × Nat
  | s, [] => (s, 0)
  | s, c :: t =>
    if s * 10 + digitValue c < Nat.pow 2 64 then
      let (total, taken) := absorb (s * 10 + digitValue c) t
      (total, taken + 1)
    else (s, 0)

def exponent (t : Text) : Except Fault (Option Int × Text) :=
  match t with
  | [] => .ok (none, t)
  | c :: r =>
    if c = 'e' ∨ c = 'E' then
      let (negative, r) := match r with
        | '+' :: r => (false, r)
        | '-' :: r => (true, r)
        | r => (false, r)
      let digits := r.takeWhile Char.isDigit
      if digits.isEmpty then .error (if r.isEmpty then .ended else .malformed)
      else
        let n : Int := digits.foldl (fun n d => n * 10 + digitValue d) 0
        .ok (some (if negative then -n else n), r.dropWhile Char.isDigit)
    else .ok (none, t)

/-- A fraction, if one follows: its digits. -/
def fraction (t : Text) : Except Fault (Option Text × Text) :=
  match t with
  | '.' :: r =>
    if (r.takeWhile Char.isDigit).isEmpty then .error (if r.isEmpty then .ended else .malformed)
    else .ok (some (r.takeWhile Char.isDigit), r.dropWhile Char.isDigit)
  | _ => .ok (none, t)

structure Decimals where
  digits : Text
  fraction : Option Text
  exponent : Option Int
  deriving DecidableEq, Repr

/-- A number without its sign. Only a single zero may lead. -/
def decimals (t : Text) : Except Fault (Decimals × Text) :=
  let digits := t.takeWhile Char.isDigit
  if digits.isEmpty then .error (if t.isEmpty then .ended else .malformed)
  else if digits.head? = some '0' ∧ digits.length ≠ 1 then .error .malformed
  else do
    let (fraction, t) ← fraction (t.dropWhile Char.isDigit)
    let (exponent, t) ← exponent t
    return (⟨digits, fraction, exponent⟩, t)

/-- The value of a number; `none` when it is too large. Only an integer of at most 64 bits stays an
integer. -/
def Decimals.value? (negative : Bool) (d : Decimals) : Option Numeral :=
  let (s, taken) := absorb 0 d.digits
  if d.fraction = none ∧ d.exponent = none ∧ taken = d.digits.length then some (.integer negative s)
  else
    let (s, more) := absorb s (d.fraction.getD [])
    (Binary64.ofDecimal? negative s ((d.digits.length - taken : Int) - more + d.exponent.getD 0)).map
      .binary

def numeral (negative : Bool) (t : Text) : Except Fault (Numeral × Text) := do
  let (d, rest) ← decimals t
  match d.value? negative with
  | some n => return (n, rest)
  | none => .error .malformed

/-- The fault of a text, without blanks in front, at which another kind of value is expected. A scalar
is read before it is refused. -/
def mismatch (t : Text) : Fault :=
  let after {α : Type} (r : Except Fault α) : Fault :=
    match r with
    | .error fault => fault
    | .ok _ => .mismatched
  match t with
  | [] => .ended
  | '[' :: _ => .mismatched
  | '{' :: _ => .mismatched
  | 'n' :: r => after (afterWord "ull".toList r)
  | 't' :: r => after (afterWord "rue".toList r)
  | 'f' :: r => after (afterWord "alse".toList r)
  | '-' :: r => after (numeral true r)
  | c :: r =>
    if c = '\x22' then after (stringRest true 0 r)
    else if c.isDigit then after (numeral false t)
    else .malformed

namespace Reader

variable {α : Type}

def string : Reader Text := fun t =>
  match skipSpace t with
  | [] => .error .ended
  | c :: r => if c = '\x22' then stringRest true 0 r else .error (mismatch (c :: r))

def bool : Reader Bool := fun t =>
  match skipSpace t with
  | [] => .error .ended
  | 't' :: r => (afterWord "rue".toList r).map fun rest => (true, rest)
  | 'f' :: r => (afterWord "alse".toList r).map fun rest => (false, rest)
  | r => .error (mismatch r)

def number : Reader Numeral := fun t =>
  match skipSpace t with
  | [] => .error .ended
  | '-' :: r => numeral true r
  | c :: r => if c.isDigit then numeral false (c :: r) else .error (mismatch (c :: r))

def nat (bound : Nat) : Reader Nat := fun t => do
  match ← number t with
  | (.integer false n, rest) => if n < bound then return (n, rest) else .error .mismatched
  | _ => .error .mismatched

def binary64 : Reader Binary64 := fun t => do
  match ← number t with
  | (.integer negative n, rest) =>
    match Binary64.ofRatio? negative n 1 with
    | some x => return (x, rest)
    | none => .error .malformed
  | (.binary x, rest) => return (x, rest)

def nullable (r : Reader α) : Reader (Option α) := fun t =>
  match skipSpace t with
  | 'n' :: rest => (afterWord "ull".toList rest).map fun rest => (none, rest)
  | rest => (r rest).map fun a => (some a.1, a.2)

/-- One of several labels, as a string or as the only key of an object that holds `null`. -/
def choice (label : α → Text) (options : List α) : Reader α :=
  let pick : Text → Except Fault α := fun key =>
    match options.find? (label · == key) with
    | some a => .ok a
    | none => .error .mismatched
  fun t =>
    match skipSpace t with
    | [] => .error .ended
    | '{' :: r => do
      let (key, r) ← string r
      let a ← pick key
      let r ← match skipSpace r with
        | [] => .error .ended
        | ':' :: r => .ok r
        | _ => .error .malformed
      let r ← match skipSpace r with
        | [] => .error .ended
        | 'n' :: r => afterWord "ull".toList r
        | r => .error (mismatch r)
      match skipSpace r with
      | [] => .error .ended
      | '}' :: rest => return (a, rest)
      | _ => .error .malformed
    | c :: r =>
      if c = '\x22' then do
        let (key, rest) ← stringRest true 0 r
        return (← pick key, rest)
      else .error .malformed

/-- Moves to the next item of an array: `none` at its end, which is not passed. -/
def nextItem (first : Bool) (t : Text) : Except Fault (Option Text) :=
  match skipSpace t with
  | [] => .error .ended
  | ']' :: _ => .ok none
  | c :: r =>
    if first then .ok (some (c :: r))
    else if c = ',' then
      match skipSpace r with
      | [] => .error .ended
      | ']' :: _ => .error .malformed
      | r => .ok (some r)
    else .error .malformed

def endArray (t : Text) : Except Fault Text :=
  match skipSpace t with
  | [] => .error .ended
  | ']' :: rest => .ok rest
  | _ => .error .malformed

/-- The items of an array; each takes at least one character, so `fuel` is the length of the text. -/
def items (r : Reader α) : Nat → Bool → Text → Except Fault (List α × Text)
  | 0, _, _ => .error .ended
  | fuel + 1, first, t => do
    match ← nextItem first t with
    | none => return ([], t)
    | some t =>
      let (a, t) ← r t
      let (as, t) ← items r fuel false t
      return (a :: as, t)

def list (r : Reader α) : Reader (List α) := fun t =>
  match skipSpace t with
  | [] => .error .ended
  | '[' :: t => do
    let (as, t) ← items r (t.length + 1) true t
    return (as, ← endArray t)
  | t => .error (mismatch t)

/-- A number without its sign that is only passed over. It may be too large, and to end too early is no
special fault of it. -/
def skipNumeral (t : Text) : Except Fault Text :=
  match decimals t with
  | .ok (_, rest) => .ok rest
  | .error _ => .error .malformed

/-- Moves to the next key of an object: `none` at its end, which is not passed. -/
def nextKey (first : Bool) (t : Text) : Except Fault (Option Text) :=
  let key (r : Text) : Except Fault (Option Text) :=
    if r.head? = some '\x22' then .ok (some r) else .error .malformed
  match skipSpace t with
  | [] => .error .ended
  | '}' :: _ => .ok none
  | c :: r =>
    if first then key (c :: r)
    else if c = ',' then
      match skipSpace r with
      | [] => .error .ended
      | r => key r
    else .error .malformed

def colon (t : Text) : Except Fault Text :=
  match skipSpace t with
  | [] => .error .ended
  | ':' :: rest => .ok rest
  | _ => .error .malformed

mutual

/-- Passes over a value. Every step takes a character, so `fuel` is the length of the text. -/
def skipValue : Nat → Text → Except Fault Text
  | 0, _ => .error .ended
  | fuel + 1, t => match skipSpace t with
    | [] => .error .ended
    | 'n' :: r => afterWord "ull".toList r
    | 't' :: r => afterWord "rue".toList r
    | 'f' :: r => afterWord "alse".toList r
    | '-' :: r => skipNumeral r
    | '[' :: r => skipItems fuel true r
    | '{' :: r => skipMembers fuel true r
    | c :: r =>
      if c = '\x22' then (stringRest false 0 r).map Prod.snd
      else if c.isDigit then skipNumeral (c :: r)
      else .error .malformed

def skipItems : Nat → Bool → Text → Except Fault Text
  | 0, _, _ => .error .ended
  | fuel + 1, first, t => do
    match ← nextItem first t with
    | none => endArray t
    | some t => skipItems fuel false (← skipValue fuel t)

def skipMembers : Nat → Bool → Text → Except Fault Text
  | 0, _, _ => .error .ended
  | fuel + 1, first, t => do
    match ← nextKey first t with
    | none => return (skipSpace t).drop 1
    | some t =>
      let (_, t) ← stringRest false 0 (t.drop 1)
      skipMembers fuel false (← skipValue fuel (← colon t))

end

/-- A member of a record that is read into a draft. -/
structure Member (σ : Type) where
  key : Text
  isSet : σ → Bool
  read : Reader (σ → σ)

/-- A field that stores what a reader reads. -/
def Member.of {σ : Type} (key : String) (r : Reader α) (isSet : σ → Bool) (set : α → σ → σ) : Member σ where
  key := key.toList
  isSet
  read t := (r t).map fun a => (set a.1, a.2)

/-- The members of an object in any order. An unknown one is passed over; a known one may come once. -/
def members {σ : Type} (fields : List (Member σ)) : Nat → Bool → σ → Text → Except Fault (σ × Text)
  | 0, _, _, _ => .error .ended
  | fuel + 1, first, draft, t => do
    match ← nextKey first t with
    | none => return (draft, (skipSpace t).drop 1)
    | some t =>
      let (key, t) ← stringRest true 0 (t.drop 1)
      match fields.find? (·.key == key) with
      | some f =>
        if f.isSet draft then .error .mismatched
        else
          let (set, t) ← f.read (← colon t)
          members fields fuel false (set draft) t
      | none =>
        let t ← colon t
        members fields fuel false draft (← skipValue (t.length + 1) t)

/-- The members of an array in the order of the fields, of which later ones may be missing. -/
def elements {σ : Type} : List (Member σ) → Bool → σ → Text → Except Fault (σ × Text)
  | [], _, draft, t => .ok (draft, t)
  | f :: fields, first, draft, t => do
    match ← nextItem first t with
    | none => return (draft, t)
    | some t =>
      let (set, t) ← f.read t
      elements fields false (set draft) t

/-- A record. `finish` fails when the draft lacks a member that has no default. -/
def record {σ : Type} (fields : List (Member σ)) (empty : σ) (finish : σ → Option α) : Reader α :=
  let done : σ → Except Fault α := fun draft =>
    match finish draft with
    | some a => .ok a
    | none => .error .mismatched
  fun t =>
    match skipSpace t with
    | [] => .error .ended
    | '[' :: t => do
      let (draft, t) ← elements fields true empty t
      let a ← done draft
      return (a, ← endArray t)
    | '{' :: t => do
      let (draft, t) ← members fields (t.length + 1) true empty t
      return (← done draft, t)
    | t => .error (mismatch t)

def whole (r : Reader α) (t : Text) : Except Fault α := do
  let (a, rest) ← r t
  if (skipSpace rest).isEmpty then return a else .error .malformed

end Reader

end SfcContract.Json
