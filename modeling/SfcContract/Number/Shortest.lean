import SfcContract.Number.Binary64
import SfcContract.Text.Basic

/-!
# The shortest decimal of a number

Of all decimals that read back as a number, the one with the fewest digits is written, and of several
with that many digits the nearest.
-/

namespace SfcContract.Binary64

/-- The decimal `digits * 10 ^ exponent`. -/
structure Decimal where
  digits : Nat
  exponent : Int
  deriving DecidableEq, Repr

/-- The interval of values that round to a number, times four and over a common denominator: its
ends, the number itself, and the denominator. Below a power of two the spacing is halved. -/
structure Interval where
  low : Nat
  value : Nat
  high : Nat
  denominator : Nat

def interval (x : Binary64) : Interval :=
  let halved := x.mantissa = Nat.pow 2 52 ∧ minExponent < x.exponent
  let (n, d) := scaled 1 1 (-x.exponent)
  { low := (4 * x.mantissa - (if halved then 1 else 2)) * n
    value := 4 * x.mantissa * n
    high := (4 * x.mantissa + 2) * n
    denominator := 4 * d }

/-- The exponent of the leading digit of a positive quotient. -/
def leading (n d : Nat) : Int :=
  if d ≤ n then ((Nat.toDigits 10 (n / d)).length : Int) - 1
  else
    let l := (Nat.toDigits 10 (d / n)).length
    if d ≤ n * Nat.pow 10 (l - 1) then -((l : Int) - 1) else -(l : Int)

/-- The decimal with spacing `10 ^ k` that reads back, if there is one. -/
def onGrid? (i : Interval) (closed : Bool) (k : Int) : Option Decimal :=
  let (up, down) := if 0 ≤ k then (1, Nat.pow 10 k.toNat) else (Nat.pow 10 (-k).toNat, 1)
  let scale := i.denominator * down
  let below := i.value * up / scale
  let hits (c : Nat) : Bool :=
    if closed then i.low * up ≤ c * scale && c * scale ≤ i.high * up
    else i.low * up < c * scale && c * scale < i.high * up
  let gap := i.value * up - below * scale
  let gapAbove := (below + 1) * scale - i.value * up
  let belowFirst := gap < gapAbove || (gap == gapAbove && below % 2 == 0)
  if hits below && (belowFirst || !hits (below + 1)) then some ⟨below, k⟩
  else if hits (below + 1) then some ⟨below + 1, k⟩
  else none

/-- Drops trailing zeros, at most as many as `fuel`. -/
def Decimal.strip : Nat → Decimal → Decimal
  | 0, x => x
  | fuel + 1, x => if x.digits % 10 = 0 then strip fuel ⟨x.digits / 10, x.exponent + 1⟩ else x

def shortest (x : Binary64) : Decimal :=
  if x.mantissa = 0 then ⟨0, 0⟩
  else
    let i := x.interval
    let lead := leading i.value i.denominator
    let closed := x.mantissa % 2 == 0
    match (List.range 17).findSome? fun (n : Nat) => onGrid? i closed (lead - (n : Int)) with
    | some decimal => decimal.strip 20
    | none => ⟨0, 0⟩

structure Layout where
  /-- Least and greatest exponents of the leading digit that are written without an exponent; no bounds
  mean that an exponent is never written. -/
  positional : Option (Int × Int)
  /-- Whether an integer is written with a zero after the point. -/
  fraction : Bool

def zeros (n : Nat) : Text := List.replicate n '0'

namespace Layout

/-- Digits without an exponent; the point stands after `point` of them. -/
def plain (layout : Layout) (digits : Text) (point : Int) : Text :=
  if point ≤ 0 then ['0', '.'] ++ zeros (-point).toNat ++ digits
  else if (digits.length : Int) ≤ point then
    digits ++ zeros (point.toNat - digits.length) ++ if layout.fraction then ['.', '0'] else []
  else digits.take point.toNat ++ ['.'] ++ digits.drop point.toNat

/-- Digits with an exponent, which always has a sign. -/
def scientific (digits : Text) (lead : Int) : Text :=
  let fraction := digits.drop 1
  digits.take 1 ++ (if fraction.isEmpty then [] else '.' :: fraction) ++ ['e'] ++
    (if 0 ≤ lead then ['+'] else ['-']) ++ Text.ofNat lead.natAbs

def magnitude (layout : Layout) (x : Decimal) : Text :=
  if x.digits = 0 then ['0'] ++ if layout.fraction then ['.', '0'] else []
  else
    let digits := Text.ofNat x.digits
    let point := (digits.length : Int) + x.exponent
    match layout.positional with
    | none => layout.plain digits point
    | some (least, greatest) =>
      if least ≤ point - 1 ∧ point - 1 ≤ greatest then layout.plain digits point
      else scientific digits (point - 1)

def write (layout : Layout) (x : Binary64) : Text :=
  (if x.negative then ['-'] else []) ++ layout.magnitude x.shortest

end Layout

end SfcContract.Binary64
