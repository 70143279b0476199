/-!
# Binary floating point numbers of 64 bits

A finite number is a sign, a mantissa below `2 ^ 53` and an exponent of two. Every operation computes
an exact quotient of natural numbers and rounds it once, to the nearest number and from a tie to the
even mantissa.
-/

namespace SfcContract

/-- The number `± mantissa * 2 ^ exponent`. -/
structure Binary64 where
  negative : Bool := false
  mantissa : Nat
  exponent : Int
  deriving DecidableEq, Repr

namespace Binary64

/-- A quotient rounded to the nearest integer, a tie to the even one. -/
def roundEven (n d : Nat) : Nat :=
  if 2 * (n % d) < d then n / d
  else if d < 2 * (n % d) then n / d + 1
  else if n / d % 2 = 0 then n / d else n / d + 1

/-- Numerator and denominator of `n / d` divided by `2 ^ e`. -/
def scaled (n d : Nat) (e : Int) : Nat × Nat :=
  if 0 ≤ e then (n, d * Nat.pow 2 e.toNat) else (n * Nat.pow 2 (-e).toNat, d)

/-- The least exponent, at which numbers are spaced evenly down to zero. -/
def minExponent : Int := -1074

def maxExponent : Int := 971

/-- The exponent at which a positive quotient has a mantissa of 53 bits, or the least one. -/
def exponentOf (n d : Nat) : Int :=
  let e : Int := (n.log2 : Int) - d.log2 - 52
  let (a, b) := scaled n d e
  max (if a / b < Nat.pow 2 52 then e - 1 else e) minExponent

/-- The number nearest to a quotient; `none` when it is too large. -/
def ofRatio? (negative : Bool) (n d : Nat) : Option Binary64 :=
  if n = 0 then some ⟨negative, 0, minExponent⟩
  else
    let e := exponentOf n d
    let (a, b) := scaled n d e
    let m := roundEven a b
    let (m, e) := if m = Nat.pow 2 53 then (Nat.pow 2 52, e + 1) else (m, e)
    if maxExponent < e then none else some ⟨negative, m, e⟩

def zero : Binary64 := ⟨false, 0, minExponent⟩

def ofHundredths (k : Nat) : Binary64 := (ofRatio? false k 100).getD zero

def ratio (x : Binary64) : Nat × Nat := scaled x.mantissa 1 (-x.exponent)

/-- The nearest number of hundredths, computed by way of the rounded product with 100, and of a tie
the one farther from zero; `none` when that product is too large. -/
def hundredths? (x : Binary64) : Option Nat := do
  let p ← ofRatio? false (x.ratio.1 * 100) x.ratio.2
  return (2 * p.ratio.1 + p.ratio.2) / (2 * p.ratio.2)

def round2? (x : Binary64) : Option Binary64 := do
  let k ← x.hundredths?
  ofRatio? x.negative k 100

/-- A decimal `significand * 10 ^ e` as text formats read it: the significand and the power of ten are
rounded first, and their product or quotient after that. A power of ten beyond `10 ^ 308` divides in
two steps. -/
def ofDecimal? (negative : Bool) (significand : Nat) (e : Int) : Option Binary64 := do
  let s ← ofRatio? false significand 1
  if s.mantissa = 0 then some ⟨negative, 0, minExponent⟩
  else if 0 ≤ e then
    let p ← ofRatio? false (Nat.pow 10 (min e.toNat 400)) 1
    ofRatio? negative (s.ratio.1 * p.ratio.1) (s.ratio.2 * p.ratio.2)
  else if -308 ≤ e then
    let p ← ofRatio? false (Nat.pow 10 (-e).toNat) 1
    ofRatio? negative (s.ratio.1 * p.ratio.2) (s.ratio.2 * p.ratio.1)
  else if -616 ≤ e then
    let p ← ofRatio? false (Nat.pow 10 308) 1
    let s ← ofRatio? false (s.ratio.1 * p.ratio.2) (s.ratio.2 * p.ratio.1)
    let p ← ofRatio? false (Nat.pow 10 ((-e).toNat - 308)) 1
    ofRatio? negative (s.ratio.1 * p.ratio.2) (s.ratio.2 * p.ratio.1)
  else some ⟨negative, 0, minExponent⟩

end Binary64

end SfcContract
