import SfcContract.Text.Basic

/-!
# Points in time

Seconds since the start of 1970, written as date and time of day in UTC.
-/

namespace SfcContract.Time

structure Date where
  year : Nat
  month : Nat
  day : Nat
  deriving DecidableEq, Repr

/-- The date that many days after the start of 1970. Years are counted from March, so that the leap day
is the last one, in eras of 400 years. -/
def dateOfDays (days : Nat) : Date :=
  let shifted := days + 719468
  let dayOfEra := shifted % 146097
  let yearOfEra := (dayOfEra - dayOfEra / 1460 + dayOfEra / 36524 - dayOfEra / 146096) / 365
  let dayOfYear := dayOfEra - (365 * yearOfEra + yearOfEra / 4 - yearOfEra / 100)
  let monthFromMarch := (5 * dayOfYear + 2) / 153
  let month := if monthFromMarch < 10 then monthFromMarch + 3 else monthFromMarch - 9
  { year := shifted / 146097 * 400 + yearOfEra + if month ≤ 2 then 1 else 0
    month
    day := dayOfYear - (153 * monthFromMarch + 2) / 5 + 1 }

def padded (width n : Nat) : Text :=
  List.replicate (width - (Text.ofNat n).length) '0' ++ Text.ofNat n

/-- For instance `2026-01-31T08:05:00Z`. -/
def write (seconds : Nat) : Text :=
  let date := dateOfDays (seconds / 86400)
  let time := seconds % 86400
  padded 4 date.year ++ ['-'] ++ padded 2 date.month ++ ['-'] ++ padded 2 date.day ++ ['T'] ++
    padded 2 (time / 3600) ++ [':'] ++ padded 2 (time / 60 % 60) ++ [':'] ++ padded 2 (time % 60) ++ ['Z']

end SfcContract.Time
