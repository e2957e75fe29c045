import Graft.Duration

/-!
# Timestamps

A moment is a number of seconds since the start of 1970 and of nanoseconds within the second. It is
printed as date and time in UTC; a year of other than four digits has a sign, and a nanosecond count of
a second or more is a leap second, printed as second 60.
-/

namespace Graft

/-- A moment in time. -/
structure Timestamp where
  /-- Seconds since 1970-01-01T00:00:00Z. -/
  seconds : Int
  nanoseconds : Nat
  deriving DecidableEq, Repr, Inhabited

namespace Timestamp

/-- Year, month and day of the day `days` after 1970-01-01. Days are counted from 0000-03-01 in eras
of 400 years, so that a leap day ends its year. -/
def civil (days : Int) : Int × Nat × Nat :=
  let z := days + 719468
  let era := z.fdiv 146097
  let day := (z - era * 146097).toNat
  let year := (day - day / 1460 + day / 36524 - day / 146096) / 365
  let inYear := day - (365 * year + year / 4 - year / 100)
  let m := (5 * inYear + 2) / 153
  let month := if m < 10 then m + 3 else m - 9
  (era * 400 + year + (if month ≤ 2 then 1 else 0), month, inYear - (153 * m + 2) / 5 + 1)

/-- A year: four digits from 0 to 9999, else a sign and at least four digits. -/
def year (y : Int) : String :=
  if 0 ≤ y && y ≤ 9999 then Fraction.padded 4 y.toNat
  else (if y < 0 then "-" else "+") ++ Fraction.padded (if y < 0 then 4 else 5) y.natAbs

/-- Date and time to the second. -/
def print (t : Timestamp) : String :=
  let days := t.seconds.fdiv 86400
  let inDay := (t.seconds - days * 86400).toNat
  let (y, m, d) := civil days
  let second := inDay % 60 + (if 1000000000 ≤ t.nanoseconds then 1 else 0)
  let two := Fraction.padded 2
  s!"{year y}-{two m}-{two d}T{two (inDay / 3600)}:{two (inDay / 60 % 60)}:{two second}Z"

end Timestamp

end Graft
