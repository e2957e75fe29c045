/-!
# Durations

A duration is a count of seconds and of nanoseconds within the second. Its seconds are shown with a
fixed number of decimals: the duration is first rounded to a binary fraction of 53 bits, part by part,
and the exact value of that fraction is then rounded to the decimals; ties go to the even neighbour
both times.
-/

namespace Graft

/-- A span of time. -/
structure Duration where
  seconds : Nat
  nanoseconds : Nat
  deriving DecidableEq, Repr, Inhabited

/-- A fraction that is not negative; its bottom is meant to be positive. -/
structure Fraction where
  top : Nat
  bottom : Nat
  deriving DecidableEq, Repr, Inhabited

namespace Fraction

/-- The whole number nearest to `top / bottom`; a tie goes to the even one. -/
def roundDiv (top bottom : Nat) : Nat :=
  let q := top / bottom
  let twice := 2 * (top % bottom)
  if twice < bottom then q
  else if bottom < twice then q + 1
  else if q % 2 = 0 then q else q + 1

/-- The nearest fraction of 53 significant bits. With `top / bottom` between `2 ^ (a - b - 1)` and
`2 ^ (a - b + 1)`, one of two scalings brings it between `2 ^ 52` and `2 ^ 53`. -/
def toBinary (f : Fraction) : Fraction :=
  if f.top = 0 then ⟨0, 1⟩
  else
    let a := Nat.log2 f.top
    let b := Nat.log2 f.bottom
    if a ≤ b + 52 then
      let k := 52 + b - a
      let k := if f.bottom <<< 52 ≤ f.top <<< k then k else k + 1
      ⟨roundDiv (f.top <<< k) f.bottom, 1 <<< k⟩
    else
      let k := a - b - 52
      let k := if f.bottom <<< (52 + k) ≤ f.top then k else k - 1
      ⟨roundDiv f.top (f.bottom <<< k) <<< k, 1⟩

/-- The sum of two fractions. -/
def add (f g : Fraction) : Fraction := ⟨f.top * g.bottom + g.top * f.bottom, f.bottom * g.bottom⟩

/-- A count with leading zeros up to a width. -/
def padded (width n : Nat) : String :=
  let digits := Nat.toDigits 10 n
  String.ofList (List.replicate (width - digits.length) '0' ++ digits)

/-- The value with `places` decimals, at least one; a tie goes to the even last digit. -/
def fixed (places : Nat) (f : Fraction) : String :=
  let unit := Nat.pow 10 places
  let n := roundDiv (f.top * unit) f.bottom
  String.ofList (Nat.toDigits 10 (n / unit)) ++ "." ++ padded places (n % unit)

end Fraction

namespace Duration

/-- A number of milliseconds. -/
def ofMillis (n : Nat) : Duration := ⟨n / 1000, n % 1000 * 1000000⟩

/-- A number of seconds. -/
def ofSeconds (n : Nat) : Duration := ⟨n, 0⟩

/-- The seconds as a binary fraction: whole seconds and the rest are rounded, and their sum is. -/
def toFraction (d : Duration) : Fraction :=
  ((Fraction.toBinary ⟨d.seconds, 1⟩).add (Fraction.toBinary ⟨d.nanoseconds, 1000000000⟩)).toBinary

/-- The seconds with `places` decimals. -/
def inSeconds (places : Nat) (d : Duration) : String := d.toFraction.fixed places

/-- The whole milliseconds of a duration. -/
def millis (d : Duration) : Nat := d.seconds * 1000 + d.nanoseconds / 1000000

/-- A duration for people: milliseconds below a second, seconds with two decimals below a minute, and
minutes and seconds from there on. -/
def describe (d : Duration) : String :=
  if d.millis < 1000 then s!"{d.millis}ms"
  else if d.millis < 60000 then d.inSeconds 2 ++ "s"
  else s!"{d.seconds / 60}m {d.seconds % 60}s"

end Duration

end Graft
