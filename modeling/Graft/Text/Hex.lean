import Graft.Text.Basic

/-!
# Hexadecimal digits

Characters are written by their code points in hexadecimal, both in texts that are read and in texts
that are printed.
-/

namespace Graft.Hex

/-- The value of a digit. -/
def digit? (c : Char) : Option Nat :=
  if '0' ≤ c && c ≤ '9' then some (c.toNat - 48)
  else if 'a' ≤ c && c ≤ 'f' then some (c.toNat - 87)
  else if 'A' ≤ c && c ≤ 'F' then some (c.toNat - 55)
  else none

/-- The value of digits after a part of value `n`. -/
def valueFrom? : (n : Nat) → Text → Option Nat
  | n, [] => some n
  | n, c :: rest => do valueFrom? (n * 16 + (← digit? c)) rest

/-- The value of a text of digits. -/
def value? (digits : Text) : Option Nat := valueFrom? 0 digits

/-- The character with a code point, unless the code point is half a surrogate pair or too large. -/
def char? (n : Nat) : Option Char := if n.isValidChar then some (Char.ofNat n) else none

/-- The digits of a number, in lower case. -/
def lower (n : Nat) : Text := Nat.toDigits 16 n

/-- The digits of a number in upper case, with leading zeros up to a width. -/
def upper (width n : Nat) : Text :=
  let digits := (Nat.toDigits 16 n).map fun c =>
    if 'a' ≤ c && c ≤ 'f' then Char.ofNat (c.toNat - 32) else c
  List.replicate (width - digits.length) '0' ++ digits

end Graft.Hex
