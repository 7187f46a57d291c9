import TypeSignature.Text.Basic

/-!
# Digits — numbers written in a base

A digit is worth less than its base.  Reading refuses any other character; the letters of
hexadecimal digits may be small or capital.
-/

namespace TypeSignature.Text

/-- The worth of a digit, up to sixteen. -/
def digitWorth? (c : Char) : Option Nat :=
  if c.isDigit then some (c.toNat - '0'.toNat)
  else if 'a' ≤ c ∧ c ≤ 'f' then some (c.toNat - 'a'.toNat + 10)
  else if 'A' ≤ c ∧ c ≤ 'F' then some (c.toNat - 'A'.toNat + 10)
  else none

/-- Whether a character is a digit in `base`. -/
def isDigitIn (base : Nat) (c : Char) : Bool := (digitWorth? c).any (· < base)

/-- The number that digits in `base` write behind those of `n`. -/
def appendDigits (base n : Nat) (digits : Text) : Nat :=
  digits.foldl (fun n c => base * n + (digitWorth? c).getD 0) n

/-- The number that digits in `base` write. -/
def valueIn (base : Nat) (digits : Text) : Nat := appendDigits base 0 digits

/-- The number that a text writes in `base`, if it holds nothing but digits. -/
def readIn? (base : Nat) (s : Text) : Option Nat :=
  if s.all (isDigitIn base) then some (valueIn base s) else none

example : readIn? 16 "00fF".toList = some 255 := by decide
example : readIn? 8 "18".toList = none := by decide

end TypeSignature.Text
