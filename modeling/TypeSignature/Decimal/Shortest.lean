import TypeSignature.Decimal.Binary64
import TypeSignature.Text.Basic

/-!
# Shortest — the fewest digits that read back

The reals that round to a double form an interval around it, whose ends belong to it when the
significand is even.  Of the decimal numbers in that interval the shortest one has the fewest
significant digits; among those it is the nearest to the double, and of two equally near ones the
caller chooses.  If a number with `n` digits lies in the interval then so does one of the two such
numbers next to the double, and only these two are tried.
-/

namespace TypeSignature

/-- A decimal number, `digits * 10 ^ exponent`. -/
structure Decimal where
  /-- The significant digits. -/
  digits : Nat
  /-- The power of ten that scales them. -/
  exponent : Int
  deriving DecidableEq, Repr

namespace Binary64

/-- The exponent of the highest power of ten that a positive quotient reaches. -/
def highestPowerOfTen (numerator denominator : Nat) : Int :=
  if denominator ≤ numerator then (Text.ofNat (numerator / denominator)).length - 1
  else -(Text.ofNat ((denominator - 1) / numerator)).length

/-- The number of `count` digits that reads back as the double, if there is one. -/
def withDigits? (tie : Tie) (x : Binary64) (count : Nat) : Option Decimal :=
  let scale := x.exponent - 2
  let quarters (n : Nat) : Nat := n <<< scale.toNat
  let unit := 1 <<< (-scale).toNat
  let value := quarters (4 * x.significand)
  let below := if x.significand = Nat.pow 2 52 ∧ x.exponent ≠ -1074 then 1 else 2
  let low := quarters (4 * x.significand - below)
  let high := quarters (4 * x.significand + 2)
  let exponent := highestPowerOfTen value unit + 1 - count
  let up := Nat.pow 10 (-exponent).toNat
  let down := unit * Nat.pow 10 exponent.toNat
  let inside (n : Nat) : Bool :=
    if x.significand % 2 = 0 then low * up ≤ n * down && n * down ≤ high * up
    else low * up < n * down && n * down < high * up
  let floor := value * up / down
  let decimal (n : Nat) : Decimal :=
    if n = Nat.pow 10 count then ⟨1, exponent + count⟩ else ⟨n, exponent⟩
  match inside floor, inside (floor + 1) with
  | true, true => some (decimal (round tie (value * up) down))
  | true, false => some (decimal floor)
  | false, true => some (decimal (floor + 1))
  | false, false => none

/-- The first of the given digit counts with which the double reads back; seventeen always do. -/
def firstDigits (tie : Tie) (x : Binary64) : List Nat → Decimal
  | [] => (x.withDigits? tie 17).getD ⟨0, 0⟩
  | count :: counts => (x.withDigits? tie count).getD (x.firstDigits tie counts)

/-- The shortest decimal number that reads back as the double, and the nearest of those. -/
def shortest (tie : Tie) (x : Binary64) : Decimal :=
  if x.significand = 0 then ⟨0, 0⟩ else x.firstDigits tie (List.range' 1 16)

example : shortest .toEven ⟨0x1999999999999A, -56⟩ = ⟨1, -1⟩ := by decide
example : shortest .toEven ⟨1, -1074⟩ = ⟨5, -324⟩ := by decide +kernel

/-- A quarter above an even digit lies in the middle between two digits. -/
example : shortest .toEven ⟨2 ^ 52 + 1, -2⟩ = ⟨11258999068426242, -1⟩ ∧
    shortest .up ⟨2 ^ 52 + 1, -2⟩ = ⟨11258999068426243, -1⟩ := by decide +kernel

end Binary64

namespace Decimal

/-- The exponent of the first digit's power of ten. -/
def leading (d : Decimal) : Int := (Text.ofNat d.digits).length + d.exponent - 1

/-- The number with a decimal point in its place and at least one digit on either side of it. -/
def positional (d : Decimal) : Text :=
  let digits := Text.ofNat d.digits
  let point := d.leading + 1
  if point ≤ 0 then '0' :: '.' :: List.replicate (-point).toNat '0' ++ digits
  else
    let whole := digits.take point.toNat
    let fraction := digits.drop point.toNat
    whole ++ List.replicate (point.toNat - whole.length) '0' ++
      '.' :: if fraction.isEmpty then ['0'] else fraction

/-- The number with one digit before the point and a signed exponent behind it. -/
def scientific (d : Decimal) : Text :=
  let exponent := d.leading
  let mark := if exponent < 0 then ['e', '-'] else ['e', '+']
  let mantissa :=
    match Text.ofNat d.digits with
    | first :: second :: rest => first :: '.' :: second :: rest
    | digits => digits
  mantissa ++ mark ++ Text.ofNat exponent.natAbs

example : positional ⟨15, -1⟩ = "1.5".toList := by decide
example : positional ⟨1, 2⟩ = "100.0".toList := by decide
example : positional ⟨25, -4⟩ = "0.0025".toList := by decide
example : positional ⟨0, 0⟩ = "0.0".toList := by decide
example : scientific ⟨1234, 30⟩ = "1.234e+33".toList := by decide

end Decimal

end TypeSignature
