/-!
# Binary64 — doubles as exact numbers

A finite double, apart from its sign, is `significand * 2 ^ exponent` with a significand below
`2 ^ 53`.  `Binary64.nearest?` rounds an exact quotient to the nearest double, a tie to the even
significand, so that numerals are read and doubles are multiplied and divided without a rounding
other than that one.
-/

namespace TypeSignature

/-- A finite double without its sign. -/
structure Binary64 where
  /-- The integer significand. -/
  significand : Nat
  /-- The power of two that scales it. -/
  exponent : Int
  deriving DecidableEq, Repr

namespace Binary64

/-- Zero, with the exponent of the smallest doubles. -/
def zero : Binary64 := ⟨0, -1074⟩

/-- Which of two equally near integers a quotient is rounded to. -/
inductive Tie where
  /-- The even one. -/
  | toEven
  /-- The greater one. -/
  | up
  deriving DecidableEq, Repr

/-- The integer nearest to a quotient. -/
def round (tie : Tie) (numerator denominator : Nat) : Nat :=
  let quotient := numerator / denominator
  let rest := numerator % denominator
  if 2 * rest < denominator then quotient
  else if denominator < 2 * rest then quotient + 1
  else
    match tie with
    | .toEven => quotient + quotient % 2
    | .up => quotient + 1

/-- The exponent of the highest power of two that a positive quotient reaches. -/
def highestPower (numerator denominator : Nat) : Int :=
  let guess : Int := numerator.log2 - denominator.log2
  if denominator <<< guess.toNat ≤ numerator <<< (-guess).toNat then guess else guess - 1

/-- The double nearest to a quotient, or `none` when that lies above all finite doubles. -/
def nearest? (numerator denominator : Nat) : Option Binary64 :=
  if numerator = 0 then some zero
  else
    let exponent := max (highestPower numerator denominator - 52) (-1074)
    let significand :=
      round .toEven (numerator <<< (-exponent).toNat) (denominator <<< exponent.toNat)
    let rounded : Binary64 :=
      if significand = Nat.pow 2 53 then ⟨Nat.pow 2 52, exponent + 1⟩ else ⟨significand, exponent⟩
    if 971 < rounded.exponent then none else some rounded

/-- The double as a quotient of natural numbers. -/
def ratio (x : Binary64) : Nat × Nat :=
  (x.significand <<< x.exponent.toNat, 1 <<< (-x.exponent).toNat)

/-- The product, rounded. -/
def mul? (x y : Binary64) : Option Binary64 :=
  nearest? (x.ratio.1 * y.ratio.1) (x.ratio.2 * y.ratio.2)

/-- The quotient, rounded. -/
def div? (x y : Binary64) : Option Binary64 :=
  nearest? (x.ratio.1 * y.ratio.2) (x.ratio.2 * y.ratio.1)

example : nearest? 1 10 = some ⟨0x1999999999999A, -56⟩ := by decide
example : nearest? (2 ^ 53 + 1) 1 = some ⟨2 ^ 52, 1⟩ := by decide

end Binary64

end TypeSignature
