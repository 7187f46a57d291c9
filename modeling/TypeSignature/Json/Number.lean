import TypeSignature.Decimal.Shortest
import TypeSignature.Document
import TypeSignature.Text.Digits

/-!
# Number — JSON numerals and their values

A numeral without fraction and exponent is an integer as far as 64 bits reach: up to `2 ^ 64 - 1`,
and down to `-2 ^ 63`.  Any other numeral is a double, and so is `-0`.

A double is found from the leading digits that fit into 64 bits and one power of ten: the digits
are rounded to a double, the power is rounded to a double, and the two are multiplied or divided.
The result is therefore not always the double nearest to the numeral.
-/

namespace TypeSignature.Json

/-- The parts of a numeral. -/
structure Numeral where
  /-- Whether a minus sign comes first. -/
  negative : Bool
  /-- The digits before the point; one at least, and no leading zero unless it is the only one. -/
  whole : Text
  /-- The digits behind the point, if there is one. -/
  fraction : Option Text
  /-- Whether the exponent is negative, and its digits, if there is one. -/
  exponent : Option (Bool × Text)
  deriving DecidableEq, Repr

/-- Reads digits, all of them or none. -/
def takeDigits? (s : Text) : Option (Text × Text) :=
  match s.takeWhile Char.isDigit with
  | [] => none
  | digits => some (digits, s.dropWhile Char.isDigit)

/-- Reads the digits before the point. -/
def takeWhole? (s : Text) : Option (Text × Text) :=
  match takeDigits? s with
  | some ('0' :: _ :: _, _) => none
  | whole => whole

/-- Reads a fraction, if one begins here. -/
def takeFraction? : Text → Option (Option Text × Text)
  | '.' :: s => (takeDigits? s).map fun (digits, s) => (some digits, s)
  | s => some (none, s)

/-- Reads the digits of an exponent behind its sign. -/
def takeExponentDigits? (negative : Bool) (s : Text) : Option (Option (Bool × Text) × Text) :=
  (takeDigits? s).map fun (digits, s) => (some (negative, digits), s)

/-- Reads an exponent, if one begins here. -/
def takeExponent? : Text → Option (Option (Bool × Text) × Text)
  | c :: s =>
    if c = 'e' ∨ c = 'E' then
      match s with
      | '-' :: s => takeExponentDigits? true s
      | '+' :: s => takeExponentDigits? false s
      | s => takeExponentDigits? false s
    else some (none, c :: s)
  | [] => some (none, [])

/-- Reads the numeral at the beginning of a text; `none` if the text does not begin with one or
breaks off inside it. -/
def Numeral.read? (s : Text) : Option (Numeral × Text) := do
  let (negative, s) := match s with
    | '-' :: s => (true, s)
    | s => (false, s)
  let (whole, s) ← takeWhole? s
  let (fraction, s) ← takeFraction? s
  let (exponent, s) ← takeExponent? s
  pure ({ negative, whole, fraction, exponent }, s)

/-! Reading a part of a numeral never leaves more than there was. -/

theorem length_of_takeDigits? {s digits rest : Text} (h : takeDigits? s = some (digits, rest)) :
    rest.length < s.length := by
  unfold takeDigits? at h
  split at h
  · cases h
  · rename_i hne
    cases h
    have := congrArg List.length (List.takeWhile_append_dropWhile (p := Char.isDigit) (l := s))
    rw [List.length_append] at this
    have : (s.takeWhile Char.isDigit).length ≠ 0 := fun h => hne (List.length_eq_zero_iff.1 h)
    omega

theorem length_of_takeWhole? {s digits rest : Text} (h : takeWhole? s = some (digits, rest)) :
    rest.length < s.length := by
  unfold takeWhole? at h
  split at h
  · cases h
  · exact length_of_takeDigits? h

theorem length_of_takeFraction? {s rest : Text} {fraction : Option Text}
    (h : takeFraction? s = some (fraction, rest)) : rest.length ≤ s.length := by
  unfold takeFraction? at h
  split at h
  · obtain ⟨⟨digits, t⟩, ht, heq⟩ := Option.map_eq_some_iff.1 h
    cases heq
    have := length_of_takeDigits? ht
    simp only [List.length_cons]; omega
  · cases h; exact Nat.le_refl _

theorem length_of_takeExponentDigits? {negative : Bool} {s rest : Text}
    {exponent : Option (Bool × Text)}
    (h : takeExponentDigits? negative s = some (exponent, rest)) : rest.length < s.length := by
  obtain ⟨⟨digits, t⟩, ht, heq⟩ := Option.map_eq_some_iff.1 h
  cases heq
  exact length_of_takeDigits? ht

theorem length_of_takeExponent? {s rest : Text} {exponent : Option (Bool × Text)}
    (h : takeExponent? s = some (exponent, rest)) : rest.length ≤ s.length := by
  unfold takeExponent? at h
  split at h
  · split at h
    · split at h <;>
      · have := length_of_takeExponentDigits? h
        simp only [List.length_cons] at *; omega
    · cases h; exact Nat.le_refl _
  · cases h; exact Nat.le_refl _

theorem Numeral.length_of_read? {s rest : Text} {x : Numeral} (h : read? s = some (x, rest)) :
    rest.length < s.length := by
  simp only [read?, Option.bind_eq_bind, Option.bind_eq_some_iff, Option.pure_def] at h
  obtain ⟨⟨whole, s₁⟩, h₁, ⟨fraction, s₂⟩, h₂, ⟨exponent, s₃⟩, h₃, heq⟩ := h
  cases heq
  have l₁ := length_of_takeWhole? h₁
  have l₂ := length_of_takeFraction? h₂
  have l₃ := length_of_takeExponent? h₃
  split at l₁ <;> simp only [List.length_cons] at * <;> omega

namespace Numeral

/-- Extends a significand by digits as long as it stays below `2 ^ 64`; gives the digits left. -/
def accumulate (significand : Nat) : Text → Nat × Text
  | [] => (significand, [])
  | c :: digits =>
    let extended := Text.appendDigits 10 significand [c]
    if extended < Nat.pow 2 64 then accumulate extended digits else (significand, c :: digits)

/-- The significand of the numeral and the power of ten that scales it. -/
def significand (x : Numeral) : Nat × Int :=
  let (whole, surplus) := accumulate 0 x.whole
  let fraction := x.fraction.getD []
  let (digits, unread) := accumulate whole fraction
  let places : Int := fraction.length - unread.length
  let exponent : Int := match x.exponent with
    | none => 0
    | some (true, e) => -Text.valueIn 10 e
    | some (false, e) => Text.valueIn 10 e
  (digits, surplus.length - places + exponent)

/-- A power of ten as a double; it is finite up to the 308th. -/
def powerOfTen (n : Nat) : Binary64 := (Binary64.nearest? (Nat.pow 10 n) 1).getD .zero

/-- Divides by a power of ten, by its 308th at most at a time. -/
def scaleDown (x : Binary64) (n : Nat) : Option Binary64 :=
  if x.significand = 0 then some x
  else if n ≤ 308 then x.div? (powerOfTen n)
  else (x.div? (powerOfTen 308)).bind fun y => scaleDown y (n - 308)
termination_by n

/-- The double that the numeral stands for, apart from its sign; `none` above all doubles. -/
def magnitude (x : Numeral) : Option Binary64 :=
  let (significand, exponent) := x.significand
  (Binary64.nearest? significand 1).bind fun m =>
    if exponent < 0 then scaleDown m exponent.natAbs
    else if m.significand = 0 then some m
    else if 308 < exponent then none
    else m.mul? (powerOfTen exponent.toNat)

/-- A double as messages about JSON show it: positional from `1e-5` up to `1e16`, and with an even
last digit where two are equally near. -/
def show64 (negative : Bool) (m : Binary64) : Text :=
  let d := m.shortest .toEven
  (if negative then ['-'] else []) ++
    if -5 ≤ d.leading ∧ d.leading ≤ 15 then d.positional else d.scientific

/-- The double that the numeral stands for, if there is one. -/
def double (x : Numeral) : Document :=
  match x.magnitude with
  | some m => .float (show64 x.negative m)
  | none => .unreadable

/-- The value of the numeral. -/
def toDocument (x : Numeral) : Document :=
  match x.fraction, x.exponent with
  | none, none =>
    let n := Text.valueIn 10 x.whole
    if x.negative then
      if 0 < n ∧ n ≤ Nat.pow 2 63 then .integer (-n) else x.double
    else if n < Nat.pow 2 64 then .integer n
    else x.double
  | _, _ => x.double

end Numeral

end TypeSignature.Json
