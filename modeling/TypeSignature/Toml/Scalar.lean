import TypeSignature.Decimal.Shortest
import TypeSignature.Document
import TypeSignature.Text.Digits

/-!
# Scalar — TOML values without quotes and brackets

A bare word is a truth value, an integer, a float, or a date or time.  Underscores may stand
between digits.  Integers have 64 bits in one of the two usual ranges, or else at most 128; a word
beyond that, or a float beyond the doubles, is well-formed but has no value.  The same holds of a
base without digits, and of a decimal integer with other characters behind its first underscore.  A
date or time is taken for a map with a single reserved key.
-/

namespace TypeSignature.Toml

/-! ## Digits -/

/-- The text without its underscores, each of which must stand between two digits. -/
def withoutUnderscores? (isDigit : Char → Bool) (s : Text) : Option Text :=
  let groups := s.splitOn '_'
  if (groups.dropLast.all fun group => group.getLast?.any isDigit) &&
      (groups.tail.all fun group => group.head?.any isDigit) then
    some groups.flatten
  else none

/-- Whether a character may be part of a run of digits. -/
def isRunChar (c : Char) : Bool := c.isDigit || c == '_'

/-- Reads a run of decimal digits and underscores; there must be a digit.  Gives the digits. -/
def digitRun? (s : Text) : Option (Text × Text) :=
  match (s.takeWhile isRunChar).filter Char.isDigit with
  | [] => none
  | digits => some (digits, s.dropWhile isRunChar)

/-- Whether a sign is a minus, and what follows it. -/
def takeSign : Text → Bool × Text
  | '-' :: s => (true, s)
  | '+' :: s => (false, s)
  | s => (false, s)

/-! ## Integers -/

/-- An integer as a document. -/
def integerDocument (n : Int) : Document :=
  if -Nat.pow 2 127 ≤ n ∧ n < Nat.pow 2 128 then .integer n else .unreadable

/-- The digits of an integer in a base that was named. -/
def basedInteger? (base : Nat) (s : Text) : Option Document :=
  if s.isEmpty then some .unreadable
  else
    let groups := s.splitOn '_'
    if groups.all fun group => !group.isEmpty && group.all (Text.isDigitIn base) then
      some (integerDocument (Text.valueIn base groups.flatten))
    else none

/-- Whether a word has the mark of a fraction or of an exponent. -/
def looksFractional (s : Text) : Bool := s.any fun c => c == '.' || c == 'e' || c == 'E'

/-- A decimal integer, which may have a sign.  Only zero begins with a zero.  The first character
that is no digit must be an underscore. -/
def decimalInteger? (s : Text) : Option Document :=
  let unsigned := (takeSign s).2
  let behind := unsigned.dropWhile Char.isDigit
  if unsigned.isEmpty || (unsigned.head? == some '0' && unsigned.length != 1) ||
      !(behind.isEmpty || behind.head? == some '_') || looksFractional behind then none
  else
    (withoutUnderscores? (Text.isDigitIn 16) s).map fun plain =>
      let (negative, digits) := takeSign plain
      match Text.readIn? 10 digits with
      | some n => integerDocument (if negative then -n else n)
      | none => .unreadable

/-- An integer in one of four bases; only a decimal one has a sign. -/
def integer? : Text → Option Document
  | '0' :: 'x' :: s => basedInteger? 16 s
  | '0' :: 'o' :: s => basedInteger? 8 s
  | '0' :: 'b' :: s => basedInteger? 2 s
  | s => decimalInteger? s

/-! ## Floats -/

/-- Reads the fraction of a float, which need not have one. -/
def fraction? : Text → Option (Text × Text)
  | '.' :: s => digitRun? s
  | s => some ([], s)

/-- The exponent of a float, which need not have one. -/
def exponent? : Text → Option Int
  | [] => some 0
  | c :: s =>
    if c = 'e' ∨ c = 'E' then
      let (negative, s) := takeSign s
      match digitRun? s with
      | some (digits, []) =>
        let n : Int := Text.valueIn 10 digits
        some (if negative then -n else n)
      | _ => none
    else none

/-- The digits of a float without its sign, and the power of ten that scales them.  Only a lone
zero may begin with a zero. -/
def decimal? (s : Text) : Option Decimal := do
  let (whole, behind) ← digitRun? s
  if s.head? = some '0' ∧ whole.length ≠ 1 then none
  else
    let (fraction, behind) ← fraction? behind
    let exponent ← exponent? behind
    pure ⟨Text.valueIn 10 (whole ++ fraction), exponent - fraction.length⟩

/-- The double nearest to a decimal number, or `none` above all doubles.  Numbers far outside the
range of doubles are not computed. -/
def nearestDouble? (d : Decimal) : Option Binary64 :=
  if d.digits = 0 ∨ d.leading < -400 then some .zero
  else if 400 < d.leading then none
  else Binary64.nearest? (d.digits * Nat.pow 10 d.exponent.toNat)
    (Nat.pow 10 (-d.exponent).toNat)

/-- A float as a document.  Messages show it positionally, and with the greater last digit where two
are equally near. -/
def float? (s : Text) : Option Document :=
  let (negative, unsigned) := takeSign s
  let signed (shown : Text) : Text := if negative then '-' :: shown else shown
  if unsigned = "inf".toList then some (.float (signed unsigned))
  else if unsigned = "nan".toList then some (.float "NaN".toList)
  else do
    let d ← decimal? unsigned
    let _ ← withoutUnderscores? Char.isDigit s
    match nearestDouble? d with
    | some x => some (.float (signed (x.shortest .up).positional))
    | none => some .unreadable

/-! ## Dates and times -/

/-- The number that two digits write, up to `limit`. -/
def twoDigits? (limit : Nat) (a b : Char) : Option Nat :=
  (Text.readIn? 10 [a, b]).filter (· ≤ limit)

/-- The number of days in a month. -/
def daysIn (year month : Nat) : Nat :=
  if month = 2 then
    if year % 4 = 0 ∧ (year % 100 ≠ 0 ∨ year % 400 = 0) then 29 else 28
  else if month ∈ [4, 6, 9, 11] then 30
  else 31

/-- Reads a date. -/
def date? : Text → Option (Text × Text)
  | y₁ :: y₂ :: y₃ :: y₄ :: '-' :: m₁ :: m₂ :: '-' :: d₁ :: d₂ :: s => do
    let year ← Text.readIn? 10 [y₁, y₂, y₃, y₄]
    let month ← twoDigits? 12 m₁ m₂
    let day ← twoDigits? (daysIn year month) d₁ d₂
    if month = 0 ∨ day = 0 then none
    else some ([y₁, y₂, y₃, y₄, '-', m₁, m₂, '-', d₁, d₂], s)
  | _ => none

/-- Reads the fraction of a second, to the nanosecond; trailing zeros are dropped. -/
def secondFraction? : Text → Option (Text × Text)
  | '.' :: s =>
    match s.takeWhile Char.isDigit with
    | [] => none
    | digits =>
      let kept := ((digits.take 9).reverse.dropWhile (· == '0')).reverse
      some (if kept.isEmpty then [] else '.' :: kept, s.dropWhile Char.isDigit)
  | s => some ([], s)

/-- Reads the seconds of a time, if it has them. -/
def seconds? : Text → Option (Text × Text)
  | ':' :: a :: b :: s => do
    let _ ← twoDigits? 60 a b
    let (fraction, s) ← secondFraction? s
    some (':' :: a :: b :: fraction, s)
  | s => some (":00".toList, s)

/-- Reads a time of day. -/
def time? : Text → Option (Text × Text)
  | a :: b :: ':' :: c :: d :: s => do
    let _ ← twoDigits? 23 a b
    let _ ← twoDigits? 59 c d
    let (seconds, s) ← seconds? s
    some (a :: b :: ':' :: c :: d :: seconds, s)
  | _ => none

/-- Reads the distance to universal time, if there is one; no distance is a positive one. -/
def offset? : Text → Option Text
  | [] => some []
  | [c] => if c = 'Z' ∨ c = 'z' then some ['Z'] else none
  | [sign, a, b, ':', c, d] => do
    let hours ← twoDigits? 23 a b
    let minutes ← twoDigits? 59 c d
    let sign ←
      if sign = '+' ∨ (sign = '-' ∧ hours = 0 ∧ minutes = 0) then some '+'
      else if sign = '-' then some '-'
      else none
    some [sign, a, b, ':', c, d]
  | _ => none

/-- A date, a time, or both with or without an offset, in the usual form. -/
def moment? (s : Text) : Option Text :=
  match date? s with
  | none =>
    match time? s with
    | some (time, []) => some time
    | _ => none
  | some (date, []) => some date
  | some (date, mark :: s) =>
    if mark = 'T' ∨ mark = 't' ∨ mark = ' ' then do
      let (time, s) ← time? s
      let offset ← offset? s
      some (date ++ 'T' :: time ++ offset)
    else none

/-- The one key of the map that a date or time is taken for. -/
def momentKey : Text := "$__toml_private_datetime".toList

/-! ## Words -/

/-- The value of a bare word. -/
def word? (s : Text) : Option Document :=
  if s = "true".toList then some (.boolean true)
  else if s = "false".toList then some (.boolean false)
  else
    match integer? s with
    | some value => some value
    | none =>
      match float? s with
      | some value => some value
      | none => (moment? s).map fun moment => .map [(some momentKey, .string moment)] true

/-- Whether a character may be part of a bare word. -/
def isWordChar (c : Char) : Bool := !" \t\r\n#,=[]\x7b\x7d".toList.contains c

/-- Reads a bare word; a single space may part a date from its time. -/
def scalar? (s : Text) : Option (Document × Text) :=
  let first := s.takeWhile isWordChar
  let rest := s.dropWhile isWordChar
  let (word, rest) :=
    match date? first, rest with
    | some (_, []), ' ' :: c :: t =>
      if c.isDigit then (first ++ ' ' :: (c :: t).takeWhile isWordChar, (c :: t).dropWhile isWordChar)
      else (first, rest)
    | _, _ => (first, rest)
  (word? word).map fun value => (value, rest)

end TypeSignature.Toml
