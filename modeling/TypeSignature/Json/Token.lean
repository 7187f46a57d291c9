import TypeSignature.Json.Number

/-!
# Token — the words of a JSON text

A JSON text is cut into punctuation, strings and other scalars; white space between them is
dropped.  What is none of these is `unknown`, and nothing behind it is looked at, for a text with
such a word is at fault there.

In a string, `\uXXXX` writes one UTF-16 unit, and a character above U+FFFF takes two.  A unit of a
pair that stands alone is well-formed, but the string then has no value.
-/

namespace TypeSignature.Json

/-- A word of a JSON text. -/
inductive Token where
  | openSequence
  | closeSequence
  | openMap
  | closeMap
  | colon
  | comma
  /-- A string, if it has a value. -/
  | string (value : Option Text)
  /-- A number, a truth value or null. -/
  | scalar (value : Document)
  /-- Anything that is not JSON. -/
  | unknown
  deriving Repr, Inhabited

/-- White space between words. -/
def isSpace (c : Char) : Bool := c == ' ' || c == '\n' || c == '\t' || c == '\r'

/-! ## Strings -/

/-- What a string is written with: characters, and halves of surrogate pairs. -/
inductive Piece where
  | char (c : Char)
  | half (unit : Nat)
  deriving DecidableEq, Repr

/-- Whether a UTF-16 unit is half of a pair. -/
def isHalf (unit : Nat) : Bool := 0xD800 ≤ unit && unit < 0xE000

/-- What a UTF-16 unit contributes to a string. -/
def unitPiece (unit : Nat) : Piece := if isHalf unit then .half unit else .char (Char.ofNat unit)

/-- The character that a letter behind a backslash stands for. -/
def escaped? : Char → Option Char
  | '\"' => some '\"'
  | '\\' => some '\\'
  | '/' => some '/'
  | 'b' => some '\x08'
  | 'f' => some '\x0c'
  | 'n' => some '\n'
  | 'r' => some '\r'
  | 't' => some '\t'
  | _ => none

/-- Reads a string behind its opening quote; `none` if it is not well-formed. -/
def pieces? : Text → Option (List Piece × Text)
  | [] => none
  | '\"' :: s => some ([], s)
  | '\\' :: 'u' :: a :: b :: c :: d :: s =>
    match Text.readIn? 16 [a, b, c, d] with
    | none => none
    | some unit => (pieces? s).map fun (ps, s) => (unitPiece unit :: ps, s)
  | '\\' :: c :: s =>
    match escaped? c with
    | none => none
    | some c => (pieces? s).map fun (ps, s) => (.char c :: ps, s)
  | c :: s => if c < ' ' then none else (pieces? s).map fun (ps, s) => (.char c :: ps, s)

/-- The character that two halves make, the high one first. -/
def joinHalves? (high low : Nat) : Option Char :=
  if high < 0xDC00 ∧ 0xDC00 ≤ low then
    some (Char.ofNat (0x10000 + (high - 0xD800) * 0x400 + (low - 0xDC00)))
  else none

/-- The text that pieces write, if every half finds its other half next to it. -/
def joinPieces : List Piece → Option Text
  | [] => some []
  | .char c :: ps => (joinPieces ps).map (c :: ·)
  | .half high :: .half low :: ps =>
    match joinHalves? high low with
    | some c => (joinPieces ps).map (c :: ·)
    | none => none
  | .half _ :: _ => none

/-- A string takes at least its closing quote. -/
theorem length_of_pieces? {s rest : Text} {ps : List Piece} (h : pieces? s = some (ps, rest)) :
    rest.length < s.length := by
  fun_induction pieces? s generalizing ps rest with
  | case1 => simp at h
  | case2 s => simp_all
  | case3 => simp at h
  | case4 a b c d s unit _ ih =>
    obtain ⟨⟨qs, t⟩, ht, heq⟩ := Option.map_eq_some_iff.1 h
    cases heq
    have := ih ht
    simp only [List.length_cons]; omega
  | case5 => simp at h
  | case6 c s _ c' _ ih =>
    obtain ⟨⟨qs, t⟩, ht, heq⟩ := Option.map_eq_some_iff.1 h
    cases heq
    have := ih ht
    simp only [List.length_cons]; omega
  | case7 => simp at h
  | case8 c s _ _ _ _ ih =>
    obtain ⟨⟨qs, t⟩, ht, heq⟩ := Option.map_eq_some_iff.1 h
    cases heq
    have := ih ht
    simp only [List.length_cons]; omega

/-! ## Words -/

/-- Reads one name and gives the scalar that it stands for. -/
def named? (name : Text) (value : Document) (s : Text) : Option (Document × Text) :=
  (s.afterLead? name).map (value, ·)

/-- Reads a name that stands for a scalar. -/
def name? (s : Text) : Option (Document × Text) :=
  (named? "true".toList (.boolean true) s).or <|
  (named? "false".toList (.boolean false) s).or <|
  named? "null".toList .null s

/-- Reads a number or a name. -/
def scalar? (s : Text) : Option (Document × Text) :=
  match Numeral.read? s with
  | some (x, s) => some (x.toDocument, s)
  | none => name? s

/-- The word that begins with `c`, and the text behind it; behind an unknown word nothing is
left. -/
def word (c : Char) (s : Text) : Token × Text :=
  match c with
  | '[' => (.openSequence, s)
  | ']' => (.closeSequence, s)
  | '\x7b' => (.openMap, s)
  | '\x7d' => (.closeMap, s)
  | ':' => (.colon, s)
  | ',' => (.comma, s)
  | '\"' =>
    match pieces? s with
    | some (ps, s) => (.string (joinPieces ps), s)
    | none => (.unknown, [])
  | c =>
    match scalar? (c :: s) with
    | some (value, s) => (.scalar value, s)
    | none => (.unknown, [])

theorem length_of_named? {name s rest : Text} {value found : Document} (hname : name ≠ [])
    (h : named? name value s = some (found, rest)) : rest.length < s.length := by
  obtain ⟨t, ht, heq⟩ := Option.map_eq_some_iff.1 h
  cases heq
  rw [Text.afterLead?_eq_some_iff.1 ht, List.length_append]
  have := List.length_pos_iff.2 hname
  omega

theorem length_of_name? {s rest : Text} {value : Document} (h : name? s = some (value, rest)) :
    rest.length < s.length := by
  simp only [name?, Option.or_eq_some_iff] at h
  rcases h with h | ⟨-, h | ⟨-, h⟩⟩ <;> exact length_of_named? (by decide) h

theorem length_of_scalar? {s rest : Text} {value : Document} (h : scalar? s = some (value, rest)) :
    rest.length < s.length := by
  unfold scalar? at h
  split at h
  · rename_i hs; cases h; exact Numeral.length_of_read? hs
  · exact length_of_name? h

/-- A word takes at least its first character. -/
theorem length_word_le (c : Char) (s : Text) : (word c s).2.length ≤ s.length := by
  unfold word
  split <;> try exact Nat.le_refl _
  · split
    · rename_i h; exact Nat.le_of_lt (length_of_pieces? h)
    · exact Nat.zero_le _
  · split
    · rename_i h
      have := length_of_scalar? h
      simp only [List.length_cons] at this ⊢
      omega
    · exact Nat.zero_le _

theorem length_dropWhile_le (p : Char → Bool) (s : Text) : (s.dropWhile p).length ≤ s.length :=
  (List.dropWhile_sublist p).length_le

/-- The words of a text. -/
def words (s : Text) : List Token :=
  match _h : s.dropWhile isSpace with
  | [] => []
  | c :: rest => (word c rest).1 :: words (word c rest).2
termination_by s.length
decreasing_by
  have h₁ := length_dropWhile_le isSpace s
  have h₂ := length_word_le c rest
  rw [_h] at h₁
  simp only [List.length_cons] at h₁
  omega

end TypeSignature.Json
