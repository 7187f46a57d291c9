import TypeSignature.Json.Printer
import TypeSignature.Json.Token

/-!
# Grammar — the JSON texts and the documents they denote

The grammar is that of the JSON standard, told by what a text is made of and not by how it is read.
White space may stand around every value and every key.  A text denotes one document: a number its
value, a string its characters, a sequence its items and a map its members, all in order.
-/

namespace TypeSignature.Json

/-! ## 1. White space -/

/-- White space between words. -/
abbrev Space := { s : Text // ∀ c ∈ s, isSpace c = true }

/-- A part of a text with the white space around it. -/
structure Padded where
  before : Space
  core : Text
  after : Space

namespace Padded

def text (p : Padded) : Text := p.before.val ++ p.core ++ p.after.val

end Padded

/-! ## 2. Strings -/

/-- What stands between the quotes of a string, and the pieces that it writes. -/
inductive Characters : Text → List Piece → Prop
  | nil : Characters [] []
  | plain {c : Char} {s : Text} {ps : List Piece} (hquote : c ≠ '\"') (hescape : c ≠ '\\')
      (hcontrol : ' ' ≤ c) (h : Characters s ps) : Characters (c :: s) (.char c :: ps)
  | escape {c d : Char} {s : Text} {ps : List Piece} (hc : escaped? c = some d)
      (h : Characters s ps) : Characters ('\\' :: c :: s) (.char d :: ps)
  | unit {a b c d : Char} {n : Nat} {s : Text} {ps : List Piece}
      (hn : Text.readIn? 16 [a, b, c, d] = some n) (h : Characters s ps) :
      Characters ('\\' :: 'u' :: a :: b :: c :: d :: s) (unitPiece n :: ps)

/-- The text is a string; it has no value if half of a surrogate pair stands alone in it. -/
def IsString (s : Text) (value : Option Text) : Prop :=
  ∃ body ps, s = '\"' :: (body ++ ['\"']) ∧ Characters body ps ∧ value = joinPieces ps

/-! ## 3. Numbers -/

/-- One digit or more. -/
def IsDigits (s : Text) : Prop := s ≠ [] ∧ ∀ c ∈ s, c.isDigit = true

/-- A fraction, or nothing. -/
inductive IsFraction : Text → Option Text → Prop
  | absent : IsFraction [] none
  | present {digits : Text} (h : IsDigits digits) : IsFraction ('.' :: digits) (some digits)

/-- The sign of an exponent, or nothing, and whether it is negative. -/
inductive IsExponentSign : Text → Bool → Prop
  | absent : IsExponentSign [] false
  | plus : IsExponentSign ['+'] false
  | minus : IsExponentSign ['-'] true

/-- An exponent, or nothing. -/
inductive IsExponent : Text → Option (Bool × Text) → Prop
  | absent : IsExponent [] none
  | present {mark : Char} {sign digits : Text} {negative : Bool} (hmark : mark = 'e' ∨ mark = 'E')
      (hsign : IsExponentSign sign negative) (h : IsDigits digits) :
      IsExponent (mark :: (sign ++ digits)) (some (negative, digits))

/-- The text is a number with these parts; a leading zero is the only digit before the point. -/
structure IsNumeral (s : Text) (x : Numeral) : Prop where
  whole : IsDigits x.whole
  leading : x.whole.head? = some '0' → x.whole = ['0']
  parts : ∃ fraction exponent, IsFraction fraction x.fraction ∧ IsExponent exponent x.exponent ∧
    s = (if x.negative then ['-'] else []) ++ (x.whole ++ (fraction ++ exponent))

/-! ## 4. Values -/

/-- A member of a map as it is written, with what its key and its value stand for. -/
structure Member where
  key : Padded
  value : Padded
  name : Option Text
  document : Document

namespace Member

def text (m : Member) : Text := m.key.text ++ ':' :: m.value.text

end Member

/-- The text is a JSON value, and the document is what it denotes. -/
inductive Denotes : Text → Document → Prop
  | null : Denotes "null".toList .null
  | boolean (b : Bool) : Denotes (printBoolean b) (.boolean b)
  | number {s : Text} {x : Numeral} (h : IsNumeral s x) : Denotes s x.toDocument
  | string {s : Text} {value : Option Text} (h : IsString s value) :
      Denotes s (value.elim .unreadable .string)
  | emptySequence (space : Space) : Denotes ('[' :: (space.val ++ [']'])) (.sequence [] true)
  | sequence {items : List (Padded × Document)} (hne : items ≠ [])
      (hitems : ∀ i ∈ items, Denotes i.1.core i.2) :
      Denotes ('[' :: (Text.join [','] (items.map (·.1.text)) ++ [']']))
        (.sequence (items.map (·.2)) true)
  | emptyMap (space : Space) : Denotes ('\x7b' :: (space.val ++ ['\x7d'])) (.map [] true)
  | map {members : List Member} (hne : members ≠ [])
      (hkeys : ∀ m ∈ members, IsString m.key.core m.name)
      (hvalues : ∀ m ∈ members, Denotes m.value.core m.document) :
      Denotes ('\x7b' :: (Text.join [','] (members.map Member.text) ++ ['\x7d']))
        (.map (members.map fun m => (m.name, m.document)) true)

/-- The text is a JSON text, and the document is what it denotes. -/
def IsJson (s : Text) (d : Document) : Prop := ∃ p : Padded, s = p.text ∧ Denotes p.core d

end TypeSignature.Json
