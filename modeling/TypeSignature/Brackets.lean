import TypeSignature.Text.Trim

/-!
# Brackets — the three characters that give a signature its structure

A signature nests by an opening and a closing character, and a separator divides what stands at one
level.  The three may coincide; a character is then taken for the first role it can have.
`Brackets.split` cuts a text at the separators outside of all brackets.
-/

namespace TypeSignature

/-- The structural characters of a signature. -/
structure Brackets where
  /-- Begins a group of arguments. -/
  opening : Char
  /-- Ends the group begun last. -/
  closing : Char
  /-- Stands between the members of a group. -/
  separator : Char
  deriving DecidableEq, Repr

/-- What a character does in a signature. -/
inductive Role where
  | opening
  | separator
  | closing
  | text
  deriving DecidableEq, Repr

namespace Brackets

/-- Angle brackets and commas, as around generic arguments. -/
def angle : Brackets := ⟨'<', '>', ','⟩

instance : Inhabited Brackets := ⟨angle⟩

/-- The role of a character; opening goes before separator, and separator before closing. -/
def role (b : Brackets) (c : Char) : Role :=
  if c = b.opening then .opening
  else if c = b.separator then .separator
  else if c = b.closing then .closing
  else .text

/-- A character with no structural role differs from all three. -/
theorem role_eq_text_iff {b : Brackets} {c : Char} :
    b.role c = .text ↔ c ≠ b.opening ∧ c ≠ b.separator ∧ c ≠ b.closing := by
  unfold role
  split <;> simp_all
  split <;> simp_all

/-- The count of open brackets after `c`; a closing character without a partner is ignored. -/
def depthAfter (b : Brackets) (depth : Nat) (c : Char) : Nat :=
  if c = b.opening then depth + 1 else if c = b.closing then depth - 1 else depth

/-- Puts a character in front of the first piece. -/
def consFirst (c : Char) : List Text → List Text
  | [] => [[c]]
  | piece :: pieces => (c :: piece) :: pieces

/-- The pieces of a text, as they stand, when `depth` brackets are open at its beginning. -/
def piecesFrom (b : Brackets) : (depth : Nat) → Text → List Text
  | _, [] => [[]]
  | depth, c :: s =>
    let depth := b.depthAfter depth c
    if c = b.separator ∧ depth = 0 then [] :: b.piecesFrom depth s
    else consFirst c (b.piecesFrom depth s)

/-- There is always a first piece, if only the empty one. -/
theorem piecesFrom_ne_nil (b : Brackets) (depth : Nat) (s : Text) : b.piecesFrom depth s ≠ [] := by
  cases s with
  | nil => simp [piecesFrom]
  | cons c s =>
    simp only [piecesFrom]
    split
    · simp
    · cases b.piecesFrom (b.depthAfter depth c) s <;> simp [consFirst]

/-- The pieces between the separators outside of all brackets, without spaces around them. -/
def split (b : Brackets) (s : Text) : List Text := (b.piecesFrom 0 s).map Text.trimSpaces

example : angle.split "std::map<int, char>, A<B<C, D>>,E".toList
    = ["std::map<int, char>".toList, "A<B<C, D>>".toList, "E".toList] := by decide

/-- The empty text has one piece. -/
theorem split_nil (b : Brackets) : b.split [] = [[]] := rfl

end Brackets

end TypeSignature
