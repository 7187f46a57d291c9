import TypeSignature.Text.Basic

/-!
# Printer — JSON with one item on a line

Sequences and maps are written with each item on a line of its own, two spaces further in than the
line that opens them; empty ones stay on their line.  In a string, quotes, backslashes and the
controls below U+0020 are escaped, and every other character stands for itself.
-/

namespace TypeSignature.Json

/-- A character of a string. -/
def escape (c : Char) : Text :=
  match c with
  | '\"' => ['\\', '\"']
  | '\\' => ['\\', '\\']
  | '\x08' => ['\\', 'b']
  | '\x0c' => ['\\', 'f']
  | '\n' => ['\\', 'n']
  | '\r' => ['\\', 'r']
  | '\t' => ['\\', 't']
  | c =>
    if c < ' ' then
      ['\\', 'u', '0', '0', Nat.digitChar (c.toNat / 16), Nat.digitChar (c.toNat % 16)]
    else [c]

/-- A string. -/
def printString (s : Text) : Text := '\"' :: s.flatMap escape ++ ['\"']

/-- The line break before an item that is `level` levels deep. -/
def lineBreak (level : Nat) : Text := '\n' :: List.replicate (2 * level) ' '

/-- Items between an opening and a closing character, when the line that opens them is `level`
levels deep. -/
def printBlock (opening closing : Char) (level : Nat) (items : List Text) : Text :=
  if items.isEmpty then [opening, closing]
  else
    opening :: lineBreak (level + 1) ++ Text.join (',' :: lineBreak (level + 1)) items ++
      lineBreak level ++ [closing]

/-- A sequence. -/
def printSequence (level : Nat) (items : List Text) : Text := printBlock '[' ']' level items

/-- A member of a map. -/
def printMember (key value : Text) : Text := printString key ++ ':' :: ' ' :: value

/-- A map, from its members. -/
def printMap (level : Nat) (members : List Text) : Text := printBlock '\x7b' '\x7d' level members

/-- A truth value. -/
def printBoolean (b : Bool) : Text := if b then "true".toList else "false".toList

end TypeSignature.Json
