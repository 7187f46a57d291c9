import TypeSignature.Text.Blank

/-!
# Trim — cutting what surrounds a text

`trimWhere` removes the longest run at either end whose characters all satisfy a test; spaces and
white space are two instances.  `stripSurrounding` removes one exact text at each end, or nothing.
-/

namespace TypeSignature.Text

/-- The text without its longest tail of characters that satisfy `p`. -/
def dropEndWhile (p : Char → Bool) (s : Text) : Text := (s.reverse.dropWhile p).reverse

@[simp] theorem dropEndWhile_nil (p : Char → Bool) : dropEndWhile p [] = [] := rfl

/-- The text without its longest head and tail of characters that satisfy `p`. -/
def trimWhere (p : Char → Bool) (s : Text) : Text := dropEndWhile p (s.dropWhile p)

@[simp] theorem trimWhere_nil (p : Char → Bool) : trimWhere p [] = [] := rfl

/-- The text without the occurrences of `c` at its ends. -/
def trimChar (c : Char) (s : Text) : Text := trimWhere (· == c) s

/-- The text without the spaces U+0020 at its ends. -/
def trimSpaces (s : Text) : Text := trimChar ' ' s

/-- The text without the white space at its ends. -/
def trimBlanks (s : Text) : Text := trimWhere isBlank s

/-- What stands between `start` and `stop`, when the text begins with the one and, after it, ends
with the other; the two may not overlap. -/
def stripSurrounding (s start stop : Text) : Option Text :=
  (s.afterLead? start).bind fun rest => rest.beforeTail? stop

example : stripSurrounding "const int *".toList "const ".toList " *".toList
    = some "int".toList := by decide

/-- The space is shared by both ends, so neither may claim it. -/
example : stripSurrounding "const *".toList "const ".toList " *".toList = none := by decide

end TypeSignature.Text
