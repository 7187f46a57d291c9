import TypeSignature.Text.Digits

/-!
# Quoted — the four kinds of TOML string

A string stands between single or double quotes, one for a string on one line and three for a
string of several lines.  Only between double quotes does a backslash mean something.  Controls
other than the tab, and the line breaks of a string of several lines, must be escaped.
-/

namespace TypeSignature.Toml

/-- Whether a character may not stand in a text for itself. -/
def isControl (c : Char) : Bool := (c < ' ' && c != '\t') || c == '\x7f'

/-- The character with a given code, if there is one. -/
def charOf? (digits : Text) : Option Char :=
  (Text.readIn? 16 digits).bind fun n =>
    if n < 0xD800 ∨ (0xE000 ≤ n ∧ n < 0x110000) then some (Char.ofNat n) else none

/-- The character that a letter behind a backslash stands for. -/
def escaped? : Char → Option Char
  | '\"' => some '\"'
  | '\\' => some '\\'
  | 'b' => some '\x08'
  | 'e' => some '\x1b'
  | 'f' => some '\x0c'
  | 'n' => some '\n'
  | 'r' => some '\r'
  | 't' => some '\t'
  | _ => none

/-- Puts a character in front of what a string reader gives. -/
def consChar (c : Option Char) (rest : Option (Text × Text)) : Option (Text × Text) :=
  c.bind fun c => rest.map fun (text, s) => (c :: text, s)

/-- Reads a string between double quotes, behind the first. -/
def basic? : Text → Option (Text × Text)
  | [] => none
  | '\"' :: s => some ([], s)
  | '\\' :: 'x' :: a :: b :: s => consChar (charOf? [a, b]) (basic? s)
  | '\\' :: 'u' :: a :: b :: c :: d :: s => consChar (charOf? [a, b, c, d]) (basic? s)
  | '\\' :: 'U' :: a :: b :: c :: d :: e :: f :: g :: h :: s =>
    consChar (charOf? [a, b, c, d, e, f, g, h]) (basic? s)
  | '\\' :: c :: s => consChar (escaped? c) (basic? s)
  | c :: s => if isControl c then none else consChar (some c) (basic? s)

/-- Reads a string between single quotes, behind the first. -/
def literal? : Text → Option (Text × Text)
  | [] => none
  | '\'' :: s => some ([], s)
  | c :: s => if isControl c then none else consChar (some c) (literal? s)

/-- Whether a line ends here, apart from blanks. -/
def lineEnds (s : Text) : Bool :=
  match s.dropWhile fun c => c == ' ' || c == '\t' with
  | '\n' :: _ => true
  | '\r' :: '\n' :: _ => true
  | _ => false

/-- Reads a string between triple double quotes, behind the first three.  While `skipping`, which a
backslash at the end of a line begins, blanks and line breaks are passed over.  Up to two quotes may
stand before the closing three. -/
def basicLines? : (skipping : Bool) → Text → Option (Text × Text)
  | _, [] => none
  | _, '\"' :: '\"' :: '\"' :: '\"' :: '\"' :: s => some (['\"', '\"'], s)
  | _, '\"' :: '\"' :: '\"' :: '\"' :: s => some (['\"'], s)
  | _, '\"' :: '\"' :: '\"' :: s => some ([], s)
  | _, '\\' :: 'x' :: a :: b :: s => consChar (charOf? [a, b]) (basicLines? false s)
  | _, '\\' :: 'u' :: a :: b :: c :: d :: s =>
    consChar (charOf? [a, b, c, d]) (basicLines? false s)
  | _, '\\' :: 'U' :: a :: b :: c :: d :: e :: f :: g :: h :: s =>
    consChar (charOf? [a, b, c, d, e, f, g, h]) (basicLines? false s)
  | _, '\\' :: c :: s =>
    if lineEnds (c :: s) then basicLines? true (c :: s)
    else consChar (escaped? c) (basicLines? false s)
  | skipping, '\r' :: '\n' :: s =>
    if skipping then basicLines? true s
    else consChar (some '\r') (consChar (some '\n') (basicLines? false s))
  | skipping, c :: s =>
    if skipping && (c == ' ' || c == '\t' || c == '\n') then basicLines? true s
    else if isControl c && c != '\n' then none
    else consChar (some c) (basicLines? false s)

/-- Reads a string between triple single quotes, behind the first three. -/
def literalLines? : Text → Option (Text × Text)
  | [] => none
  | '\'' :: '\'' :: '\'' :: '\'' :: '\'' :: s => some (['\'', '\''], s)
  | '\'' :: '\'' :: '\'' :: '\'' :: s => some (['\''], s)
  | '\'' :: '\'' :: '\'' :: s => some ([], s)
  | '\r' :: '\n' :: s => consChar (some '\r') (consChar (some '\n') (literalLines? s))
  | c :: s =>
    if isControl c && c != '\n' then none else consChar (some c) (literalLines? s)

/-- A line break directly behind the opening quotes does not count. -/
def dropLineBreak : Text → Text
  | '\n' :: s => s
  | '\r' :: '\n' :: s => s
  | s => s

/-- Reads a string on one line, if a quote begins one. -/
def quotedKey? : Text → Option (Text × Text)
  | '\"' :: s => basic? s
  | '\'' :: s => literal? s
  | _ => none

/-- Reads a string of any kind, if a quote begins one. -/
def string? : Text → Option (Text × Text)
  | '\"' :: '\"' :: '\"' :: s => basicLines? false (dropLineBreak s)
  | '\'' :: '\'' :: '\'' :: s => literalLines? (dropLineBreak s)
  | s => quotedKey? s

end TypeSignature.Toml
