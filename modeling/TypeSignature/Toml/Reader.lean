import TypeSignature.Toml.Quoted
import TypeSignature.Toml.Scalar
import TypeSignature.Toml.Table

/-!
# Reader — from a TOML text to a document

A TOML text is checked as a whole: it has a document only if every line is well-formed and no table
or key is given twice.  The members of each map are then in ascending order of their keys, whatever
the order of the lines.
-/

namespace TypeSignature.Toml

/-! ## Between values -/

/-- Passes over blanks on a line. -/
def skipBlanks (s : Text) : Text := s.dropWhile fun c => c == ' ' || c == '\t'

/-- Passes over blanks, line breaks and comments, in one of which the text may begin. -/
def skipLines? : (inComment : Bool) → Text → Option Text
  | _, [] => some []
  | _, '\n' :: s => skipLines? false s
  | _, '\r' :: '\n' :: s => skipLines? false s
  | true, c :: s => if isControl c then none else skipLines? true s
  | false, c :: s =>
    if c = ' ' ∨ c = '\t' then skipLines? false s
    else if c = '#' then skipLines? true s
    else some (c :: s)

/-- Passes over the rest of a line on which nothing but a comment may follow. -/
def endLine? : (inComment : Bool) → Text → Option Text
  | _, [] => some []
  | _, '\n' :: s => some s
  | _, '\r' :: '\n' :: s => some s
  | true, c :: s => if isControl c then none else endLine? true s
  | false, c :: s =>
    if c = ' ' ∨ c = '\t' then endLine? false s
    else if c = '#' then endLine? true s
    else none

/-! ## Keys -/

/-- Whether a character may be part of a key without quotes. -/
def isKeyChar (c : Char) : Bool := c.isAlphanum || c == '_' || c == '-'

/-- Reads a key without dots. -/
def simpleKey? (s : Text) : Option (Text × Text) :=
  match s.takeWhile isKeyChar with
  | [] => quotedKey? s
  | key => some (key, s.dropWhile isKeyChar)

/-- Reads the keys that dots join; `fuel` bounds their number. -/
def keyWithin? : (fuel : Nat) → Text → Option (List Text × Text)
  | 0, _ => none
  | fuel + 1, s => do
    let (key, s) ← simpleKey? (skipBlanks s)
    match skipBlanks s with
    | '.' :: s =>
      let (keys, s) ← keyWithin? fuel s
      some (key :: keys, s)
    | s => some ([key], s)

/-- How many sequences and tables may be open at once, and how many keys dots may join. -/
def maxNesting : Nat := 80

/-- Reads a key, and the blanks around it. -/
def key? (s : Text) : Option (List Text × Text) := do
  let (keys, s) ← keyWithin? s.length s
  if keys.length ≤ maxNesting then some (keys, s) else none

/-! ## Values -/

mutual

/-- Reads a value inside `depth` others; `fuel` bounds the number of values and parts of values. -/
def valueWithin? : (fuel depth : Nat) → Text → Option (Document × Text)
  | 0, _, _ => none
  | _ + 1, _, [] => none
  | fuel + 1, depth, c :: s =>
    if c = '\"' ∨ c = '\'' then (string? (c :: s)).map fun (text, s) => (.string text, s)
    else if c = '[' then if depth < maxNesting then items? fuel (depth + 1) [] s else none
    else if c = '\x7b' then if depth < maxNesting then members? fuel (depth + 1) [] s else none
    else scalar? (c :: s)

/-- Reads the items of a sequence behind those that are `done`, which are in reverse. -/
def items? : (fuel depth : Nat) → (done : List Document) → Text → Option (Document × Text)
  | 0, _, _, _ => none
  | fuel + 1, depth, done, s => do
    match ← skipLines? false s with
    | ']' :: s => some (.sequence done.reverse true, s)
    | s =>
      let (value, s) ← valueWithin? fuel depth s
      match ← skipLines? false s with
      | ',' :: s => items? fuel depth (value :: done) s
      | ']' :: s => some (.sequence (value :: done).reverse true, s)
      | _ => none

/-- Reads the members of an inline table behind those that are `done`.  Lines may end anywhere but
inside of a key. -/
def members? : (fuel depth : Nat) → (done : Members) → Text → Option (Document × Text)
  | 0, _, _, _ => none
  | fuel + 1, depth, done, s => do
    match ← skipLines? false s with
    | '\x7d' :: s => some ((Item.table .header done).toDocument, s)
    | s =>
      let (path, s) ← key? s
      match ← skipLines? false s with
      | '=' :: s =>
        let (value, s) ← valueWithin? fuel depth (← skipLines? false s)
        let done ← done.assign value path
        match ← skipLines? false s with
        | ',' :: s => members? fuel depth done s
        | '\x7d' :: s => some ((Item.table .header done).toDocument, s)
        | _ => none
      | _ => none

end

/-- Reads a value; it has fewer parts than twice its characters. -/
def value? (s : Text) : Option (Document × Text) := valueWithin? (2 * s.length + 2) 0 s

/-! ## Lines -/

/-- What a line says. -/
inductive Line where
  /-- The lines that follow belong to a table, or with `element` to one more of a sequence. -/
  | header (element : Bool) (path : List Text)
  /-- A key has a value. -/
  | assign (path : List Text) (value : Document)
  deriving Repr

/-- Reads a line that is neither blank nor a mere comment. -/
def line? : Text → Option (Line × Text)
  | '[' :: '[' :: s => do
    let (path, s) ← key? s
    match s with
    | ']' :: ']' :: s => some (.header true path, s)
    | _ => none
  | '[' :: s => do
    let (path, s) ← key? s
    match s with
    | ']' :: s => some (.header false path, s)
    | _ => none
  | s => do
    let (path, s) ← key? s
    match s with
    | '=' :: s =>
      let (value, s) ← value? (skipBlanks s)
      some (.assign path value, s)
    | _ => none

/-- Reads all lines; `fuel` bounds their number. -/
def linesWithin? : (fuel : Nat) → Text → Option (List Line)
  | 0, _ => none
  | fuel + 1, s => do
    match ← skipLines? false s with
    | [] => some []
    | s =>
      let (line, s) ← line? s
      let s ← endLine? false s
      let lines ← linesWithin? fuel s
      some (line :: lines)

/-- The lines of a text, which may begin with a byte order mark. -/
def lines? (s : Text) : Option (List Line) :=
  let s := match s with
    | '\ufeff' :: s => s
    | s => s
  linesWithin? (s.length + 1) s

/-- Adds what lines say to a document; `current` is the header they stand under. -/
def build? : (current : List Text) → Members → List Line → Option Members
  | _, document, [] => some document
  | _, document, .header element path :: lines => do
    build? path (← document.openTable element path) lines
  | current, document, .assign path value :: lines => do
    build? current (← document.modifyAt (·.assign value path) current) lines

/-- The document that a text holds, if the text is well-formed. -/
def read? (s : Text) : Option Document := do
  let members ← build? [] [] (← lines? s)
  some (Item.table .header members).toDocument

end TypeSignature.Toml
