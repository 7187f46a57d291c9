import TypeSignature.Text.Basic

/-!
# Path — names of files and directories

A path is the text it was written as.  Its components are the root, if the path begins with `/`,
and the names between separators; a `.` counts only where it begins a relative path, and `..` is a
name like any other.  `Path.parent?` cuts the last component and leaves the rest as it was written,
so the ancestors of a path are beginnings of its own text.
-/

namespace TypeSignature

/-- A path, as written. -/
abbrev Path := Text

namespace Path

/-- What stands between the separators of a path. -/
def steps (p : Path) : List Text := p.splitOn '/'

/-- The steps that name something, wherever they stand. -/
def names (p : Path) : List Text := p.steps.filter fun step => step != [] && step != ['.']

/-- The components of a path: the root or a leading `.`, and then the names. -/
def components (p : Path) : List Text :=
  match p.steps with
  | [] => []
  | first :: further =>
    let named := further.filter fun step => step != [] && step != ['.']
    if p.head? = some '/' then ['/'] :: named
    else if first = [] then named
    else first :: named

/-- Cuts from the end of a path, given in reverse, the separators and `.` steps that are no
components. -/
def dropIdle : Text → Text
  | ['/'] => ['/']
  | '/' :: p => dropIdle p
  | '.' :: '/' :: p => dropIdle ('/' :: p)
  | p => p

/-- The path without its last component; the root and the empty path have no parent. -/
def parent? (p : Path) : Option Path :=
  match dropIdle p.reverse with
  | [] => none
  | ['/'] => none
  | q => some (dropIdle (q.dropWhile (· != '/'))).reverse

/-- The path and the paths around it, nearest first, `limit` of them at most. -/
def ancestors : (limit : Nat) → Path → List Path
  | 0, _ => []
  | limit + 1, p =>
    p :: match p.parent? with
      | none => []
      | some parent => ancestors limit parent

/-- The last component, when it is a name of its own. -/
def fileName? (p : Path) : Option Text :=
  match p.components.getLast? with
  | none => none
  | some name => if name ∈ [['/'], ['.'], ['.', '.']] then none else some name

/-- What follows the last dot of the file name, when something precedes that dot. -/
def extension? (p : Path) : Option Text :=
  p.fileName?.bind fun name =>
    match name.reverse.dropWhile (· != '.') with
    | [] => none
    | [_] => none
    | _ => some (name.reverse.takeWhile (· != '.')).reverse

/-- The path of `name` in the directory `p`. -/
def join (p : Path) (name : Text) : Path :=
  if p.isEmpty || p.getLast? = some '/' then p ++ name else p ++ '/' :: name

example : ancestors 9 "/a/./b/.".toList = ["/a/./b/.".toList, "/a".toList, "/".toList] := by decide
example : ancestors 9 "./a//b".toList
    = ["./a//b".toList, "./a".toList, ".".toList, []] := by decide
example : extension? "a..toml/.".toList = some "toml".toList := by decide
example : extension? ".toml".toList = none := by decide

end Path

end TypeSignature
