import TypeSignature.FileSystem.Basic

/-!
# FileTree — files and directories held in memory

A file tree is looked up as a file system would be: step by step from its top, where `..` goes back
to the directory around and every step but the last must be made from a directory.
-/

namespace TypeSignature

/-- Files with their content, and directories, by the names that lead to them from the top. -/
structure FileTree where
  /-- The files. -/
  files : List (List Text × ByteArray)
  /-- The directories, apart from those that hold something listed. -/
  directories : List (List Text)

namespace FileTree

/-- What a place in the tree holds. -/
inductive Entry where
  | file (content : ByteArray)
  | directory

/-- The entry at a place.  Whatever leads to a file or a directory is a directory. -/
def entry? (t : FileTree) (place : List Text) : Option Entry :=
  match t.files.lookup place with
  | some content => some (.file content)
  | none =>
    if place.isEmpty || t.directories.any place.isPrefixOf ||
        t.files.any (fun (file, _) => place.isPrefixOf file) then
      some .directory
    else none

/-- The place that the steps of a path lead to from a place that exists. -/
def resolve (t : FileTree) : (place : List Text) → (steps : List Text) →
    Except ReadFault (List Text)
  | place, [] => .ok place
  | place, step :: steps =>
    match t.entry? place with
    | some .directory =>
      if step = [] ∨ step = ['.'] then resolve t place steps
      else if step = ['.', '.'] then resolve t place.dropLast steps
      else
        match t.entry? (place ++ [step]) with
        | some _ => resolve t (place ++ [step]) steps
        | none => .error .notFound
    | some (.file _) => .error .notADirectory
    | none => .error .notFound

/-- Reads the file at a path; every path is taken from the top. -/
def read (t : FileTree) : FileSystem := fun path => do
  let place ← t.resolve [] path.steps
  match t.entry? place with
  | some (.file content) =>
    match String.fromUTF8? content with
    | some text => pure text.toList
    | none => throw .invalidData
  | some .directory => throw .isADirectory
  | none => throw .notFound

/-- The path of the directory that a path leads to, without detours. -/
def canonical? (t : FileTree) (path : Path) : Option Path :=
  match t.resolve [] path.steps with
  | .ok place => some (Text.join ['/'] place)
  | .error _ => none

end FileTree

end TypeSignature
