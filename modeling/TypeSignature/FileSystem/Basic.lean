import TypeSignature.Path

/-!
# FileSystem — reading files by path

To this library a file system is what comes of reading each path: a text, or the reason why there
is none.
-/

namespace TypeSignature

/-- Why a file cannot be read. -/
inductive ReadFault where
  /-- Nothing has this path. -/
  | notFound
  /-- The path is a directory's. -/
  | isADirectory
  /-- A component other than the last is a file. -/
  | notADirectory
  /-- The content is not UTF-8. -/
  | invalidData
  /-- Any other reason, by its name. -/
  | other (name : Text)
  deriving DecidableEq, Repr

/-- The name of a reading fault. -/
def ReadFault.name : ReadFault → Text
  | .notFound => "NotFound".toList
  | .isADirectory => "IsADirectory".toList
  | .notADirectory => "NotADirectory".toList
  | .invalidData => "InvalidData".toList
  | .other name => name

/-- What reading each path gives. -/
abbrev FileSystem := Path → Except ReadFault Text

end TypeSignature
