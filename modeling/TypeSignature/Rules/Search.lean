import TypeSignature.Rules.Json
import TypeSignature.Rules.Toml

/-!
# Search — the rule set that holds for a directory

A rule set is looked for in a directory and the directories around it, nearest first.  The first
file that can be found decides, even if it cannot be read or holds no rule set; where there is none
the default rules hold.
-/

namespace TypeSignature

/-- The notation of a document. -/
inductive Notation where
  | json
  | toml
  deriving DecidableEq, Repr

namespace Notation

/-- The notation that a file's name tells: TOML by its extension, and JSON otherwise. -/
def ofPath (p : Path) : Notation := if p.extension? = some "toml".toList then .toml else .json

end Notation

namespace RuleSet

/-- The rule set in a text of the given notation. -/
def ofText : Notation → Text → Except Error RuleSet
  | .json => ofJson
  | .toml => ofToml

/-- Adds to an error about a document where the document was read. -/
def locate (p : Path) : Error → Error
  | .configuration message _ => .configuration (message ++ " (".toList ++ p ++ ")".toList) (some p)
  | e => e

/-- The rule set in a file. -/
def ofFile (files : FileSystem) (p : Path) : Except Error RuleSet :=
  match files p with
  | .error fault => .error (.unreadable fault)
  | .ok text => (ofText (.ofPath p) text).mapError (locate p)

/-- The rule set in a file, if there is such a file. -/
def ofFile? (files : FileSystem) (p : Path) : Except Error (Option RuleSet) :=
  match ofFile files p with
  | .ok rules => .ok (some rules)
  | .error (.unreadable .notFound) => .ok none
  | .error e => .error e

/-- The names of rule set files; within a directory the first goes before the second. -/
def fileNames : List Text := [".sigtidy.json".toList, ".sigtidy.toml".toList]

/-- How many directories are searched at most. -/
def maxDirectories : Nat := 64

/-- The rule set in the first file of a directory that can be found. -/
def ofDirectory? (files : FileSystem) (directory : Path) : Except Error (Option RuleSet) :=
  fileNames.findSomeM? fun name => ofFile? files (directory.join name)

/-- The rule set that holds for a directory. -/
def find (files : FileSystem) (start : Path) : Except Error RuleSet := do
  let found ← (start.ancestors maxDirectories).findSomeM? (ofDirectory? files)
  return found.getD default

end RuleSet

/-- What a process finds around it. -/
structure Environment where
  /-- The files. -/
  files : FileSystem
  /-- The working directory, if it can be determined. -/
  workingDirectory : Option Path

/-- The rule set that holds for the working directory; the default rules if that is unknown. -/
def Environment.rules (e : Environment) : Except Error RuleSet :=
  match e.workingDirectory with
  | none => .ok .default
  | some directory => RuleSet.find e.files directory

end TypeSignature
