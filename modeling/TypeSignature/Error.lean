import TypeSignature.FileSystem.Basic
import TypeSignature.Tree.Parse

/-!
# Error — what can go wrong, and how it is told

Two things fail: reading a signature whose brackets do not match or which is no callable's, and
finding rules in files.  An error keeps its cause; `Error.message` is the only place where it is
put into words.
-/

namespace TypeSignature

/-- Why no result could be given. -/
inductive Error where
  /-- The brackets of a signature do not match. -/
  | malformedSignature (signature : Text) (fault : Tree.Fault)
  /-- A signature does not have the parenthesised groups of a callable's. -/
  | malformedCallable (signature reason : Text)
  /-- A document holds no rule set; `path` is where it was read. -/
  | configuration (message : Text) (path : Option Path)
  /-- An error met on the way to something else. -/
  | inContext (context : Text) (cause : Error)
  /-- A file could not be read. -/
  | unreadable (fault : ReadFault)
  deriving DecidableEq, Repr

/-- The wording of a structural fault. -/
def Tree.Fault.Reason.message : Tree.Fault.Reason → Text
  | .unexpectedClose => "close bracket without a matching open bracket".toList
  | .separatorOutsideBrackets => "separator outside of any bracket".toList
  | .unterminated depth => Text.ofNat depth ++ " bracket(s) left open".toList

namespace Error

/-- The wording of an error. -/
def message : Error → Text
  | malformedSignature signature fault =>
    "Malformed signature at byte ".toList ++ Text.ofNat fault.position ++ ": ".toList ++
      fault.reason.message ++ " in `".toList ++ signature ++ "`".toList
  | malformedCallable signature reason =>
    "Malformed lambda signature: ".toList ++ reason ++ " in `".toList ++ signature ++ "`".toList
  | configuration message _ => "Configuration error: ".toList ++ message
  | inContext context cause => context ++ ": ".toList ++ cause.message
  | unreadable fault => fault.name

/-- Whether the signature was at fault, and not the rules or the way to them. -/
def isMalformedInput : Error → Bool
  | malformedSignature .. | malformedCallable .. => true
  | _ => false

end Error

/-- Tells what was being done when an error was met. -/
def withContext {α : Type _} (context : Text) : Except Error α → Except Error α
  | .ok a => .ok a
  | .error cause => .error (.inContext context cause)

end TypeSignature
