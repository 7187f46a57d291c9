import TypeSignature.Cleaning

/-!
# Callable — what a lambda takes and gives

The type of a lambda's call operator is written `wrapper<RESULT (OWNER::*)(PARAMETERS) const>`.
Between the first `<` and the last `)` its last parenthesised group holds the parameters, and the
last group before that one holds the owner, which is of no interest; what precedes both is the
result type.
-/

namespace TypeSignature

open Text

/-- Why a signature is no callable's. -/
inductive CallableFault where
  /-- There is no `<`. -/
  | noOpening
  /-- There is no `)` behind the first `<`. -/
  | noClosing
  /-- There is no group to take. -/
  | noGroup
  /-- The last group does not begin. -/
  | unbalanced
  deriving DecidableEq, Repr

/-- The wording of a callable's fault. -/
def CallableFault.message : CallableFault → Text
  | .noOpening => "no opening '<'".toList
  | .noClosing => "no closing ')'".toList
  | .noGroup => "missing closing ')'".toList
  | .unbalanced => "unbalanced parentheses".toList

/-- What follows the first `<`, up to and with the last `)`. -/
def callableBody (s : Text) : Except CallableFault Text :=
  match s.dropWhile (· != '<') with
  | [] => .error .noOpening
  | _ :: inner =>
    match dropEndWhile (· != ')') inner with
    | [] => .error .noClosing
    | body => .ok body

/-- Reads a text backwards to the parenthesis that opens the innermost of `depth + 1` groups whose
ends have been read.  Gives what was read on the way, in its own order behind `content`, and what
precedes the parenthesis, in reverse. -/
def groupStart : (depth : Nat) → (content : Text) → Text → Option (Text × Text)
  | _, _, [] => none
  | depth, content, c :: s =>
    if c = ')' then groupStart (depth + 1) (c :: content) s
    else if c = '(' then
      match depth with
      | 0 => some (content, s)
      | depth + 1 => groupStart depth (c :: content) s
    else groupStart depth (c :: content) s

/-- What precedes the last parenthesised group, and what the group holds; text behind the group is
ignored. -/
def lastGroup (s : Text) : Except CallableFault (Text × Text) :=
  match s.reverse.dropWhile (· != ')') with
  | [] => .error .noGroup
  | _ :: s =>
    match groupStart 0 [] s with
    | none => .error .unbalanced
    | some (content, before) => .ok (before.reverse, content)

example : lastGroup "ABC(DEF)(G(H)I)KLM".toList
    = .ok ("ABC(DEF)".toList, "G(H)I".toList) := by rfl

/-- Cleans a part of a callable's signature, or leaves it as it is. -/
def cleanPart (r : RuleSet) (clean : Bool) (s : Text) : Except Error Text :=
  if clean then cleanForDisplay r s else .ok s

/-- The parameters, cleaned one by one; `void` alone stands for none. -/
def parameterList (r : RuleSet) (clean : Bool) (s : Text) : Except Error Text := do
  let parameters ← (splitTypes s).mapM (cleanPart r clean)
  let joined := join [',', ' '] parameters
  pure (placeConst r (if joined = "void".toList then [] else joined))

/-- Turns a fault found in part of a callable's signature into an error about the whole. -/
def refuseCallable {α : Type _} (signature : Text) : Except CallableFault α → Except Error α
  | .ok a => .ok a
  | .error fault => .error (.malformedCallable signature fault.message)

/-- A callable's signature as `lambda: (PARAMETERS) -> RESULT`.  Parameters are cleaned before the
owner's group is looked for, and the result type last. -/
def callableSignature (r : RuleSet) (clean : Bool) (s : Text) : Except Error Text := do
  let body ← refuseCallable s (callableBody s)
  let (resultAndOwner, parameters) ← refuseCallable s (lastGroup body)
  let parameters ← parameterList r clean parameters
  let (result, _) ← refuseCallable s (lastGroup resultAndOwner)
  let result ← cleanPart r clean (trimBlanks result)
  pure ("lambda: (".toList ++ parameters ++ ") -> ".toList ++ placeConst r result)

end TypeSignature
