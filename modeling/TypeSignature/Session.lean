import TypeSignature.Callable
import TypeSignature.Rules.Search

/-!
# Session — one rule set for a whole process

A process cleans signatures by a rule set of its own.  It may be given one before it needs any;
otherwise the first use looks for one around the working directory and takes the default rules if
that fails.  Either way the rule set then stays for good.
-/

namespace TypeSignature

/-- A process, as far as its rules go. -/
structure Session where
  /-- The rule set of the process, once it has one. -/
  rules? : Option RuleSet
  deriving DecidableEq

/-- What a process can be asked. -/
inductive Command where
  /-- To take a rule set. -/
  | install (rules : RuleSet)
  /-- For its rule set. -/
  | rules
  /-- To look for a rule set without taking it. -/
  | find
  /-- To clean a list of signatures for display. -/
  | clean (signatures : Text)
  /-- To show the signature of a callable. -/
  | cleanCallable (signature : Text)
  deriving DecidableEq

/-- What a process answers. -/
inductive Answer where
  /-- The rule set was taken. -/
  | installed
  /-- There was one already, and this one is handed back. -/
  | rejected (rules : RuleSet)
  /-- The rule set of the process. -/
  | rules (rules : RuleSet)
  /-- What was found. -/
  | found (result : Except Error RuleSet)
  /-- A cleaned text. -/
  | text (result : Except Error Text)

namespace Session

/-- A process that has no rule set yet. -/
def fresh : Session := ⟨none⟩

/-- The rule set that the process uses: its own, or the one it finds, or the default. -/
def current (s : Session) (e : Environment) : RuleSet :=
  match s.rules? with
  | some rules => rules
  | none => e.rules.toOption.getD .default

/-- The process once it has used its rule set. -/
def settle (s : Session) (e : Environment) : Session := ⟨some (s.current e)⟩

/-- Carries out a command. -/
def step (s : Session) (e : Environment) : Command → Session × Answer
  | .install rules =>
    match s.rules? with
    | none => (⟨some rules⟩, .installed)
    | some _ => (s, .rejected rules)
  | .rules => (s.settle e, .rules (s.current e))
  | .find => (s, .found e.rules)
  | .clean signatures => (s.settle e, .text (cleanForDisplay (s.current e) signatures))
  | .cleanCallable signature =>
    (s.settle e, .text (callableSignature (s.current e) true signature))

/-- Carries out commands one after the other, each in the environment of its moment. -/
def run (s : Session) : List (Environment × Command) → List Answer
  | [] => []
  | (e, command) :: further =>
    let (s, answer) := s.step e command
    answer :: run s further

@[simp] theorem current_of_some (rules : RuleSet) (e : Environment) :
    current ⟨some rules⟩ e = rules := rfl

/-- A process that has used its rules has them for good. -/
@[simp] theorem current_settle (s : Session) (e e' : Environment) :
    (s.settle e).current e' = s.current e := rfl

end Session

end TypeSignature
