import TypeSignature.Session

/-!
# Session — the rule set of a process is frozen by its first use

Looking for rules leaves a process as it is.  Any other command settles its rule set, if nothing has
settled it before, and from then on every answer is given by that rule set, whatever becomes of the
files and the working directory.
-/

namespace TypeSignature

/-- The answer of a process that has the rule set `rules`. -/
def Command.answerWith (rules : RuleSet) (e : Environment) : Command → Answer
  | .install offered => .rejected offered
  | .rules => .rules rules
  | .find => .found e.rules
  | .clean signatures => .text (cleanForDisplay rules signatures)
  | .cleanCallable signature => .text (callableSignature rules true signature)

/-- The answer of a process to a command that settles its rule set as `rules`. -/
def Command.firstAnswer (rules : RuleSet) (e : Environment) : Command → Answer
  | .install _ => .installed
  | command => command.answerWith rules e

/-- The rule set that a command settles when it is the first to use one: the one to be installed, or
the one found at this moment, with the default rules in place of any error. -/
def Command.settles (e : Environment) : Command → RuleSet
  | .install offered => offered
  | _ =>
    match e.rules with
    | .ok found => found
    | .error _ => .default

/-- Only looking for rules was asked of the process. -/
def Unused (commands : List (Environment × Command)) : Prop := ∀ c ∈ commands, c.2 = .find

instance (commands : List (Environment × Command)) : Decidable (Unused commands) :=
  List.decidableBAll (fun c : Environment × Command => c.2 = .find) commands

/-- In a run of a process with the given answers, `rules` is the rule set of the process: the first
command to use a rule set settles it, and all answers are given by it. -/
structure Governs (rules : RuleSet) (commands : List (Environment × Command))
    (answers : List Answer) : Prop where
  length_eq : answers.length = commands.length
  /-- The first use settles the rule set; an installation succeeds then. -/
  settled : ∀ before e command after, commands = before ++ (e, command) :: after →
    Unused before → command ≠ .find →
    rules = command.settles e ∧ answers[before.length]? = some (command.firstAnswer rules e)
  /-- Every later command is answered by that rule set; an installation hands its own back. -/
  answered : ∀ before e command after, commands = before ++ (e, command) :: after →
    ¬ Unused before → answers[before.length]? = some (command.answerWith rules e)
  found : ∀ before e after, commands = before ++ (e, .find) :: after →
    answers[before.length]? = some (.found e.rules)

namespace Session

/-! ## 1. Steps, and runs that begin with a rule set -/

theorem current_fresh (e : Environment) : fresh.current e = Command.settles e .rules := by
  unfold current fresh Command.settles
  cases e.rules <;> rfl

/-- A process that has a rule set keeps it and answers by it. -/
theorem step_of_some (rules : RuleSet) (e : Environment) (command : Command) :
    step ⟨some rules⟩ e command = (⟨some rules⟩, command.answerWith rules e) := by
  cases command <;> rfl

theorem step_find (s : Session) (e : Environment) : s.step e .find = (s, .found e.rules) := rfl

/-- The first command to use a rule set settles it. -/
theorem step_fresh {command : Command} (h : command ≠ .find) (e : Environment) :
    fresh.step e command
      = (⟨some (command.settles e)⟩, command.firstAnswer (command.settles e) e) := by
  cases command with
  | install offered => rfl
  | find => exact absurd rfl h
  | rules | clean | cleanCallable =>
    unfold step settle
    rw [current_fresh]
    rfl

theorem run_of_some (rules : RuleSet) (commands : List (Environment × Command)) :
    run ⟨some rules⟩ commands = commands.map fun c => c.2.answerWith rules c.1 := by
  induction commands with
  | nil => rfl
  | cons c commands ih =>
    obtain ⟨e, command⟩ := c
    rw [run, step_of_some]
    show command.answerWith rules e :: run ⟨some rules⟩ commands = _
    rw [ih, List.map_cons]

end Session

/-! ## 2. Runs -/

variable {rules : RuleSet} {commands : List (Environment × Command)} {answers : List Answer}

theorem unused_cons_find (e : Environment) :
    Unused ((e, .find) :: commands) ↔ Unused commands := by
  unfold Unused
  rw [List.forall_mem_cons]
  simp

theorem not_unused_cons {command : Command} (h : command ≠ .find) (e : Environment)
    (commands : List (Environment × Command)) : ¬ Unused ((e, command) :: commands) :=
  fun hunused => h (hunused (e, command) List.mem_cons_self)

/-- Looking for rules may come before any run. -/
theorem Governs.cons_find (h : Governs rules commands answers) (e : Environment) :
    Governs rules ((e, .find) :: commands) (.found e.rules :: answers) where
  length_eq := by
    rw [List.length_cons, List.length_cons, h.length_eq]
  settled := by
    intro before e' command after hs hunused hne
    cases before with
    | nil => exact absurd (congrArg Prod.snd (List.cons.inj hs).1).symm hne
    | cons c before =>
      obtain ⟨rfl, hrest⟩ := List.cons.inj hs
      exact h.settled before e' command after hrest ((unused_cons_find e).mp hunused) hne
  answered := by
    intro before e' command after hs hused
    cases before with
    | nil => exact absurd (by simp [Unused]) hused
    | cons c before =>
      obtain ⟨rfl, hrest⟩ := List.cons.inj hs
      exact h.answered before e' command after hrest (mt (unused_cons_find e).mpr hused)
  found := by
    intro before e' after hs
    cases before with
    | nil =>
      obtain ⟨rfl, -⟩ := Prod.mk.inj (List.cons.inj hs).1
      rfl
    | cons c before => exact h.found before e' after (List.cons.inj hs).2

/-- A run that begins with a use is governed by what that use settles. -/
theorem governs_of_use {command : Command} (h : command ≠ .find) (e : Environment)
    (commands : List (Environment × Command)) :
    Governs (command.settles e) ((e, command) :: commands)
      (command.firstAnswer (command.settles e) e ::
        commands.map fun c => c.2.answerWith (command.settles e) c.1) where
  length_eq := by
    rw [List.length_cons, List.length_cons, List.length_map]
  settled := by
    intro before e' command' after hs hunused hne
    cases before with
    | nil =>
      obtain ⟨rfl, rfl⟩ := Prod.mk.inj (List.cons.inj hs).1
      exact ⟨rfl, rfl⟩
    | cons c before =>
      obtain ⟨rfl, -⟩ := List.cons.inj hs
      exact absurd hunused (not_unused_cons h e before)
  answered := by
    intro before e' command' after hs hused
    cases before with
    | nil => exact absurd (by simp [Unused]) hused
    | cons c before =>
      obtain ⟨-, rfl⟩ := List.cons.inj hs
      simp
  found := by
    intro before e' after hs
    cases before with
    | nil => exact absurd (congrArg Prod.snd (List.cons.inj hs).1) h
    | cons c before =>
      obtain ⟨-, rfl⟩ := List.cons.inj hs
      simp [Command.answerWith]

namespace Session

/-- **The first use freezes the rule set.**  Some rule set governs every run of a fresh process. -/
theorem exists_governs (commands : List (Environment × Command)) :
    ∃ rules, Governs rules commands (fresh.run commands) := by
  induction commands with
  | nil =>
    refine ⟨.default, rfl, ?_, ?_, ?_⟩
    · intro before e command after hs
      cases before <;> cases hs
    · intro before e command after hs
      cases before <;> cases hs
    · intro before e after hs
      cases before <;> cases hs
  | cons c commands ih =>
    obtain ⟨e, command⟩ := c
    by_cases h : command = .find
    · subst h
      obtain ⟨rules, hrules⟩ := ih
      rw [run, step_find]
      exact ⟨rules, hrules.cons_find e⟩
    · rw [run, step_fresh h]
      show ∃ rules, Governs rules _ (_ :: run ⟨some (command.settles e)⟩ commands)
      rw [run_of_some]
      exact ⟨command.settles e, governs_of_use h e commands⟩

end Session

end TypeSignature
