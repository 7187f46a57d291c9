import TypeSignature.Brackets
import TypeSignature.Tree.Basic

/-!
# Render — from tree to text

A layout decides where lines break and where single spaces go.  `Layout.compact` writes a tree on
one line, `Layout.indented` gives each argument a line of its own, four columns further in than the
group it belongs to.
-/

namespace TypeSignature

/-- Where lines break around a group. -/
inductive IndentMode where
  /-- Nowhere. -/
  | none
  /-- Before the opening bracket, and around the group's members. -/
  | beforeOpening
  /-- Around the group's members only. -/
  | beforeChild
  deriving DecidableEq, Repr

/-- What follows a separator. -/
inductive SiblingSpacing where
  | none
  | space
  | newline
  deriving DecidableEq, Repr

/-- How a tree is written. -/
structure Layout where
  /-- Where lines break around a group. -/
  indentMode : IndentMode
  /-- What follows a separator. -/
  siblingSpacing : SiblingSpacing
  /-- Whether a space follows a node's left text, if it has one. -/
  spaceAfterLeft : Bool
  /-- Whether a space precedes a node's right text, if it has one. -/
  spaceBeforeRight : Bool
  /-- What a line begins with, once for each level. -/
  indentUnit : Text
  deriving DecidableEq, Repr

namespace Layout

/-- One line, with a space after each separator and before each right text. -/
def compact : Layout where
  indentMode := .none
  siblingSpacing := .space
  spaceAfterLeft := false
  spaceBeforeRight := true
  indentUnit := []

/-- One line for each node, indented by four spaces for each level. -/
def indented : Layout where
  indentMode := .beforeChild
  siblingSpacing := .newline
  spaceAfterLeft := false
  spaceBeforeRight := true
  indentUnit := "    ".toList

instance : Inhabited Layout := ⟨compact⟩

/-- Whether lines break at all. -/
def indents (o : Layout) : Bool := o.indentMode != .none

/-- The indentation of a line at `level`. -/
def lineStart (o : Layout) (level : Nat) : Text := (List.replicate level o.indentUnit).flatten

/-- The separator and the space or line break that follows it. -/
def betweenSiblings (o : Layout) (b : Brackets) : Text :=
  match o.siblingSpacing with
  | .none => [b.separator]
  | .space => [b.separator, ' ']
  | .newline => [b.separator, '\n']

/-- What is written where a node's group begins. -/
def beforeGroup (o : Layout) (b : Brackets) (level : Nat) : Text :=
  match o.indentMode with
  | .none => [b.opening]
  | .beforeOpening => '\n' :: o.lineStart level ++ [b.opening, '\n']
  | .beforeChild => [b.opening, '\n']

/-- What is written where a node's group ends. -/
def afterGroup (o : Layout) (b : Brackets) (level : Nat) : Text :=
  if o.indents then '\n' :: o.lineStart level ++ [b.closing] else [b.closing]

/-- A left text with the space that may follow it. -/
def leftText (o : Layout) (left : Text) : Text :=
  if o.spaceAfterLeft && !left.isEmpty then left ++ [' '] else left

/-- A right text with the space that may precede it. -/
def rightText (o : Layout) (right : Text) : Text :=
  if o.spaceBeforeRight && !right.isEmpty then ' ' :: right else right

end Layout

namespace Tree

mutual

/-- Writes a node at `level`. -/
def renderAt (b : Brackets) (o : Layout) (level : Nat) : Tree → Text
  | ⟨left, children, right⟩ =>
    (if o.indents then o.lineStart level else []) ++ o.leftText left ++
    (if children.isEmpty then []
     else o.beforeGroup b level ++ renderRow b o (level + 1) children ++ o.afterGroup b level) ++
    o.rightText right

/-- Writes a row of siblings, each at `level`, with separators between them. -/
def renderRow (b : Brackets) (o : Layout) (level : Nat) : List Tree → Text
  | [] => []
  | t :: ts => renderAt b o level t ++ renderFurther b o level ts

/-- Writes the siblings after the first, each behind a separator. -/
def renderFurther (b : Brackets) (o : Layout) (level : Nat) : List Tree → Text
  | [] => []
  | t :: ts => o.betweenSiblings b ++ renderAt b o level t ++ renderFurther b o level ts

end

/-- The text of a tree. -/
def render (b : Brackets) (o : Layout) (t : Tree) : Text := renderAt b o 0 t

/-- The text of a list of signatures, read from the children of its root. -/
def renderItems (b : Brackets) (o : Layout) (t : Tree) : Text := renderRow b o 0 t.children

example : render .angle .indented ⟨['a'], [leaf ['b'], leaf ['c']], "const &".toList⟩
    = "a<\n    b,\n    c\n> const &".toList := by decide

example : render .angle .compact ⟨['a'], [leaf ['b'], leaf ['c']], "const &".toList⟩
    = "a<b, c> const &".toList := by decide

end Tree

end TypeSignature
