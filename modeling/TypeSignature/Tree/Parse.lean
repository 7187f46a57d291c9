import TypeSignature.Brackets
import TypeSignature.Tree.Basic

/-!
# Parse — from text to tree

The text is read once, from the left.  At each moment one node is current, and the nodes around it
wait in order, nearest first.  An opening bracket makes a fresh child current; a separator hands
the current node to its parent and begins a sibling; a closing bracket hands it over and returns to
the parent, whose further text stands after its group.

A separator needs a parent, so outside of all brackets it is a fault, unless the text is read as a
list: then the items are children of a root that has no text, as if one bracket pair enclosed the
whole.
-/

namespace TypeSignature.Tree

/-- Why a text has no tree. -/
inductive Fault.Reason where
  /-- A closing bracket where none is open. -/
  | unexpectedClose
  /-- A separator that no bracket pair encloses. -/
  | separatorOutsideBrackets
  /-- The text ends while `depth` brackets are open. -/
  | unterminated (depth : Nat)
  deriving DecidableEq, Repr

/-- The first fault in a text, and the byte it was found at. -/
structure Fault where
  /-- The number of bytes before the fault. -/
  position : Nat
  /-- What is wrong there. -/
  reason : Fault.Reason
  deriving DecidableEq, Repr

/-- A text that has been read in part. -/
structure Scan where
  /-- The node that receives text. -/
  current : Tree
  /-- The nodes around it, nearest first. -/
  ancestors : List Tree
  /-- Whether the current node's group has been closed, so that text goes behind it. -/
  afterGroup : Bool := false
  /-- Whether nothing but skipped white space came since the last structural character. -/
  afterStructural : Bool := false
  deriving Repr

namespace Scan

/-- Before the text of one signature. -/
def signature : Scan := { current := empty, ancestors := [] }

/-- Before the text of a list of signatures, whose root is in place. -/
def list : Scan := { current := empty, ancestors := [empty] }

/-- A bracket opens: a fresh child becomes current. -/
def openGroup (scan : Scan) : Scan :=
  { current := empty, ancestors := scan.current :: scan.ancestors, afterStructural := true }

/-- A separator: the current node goes to its parent, and a sibling becomes current. -/
def nextSibling (scan : Scan) : Except Fault.Reason Scan :=
  match scan.ancestors with
  | [] => .error .separatorOutsideBrackets
  | parent :: ancestors =>
    .ok { current := empty, ancestors := parent.addChild scan.current :: ancestors,
          afterStructural := true }

/-- A bracket closes: the current node goes to its parent, which becomes current again.  The last
`outer` ancestors belong to no bracket. -/
def closeGroup (outer : Nat) (scan : Scan) : Except Fault.Reason Scan :=
  match scan.ancestors with
  | [] => .error .unexpectedClose
  | parent :: ancestors =>
    if ancestors.length < outer then .error .unexpectedClose
    else .ok { current := parent.addChild scan.current, ancestors, afterGroup := true,
               afterStructural := true }

/-- Any other character is text of the current node. -/
def addText (scan : Scan) (c : Char) : Scan :=
  { scan with current := scan.current.addChar scan.afterGroup c, afterStructural := false }

/-- Reads one character.  With `skipBlanks`, white space behind a structural character is passed
over. -/
def step (b : Brackets) (skipBlanks : Bool) (outer : Nat) (scan : Scan) (c : Char) :
    Except Fault.Reason Scan :=
  if skipBlanks && scan.afterStructural && Text.isBlank c then .ok scan
  else
    match b.role c with
    | .opening => .ok scan.openGroup
    | .separator => scan.nextSibling
    | .closing => scan.closeGroup outer
    | .text => .ok (scan.addText c)

/-- The tree of all that was read: each waiting node receives the one inside it. -/
def toTree (scan : Scan) : Tree :=
  scan.ancestors.foldl (fun child parent => parent.addChild child) scan.current

/-- At the end of the text every bracket must have been closed. -/
def finish (outer : Nat) (scan : Scan) : Except Fault.Reason Tree :=
  if outer < scan.ancestors.length then
    .error (.unterminated (scan.ancestors.length - outer))
  else .ok scan.toTree

/-- Reads the rest of a text that begins at byte `position`. -/
def run (b : Brackets) (skipBlanks : Bool) (outer : Nat) :
    (scan : Scan) → (position : Nat) → Text → Except Fault Tree
  | scan, position, [] => (scan.finish outer).mapError (⟨position, ·⟩)
  | scan, position, c :: s =>
    match scan.step b skipBlanks outer c with
    | .error reason => .error ⟨position, reason⟩
    | .ok scan => run b skipBlanks outer scan (position + c.utf8Size) s

end Scan

/-- The tree of one signature.  With `skipBlanks`, white space behind a structural character does
not count. -/
def parse (b : Brackets) (skipBlanks : Bool) (s : Text) : Except Fault Tree :=
  Scan.signature.run b skipBlanks 0 0 s

/-- The tree of a list of signatures: the items are the children of a root without text. -/
def parseList (b : Brackets) (skipBlanks : Bool) (s : Text) : Except Fault Tree :=
  Scan.list.run b skipBlanks 1 0 s

/-- The empty text is one empty leaf. -/
theorem parse_nil (b : Brackets) (skipBlanks : Bool) : parse b skipBlanks [] = .ok empty := rfl

/-- The empty list has one item, which is empty. -/
theorem parseList_nil (b : Brackets) (skipBlanks : Bool) :
    parseList b skipBlanks [] = .ok { children := [empty] } := rfl

example : parse .angle true "a< b, c > const".toList
    = .ok { left := ['a'], children := [leaf ['b'], leaf ['c', ' ']],
            right := "const".toList } := by rfl

end TypeSignature.Tree
