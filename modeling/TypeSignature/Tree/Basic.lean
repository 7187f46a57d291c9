import TypeSignature.Text.Trim

/-!
# Tree — the structure of a signature

`std::vector<int> const &` is a node: the text before its group of arguments (`std::vector`), the
arguments in order (`int`), and the text after the group (`const &`).  An atom such as `int` is a
node without arguments.
-/

namespace TypeSignature

/-- One unit of a signature. -/
structure Tree where
  /-- The text before the node's group. -/
  left : Text := []
  /-- The members of the node's group, in order. -/
  children : List Tree := []
  /-- The text after the node's group. -/
  right : Text := []
  deriving Repr, Inhabited, BEq

namespace Tree

/-- The node that has no text and no children. -/
def empty : Tree := {}

/-- A node without children that holds a type atom. -/
def leaf (left : Text) : Tree := { left }

/-- Whether the node has no children. -/
def isLeaf (t : Tree) : Bool := t.children.isEmpty

/-- The node with one more child, the last. -/
def addChild (t child : Tree) : Tree := { t with children := t.children ++ [child] }

/-- The node with one more character, before its group or after it. -/
def addChar (t : Tree) (afterGroup : Bool) (c : Char) : Tree :=
  if afterGroup then { t with right := t.right ++ [c] } else { t with left := t.left ++ [c] }

mutual

/-- The number of levels below the node: none for a leaf. -/
def depth : Tree → Nat
  | ⟨_, children, _⟩ => levels children

/-- The number of levels of a row of siblings: none for the empty row. -/
def levels : List Tree → Nat
  | [] => 0
  | t :: ts => max (depth t + 1) (levels ts)

end

mutual

/-- The number of nodes, the root among them. -/
def nodeCount : Tree → Nat
  | ⟨_, children, _⟩ => nodesIn children + 1

/-- The number of nodes in a row of siblings and below it. -/
def nodesIn : List Tree → Nat
  | [] => 0
  | t :: ts => nodeCount t + nodesIn ts

end

mutual

/-- Rewrites both texts of every node by `f`. -/
def mapText (f : Text → Text) : Tree → Tree
  | ⟨left, children, right⟩ => ⟨f left, mapTextIn f children, f right⟩

/-- Rewrites the texts in a row of siblings. -/
def mapTextIn (f : Text → Text) : List Tree → List Tree
  | [] => []
  | t :: ts => mapText f t :: mapTextIn f ts

end

mutual

/-- Removes every node below the root that `keep` refuses, with all that hangs from it.  A node is
tested as it stands in the given tree, before anything below it is removed. -/
def filter (keep : Tree → Bool) : Tree → Tree
  | ⟨left, children, right⟩ => ⟨left, filterIn keep children, right⟩

/-- Removes refused nodes from a row of siblings. -/
def filterIn (keep : Tree → Bool) : List Tree → List Tree
  | [] => []
  | t :: ts => if keep t then filter keep t :: filterIn keep ts else filterIn keep ts

end

theorem depth_eq (t : Tree) : t.depth = levels t.children := by cases t; rfl

theorem nodeCount_eq (t : Tree) : t.nodeCount = nodesIn t.children + 1 := by cases t; rfl

theorem nodesIn_append (ts us : List Tree) : nodesIn (ts ++ us) = nodesIn ts + nodesIn us := by
  induction ts with
  | nil => simp [nodesIn]
  | cons t ts ih => simp only [List.cons_append, nodesIn, ih]; omega

theorem left_mapText (f : Text → Text) (t : Tree) : (t.mapText f).left = f t.left := by cases t; rfl

theorem children_mapText (f : Text → Text) (t : Tree) :
    (t.mapText f).children = mapTextIn f t.children := by cases t; rfl

theorem left_filter (keep : Tree → Bool) (t : Tree) : (t.filter keep).left = t.left := by
  cases t; rfl

theorem right_filter (keep : Tree → Bool) (t : Tree) : (t.filter keep).right = t.right := by
  cases t; rfl

theorem children_filter (keep : Tree → Bool) (t : Tree) :
    (t.filter keep).children = filterIn keep t.children := by cases t; rfl

theorem mapTextIn_eq_map (f : Text → Text) (ts : List Tree) :
    mapTextIn f ts = ts.map (mapText f) := by
  induction ts with
  | nil => rfl
  | cons t ts ih => rw [mapTextIn, ih, List.map_cons]

theorem filterIn_eq_map_filter (keep : Tree → Bool) (ts : List Tree) :
    filterIn keep ts = (ts.filter keep).map (filter keep) := by
  induction ts with
  | nil => rfl
  | cons t ts ih =>
    rw [filterIn, List.filter_cons]
    split <;> simp [ih]

theorem levels_append (ts us : List Tree) : levels (ts ++ us) = max (levels ts) (levels us) := by
  induction ts with
  | nil => simp [levels]
  | cons t ts ih => simp only [List.cons_append, levels, ih]; omega

end Tree

end TypeSignature
