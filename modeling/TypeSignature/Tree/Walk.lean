import TypeSignature.Tree.Basic

/-!
# Walk — rewriting a tree node by node

A visitor rewrites one node and passes a state on.  A walk applies it to every node of a tree once,
either before the nodes below or after them.  Walking downwards, the nodes visited next are the
children that the visitor left, so a visitor may drop nodes but not add any: that is why each walk
ends.
-/

namespace TypeSignature.Tree

universe u

/-- A rewriting of single nodes that carries a state of type `σ` and adds no nodes. -/
structure Visitor (σ : Type u) where
  /-- The rewritten node and the state after it. -/
  visit : Tree → σ → Tree × σ
  /-- No visit makes a tree larger. -/
  nodeCount_le : ∀ t s, (visit t s).1.nodeCount ≤ t.nodeCount

/-- Whether a node is visited before or after the nodes below it. -/
inductive Order where
  /-- A node comes before its children. -/
  | parentFirst
  /-- A node comes after its children. -/
  | childrenFirst
  deriving DecidableEq, Repr

variable {σ : Type u}

mutual

/-- Visits the node, and then what the visit left below it. -/
def walkDown (v : Visitor σ) (t : Tree) (s : σ) : Tree × σ :=
  let here := v.visit t s
  let below := walkDownIn v here.1.children here.2
  ({ here.1 with children := below.1 }, below.2)
termination_by (t.nodeCount, 0)
decreasing_by
  have h := v.nodeCount_le t s
  rw [nodeCount_eq (v.visit t s).1] at h
  apply Prod.Lex.left
  omega

/-- Walks down a row of siblings from the first to the last. -/
def walkDownIn (v : Visitor σ) (ts : List Tree) (s : σ) : List Tree × σ :=
  match ts with
  | [] => ([], s)
  | t :: ts =>
    let first := walkDown v t s
    let rest := walkDownIn v ts first.2
    (first.1 :: rest.1, rest.2)
termination_by (nodesIn ts, 1)
decreasing_by
  · simp only [nodesIn]
    by_cases h : nodesIn ts = 0
    · rw [h]; exact Prod.Lex.right _ (by omega)
    · exact Prod.Lex.left _ _ (by omega)
  · simp only [nodesIn]
    have := nodeCount_eq t
    exact Prod.Lex.left _ _ (by omega)

end

mutual

/-- Visits what is below the node, and then the node with its rewritten children. -/
def walkUp (v : Visitor σ) : Tree → σ → Tree × σ
  | ⟨left, children, right⟩, s =>
    let below := walkUpIn v children s
    v.visit ⟨left, below.1, right⟩ below.2

/-- Walks up through a row of siblings from the first to the last. -/
def walkUpIn (v : Visitor σ) : List Tree → σ → List Tree × σ
  | [], s => ([], s)
  | t :: ts, s =>
    let first := walkUp v t s
    let rest := walkUpIn v ts first.2
    (first.1 :: rest.1, rest.2)

end

/-- Applies a visitor to every node in the given order. -/
def transform (v : Visitor σ) : Order → Tree → σ → Tree × σ
  | .parentFirst => walkDown v
  | .childrenFirst => walkUp v

/-- A visitor that sees and changes only the texts of a node. -/
def Visitor.onTexts (f : Text → Text → σ → Text × Text × σ) : Visitor σ where
  visit t s :=
    let texts := f t.left t.right s
    ({ t with left := texts.1, right := texts.2.1 }, texts.2.2)
  nodeCount_le t s := by simp [nodeCount_eq]

end TypeSignature.Tree
