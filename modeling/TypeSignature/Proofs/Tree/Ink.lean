import TypeSignature.Proofs.Tree.Spacing

/-!
# Ink — what is written of a tree, white space apart

Layouts differ in white space only.  The ink of a tree is what all of them write: the texts of its
nodes without white space, and the structural characters around and between them.
-/

namespace TypeSignature.Tree

open Text

mutual

/-- The characters of a node that are not white space, in the order in which they are written. -/
def ink (b : Brackets) : Tree → Text
  | ⟨left, children, right⟩ =>
    nonblank left ++
    (if children.isEmpty then [] else b.opening :: inkRow b children ++ [b.closing]) ++
    nonblank right

/-- The characters of a row of siblings, with the separators between them. -/
def inkRow (b : Brackets) : List Tree → Text
  | [] => []
  | t :: ts => ink b t ++ inkFurther b ts

/-- The characters of the siblings after the first, each behind a separator. -/
def inkFurther (b : Brackets) : List Tree → Text
  | [] => []
  | t :: ts => b.separator :: ink b t ++ inkFurther b ts

end

variable {b : Brackets}

theorem ink_leaf (b : Brackets) (left right : Text) :
    ink b ⟨left, [], right⟩ = nonblank left ++ nonblank right := by
  rw [ink, List.isEmpty_nil, if_pos rfl, List.append_nil]

theorem ink_group (b : Brackets) (left : Text) {children : List Tree} (right : Text)
    (h : children ≠ []) : ink b ⟨left, children, right⟩
      = nonblank left ++ (b.opening :: inkRow b children ++ [b.closing]) ++ nonblank right := by
  rw [ink, if_neg (by simp [h])]

/-- A row with one more sibling: a separator stands behind each sibling that was there before. -/
theorem inkRow_concat (b : Brackets) (ts : List Tree) (t : Tree) :
    inkRow b (ts ++ [t]) = ts.flatMap (fun u => ink b u ++ [b.separator]) ++ ink b t := by
  induction ts with
  | nil => simp [inkRow, inkFurther]
  | cons u ts ih =>
    -- `u` has a sibling behind it, whatever `ts` is
    have hfurther : inkFurther b (ts ++ [t]) = b.separator :: inkRow b (ts ++ [t]) := by
      cases ts <;> rfl
    rw [List.cons_append, inkRow, hfurther, ih, List.flatMap_cons]
    simp only [List.append_assoc, List.cons_append, List.nil_append]

/-! ## 1. Every layout writes it -/

section

variable (hv : b.Visible)

include hv

theorem nonblank_betweenSiblings (o : Layout) : nonblank (o.betweenSiblings b) = [b.separator] := by
  obtain ⟨gap, hgap, hseparator⟩ := o.exists_betweenSiblings b
  rw [hseparator, nonblank_cons_of_visible hv.separator, nonblank_eq_nil hgap]

variable {o : Layout} (ho : ∀ c ∈ o.indentUnit, isBlank c = true)

include ho

theorem nonblank_beforeGroup (level : Nat) : nonblank (o.beforeGroup b level) = [b.opening] := by
  obtain ⟨before, after, hbefore, hafter, hopening⟩ := o.exists_beforeGroup ho b level
  rw [hopening, nonblank_append, nonblank_eq_nil hbefore, nonblank_cons_of_visible hv.opening,
    nonblank_eq_nil hafter, List.nil_append]

theorem nonblank_afterGroup (level : Nat) : nonblank (o.afterGroup b level) = [b.closing] := by
  obtain ⟨gap, hgap, hclosing⟩ := o.exists_afterGroup ho b level
  rw [hclosing, nonblank_append, nonblank_eq_nil hgap, nonblank_singleton_of_not_blank hv.closing]
  rfl

end

mutual

/-- A layout that indents by white space writes the ink of a tree, and white space. -/
theorem nonblank_renderAt (hv : b.Visible) {o : Layout} (ho : ∀ c ∈ o.indentUnit, isBlank c = true)
    (level : Nat) : ∀ t : Tree, nonblank (renderAt b o level t) = ink b t
  | ⟨left, children, right⟩ => by
    have hindent : nonblank (if o.indents then o.lineStart level else []) = [] :=
      nonblank_eq_nil (o.isBlank_of_mem_indent ho level)
    have hrow := nonblank_renderRow hv ho (level + 1) children
    rw [renderAt, ink, nonblank_append, nonblank_append, nonblank_append, hindent,
      (o.pads_leftText left).nonblank_eq, (o.pads_rightText right).nonblank_eq, List.nil_append]
    split
    · rfl
    · rw [nonblank_append, nonblank_append, nonblank_beforeGroup hv ho, hrow,
        nonblank_afterGroup hv ho]
      rfl

theorem nonblank_renderRow (hv : b.Visible) {o : Layout} (ho : ∀ c ∈ o.indentUnit, isBlank c = true)
    (level : Nat) : ∀ ts : List Tree, nonblank (renderRow b o level ts) = inkRow b ts
  | [] => rfl
  | t :: ts => by
    rw [renderRow, inkRow, nonblank_append, nonblank_renderAt hv ho level t,
      nonblank_renderFurther hv ho level ts]

theorem nonblank_renderFurther (hv : b.Visible) {o : Layout}
    (ho : ∀ c ∈ o.indentUnit, isBlank c = true) (level : Nat) : ∀ ts : List Tree,
    nonblank (renderFurther b o level ts) = inkFurther b ts
  | [] => rfl
  | t :: ts => by
    rw [renderFurther, inkFurther, nonblank_append, nonblank_append, nonblank_betweenSiblings hv,
      nonblank_renderAt hv ho level t, nonblank_renderFurther hv ho level ts]
    rfl

end

theorem nonblank_renderItems (hv : b.Visible) {o : Layout}
    (ho : ∀ c ∈ o.indentUnit, isBlank c = true) (t : Tree) :
    nonblank (t.renderItems b o) = inkRow b t.children :=
  nonblank_renderRow hv ho 0 t.children

/-! ## 2. What does not change it -/

mutual

/-- Rewriting that touches white space only keeps the ink of a tree. -/
theorem ink_mapText {f : Text → Text} (hf : ∀ s, nonblank (f s) = nonblank s) : ∀ t : Tree,
    ink b (t.mapText f) = ink b t
  | ⟨left, children, right⟩ => by
    have hempty : (mapTextIn f children).isEmpty = children.isEmpty := by cases children <;> rfl
    rw [mapText, ink, ink, hf, hf, hempty, inkRow_mapTextIn hf children]

theorem inkRow_mapTextIn {f : Text → Text} (hf : ∀ s, nonblank (f s) = nonblank s) :
    ∀ ts : List Tree, inkRow b (mapTextIn f ts) = inkRow b ts
  | [] => rfl
  | t :: ts => by rw [mapTextIn, inkRow, inkRow, ink_mapText hf t, inkFurther_mapTextIn hf ts]

theorem inkFurther_mapTextIn {f : Text → Text} (hf : ∀ s, nonblank (f s) = nonblank s) :
    ∀ ts : List Tree, inkFurther b (mapTextIn f ts) = inkFurther b ts
  | [] => rfl
  | t :: ts => by
    rw [mapTextIn, inkFurther, inkFurther, ink_mapText hf t, inkFurther_mapTextIn hf ts]

end

end TypeSignature.Tree
