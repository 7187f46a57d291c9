import TypeSignature.Proofs.Tree.Canonical
import TypeSignature.Proofs.Tree.Items
import TypeSignature.Proofs.Tree.Spacing

/-!
# Layouts — every layout writes the same tree

A layout puts white space on either side of the structural characters, and each side belongs to a
text: the outer side of an opening bracket to the left text of the node, the inner side to the left
text of its first child, and so on.  So what is read of any layout has the texts of the tree with
white space around them, or without where reading passes it over.
-/

namespace TypeSignature

open Text

/-- No white space is at either end of the text. -/
def Text.Stripped (s : Text) : Prop :=
  (∀ c ∈ s.head?, isBlank c = false) ∧ ∀ c ∈ s.getLast?, isBlank c = false

-- decided for the characters at the ends only, not for every `Char`
instance (s : Text) : Decidable s.Stripped :=
  @instDecidableAnd _ _ (Option.decidableForallMem (p := (isBlank · = false)) s.head?)
    (Option.decidableForallMem (p := (isBlank · = false)) s.getLast?)

theorem Text.Stripped.trimBlanks_eq {s : Text} (h : s.Stripped) : trimBlanks s = s :=
  trimWhere_eq_self h.1 h.2

namespace Tree

variable {b : Brackets} {o : Layout}

/-! ## 1. What a layout can tell -/

/-- What a layout can tell of a node: texts without structural characters, and none behind a missing
group. -/
structure NodeWritable (b : Brackets) (t : Tree) : Prop where
  left_plain : b.Plain t.left
  right_plain : b.Plain t.right
  right_of_leaf : t.children = [] → t.right = []

instance (b : Brackets) (t : Tree) : Decidable (NodeWritable b t) :=
  decidable_of_iff
    (b.Plain t.left ∧ b.Plain t.right ∧ (t.children = [] → t.right = []))
    ⟨fun ⟨hleft, hright, hleaf⟩ => ⟨hleft, hright, hleaf⟩,
      fun h => ⟨h.left_plain, h.right_plain, h.right_of_leaf⟩⟩

/-- A tree that a layout can tell. -/
def Writable (b : Brackets) (t : Tree) : Prop := ∀ u ∈ t.preorder, NodeWritable b u

def WritableIn (b : Brackets) (ts : List Tree) : Prop := ∀ u ∈ preorderIn ts, NodeWritable b u

instance (b : Brackets) (t : Tree) : Decidable (Writable b t) :=
  List.decidableBAll (NodeWritable b) t.preorder

theorem writable_iff {t : Tree} : Writable b t ↔ NodeWritable b t ∧ WritableIn b t.children := by
  rw [Writable, preorder_eq, List.forall_mem_cons, descendants, WritableIn]

theorem writableIn_cons_iff {t : Tree} {ts : List Tree} :
    WritableIn b (t :: ts) ↔ Writable b t ∧ WritableIn b ts := by
  rw [WritableIn, preorderIn, List.forall_mem_append, Writable, WritableIn]

/-! ## 2. Reading a layout -/

namespace Scan

/-- Where a text begins with white space, some of it may be passed over. -/
theorem exists_read_plain (skipBlanks : Bool) (outer : Nat) (current : Tree)
    (ancestors : List Tree) (afterGroup afterStructural : Bool) {s : Text} (hs : b.Plain s) :
    ∃ kept after, kept <:+ s ∧ trimBlanks kept = trimBlanks s ∧
      read b skipBlanks outer { current, ancestors, afterGroup, afterStructural } s = .ok
        { current := kept.foldl (addChar · afterGroup) current, ancestors, afterGroup,
          afterStructural := after } := by
  induction s with
  | nil => exact ⟨[], afterStructural, List.suffix_refl [], rfl, rfl⟩
  | cons c s ih =>
    obtain ⟨hc, hs⟩ := List.forall_mem_cons.mp hs
    cases hpass : passes skipBlanks { current, ancestors, afterGroup, afterStructural } c with
    | true =>
      obtain ⟨kept, after, hsuffix, hkept, hread⟩ := ih hs
      have hblank : ∀ d ∈ [c], isBlank d = true :=
        List.forall_mem_singleton.mpr (isBlank_of_passes hpass)
      refine ⟨kept, after, hsuffix.trans (List.suffix_cons c s), ?_, ?_⟩
      · exact hkept.trans (trimWhere_of_all_append hblank).symm
      · rw [read_cons_of_move (.pass hpass), hread]
    | false =>
      -- behind a character of the text nothing more is passed over
      have hread := read_text skipBlanks outer (current.addChar afterGroup c) ancestors afterGroup
        false hs (by simp)
      refine ⟨c :: s, false, List.suffix_refl _, rfl, ?_⟩
      rw [read_cons_of_move (.text hpass hc), addText, hread]
      rfl

section

variable (hv : b.Visible)

include hv

theorem exists_read_padded_left (skipBlanks : Bool) (outer : Nat) (ancestors : List Tree)
    (afterStructural : Bool) {left padded : Text} (hpads : Pads left padded) (hs : b.Plain left) :
    ∃ kept after, trimBlanks kept = trimBlanks left ∧
      read b skipBlanks outer { current := empty, ancestors, afterStructural } padded = .ok
        { current := ⟨kept, [], []⟩, ancestors, afterStructural := after } := by
  obtain ⟨kept, after, -, hkept, hread⟩ := exists_read_plain skipBlanks outer empty ancestors false
    afterStructural (hpads.plain hv hs)
  have hleft : kept.foldl (addChar · false) empty = ⟨kept, [], []⟩ :=
    foldl_addChar_left kept [] [] []
  rw [hleft] at hread
  exact ⟨kept, after, hkept.trans hpads.trimBlanks_eq, hread⟩

theorem exists_read_padded_right (skipBlanks : Bool) (outer : Nat) (ancestors : List Tree)
    (left : Text) (children : List Tree) {right padded : Text} (hpads : Pads right padded)
    (hs : b.Plain right) :
    ∃ kept after, trimBlanks kept = trimBlanks right ∧
      read b skipBlanks outer
        { current := ⟨left, children, []⟩, ancestors, afterGroup := true, afterStructural := true }
        padded = .ok
        { current := ⟨left, children, kept⟩, ancestors, afterGroup := true,
          afterStructural := after } := by
  obtain ⟨kept, after, -, hkept, hread⟩ := exists_read_plain skipBlanks outer
    ⟨left, children, []⟩ ancestors true true (hpads.plain hv hs)
  rw [foldl_addChar_right] at hread
  exact ⟨kept, after, hkept.trans hpads.trimBlanks_eq, hread⟩

/-- White space behind a node does not count. -/
theorem exists_read_gap (skipBlanks : Bool) (outer : Nat) (current : Tree)
    (ancestors : List Tree) (afterGroup afterStructural : Bool) {gap : Text}
    (hgap : ∀ c ∈ gap, isBlank c = true) :
    ∃ next after, next.trimmed = current.trimmed ∧
      read b skipBlanks outer { current, ancestors, afterGroup, afterStructural } gap = .ok
        { current := next, ancestors, afterGroup, afterStructural := after } := by
  obtain ⟨kept, after, hsuffix, -, hread⟩ := exists_read_plain skipBlanks outer current ancestors
    afterGroup afterStructural (hv.plain_of_blank hgap)
  have hkept : ∀ c ∈ kept, isBlank c = true := fun c hc => hgap c (hsuffix.subset hc)
  exact ⟨_, after, trimmed_foldl_addChar current afterGroup hkept, hread⟩

end

mutual

/-- Where a node begins, its layout makes it the current node, up to white space around texts. -/
theorem exists_read_layout (hv : b.Visible) (hd : b.Distinct)
    (ho : ∀ c ∈ o.indentUnit, isBlank c = true) (skipBlanks : Bool) (outer level : Nat) :
    ∀ (t : Tree) (ancestors : List Tree) (afterStructural : Bool) (gap : Text), Writable b t →
    (∀ c ∈ gap, isBlank c = true) → outer ≤ ancestors.length →
    ∃ u afterGroup after, u.trimmed = t.trimmed ∧
      read b skipBlanks outer { current := empty, ancestors, afterStructural }
        (gap ++ renderAt b o level t) = .ok
        { current := u, ancestors, afterGroup, afterStructural := after }
  | ⟨left, [], right⟩, ancestors, afterStructural, gap, ht, hgap, houter => by
    -- a leaf is its left text, since a right one would stand behind a group
    obtain ⟨hnode, -⟩ := writable_iff.mp ht
    have hright : right = [] := hnode.right_of_leaf rfl
    have hpads := pads_renderAt_leaf (b := b) ho level left
    obtain ⟨kept, after, hkept, hread⟩ := exists_read_padded_left hv skipBlanks outer ancestors
      afterStructural (hpads.blanks_append hgap) hnode.left_plain
    refine ⟨⟨kept, [], []⟩, false, after, ?_, by rw [hright, hread]⟩
    rw [hright, trimmed, trimmed, Tree.mapText, Tree.mapText, hkept]
  | ⟨left, child :: children, right⟩, ancestors, afterStructural, gap, ht, hgap, houter => by
    obtain ⟨hnode, hin⟩ := writable_iff.mp ht
    obtain ⟨hchild, hchildren⟩ := writableIn_cons_iff.mp hin
    obtain ⟨leftPadded, rightPadded, opened, closed, hleft, hright, hopened, hclosed, htext⟩ :=
      exists_renderAt_of_group (b := b) ho level left right child children
    obtain ⟨keptLeft, _, hkeptLeft, hreadLeft⟩ := exists_read_padded_left hv skipBlanks outer
      ancestors afterStructural (hleft.blanks_append hgap) hnode.left_plain
    obtain ⟨first, _, _, hfirst, hreadFirst⟩ := exists_read_layout hv hd ho skipBlanks outer
      (level + 1) child (⟨keptLeft, [], []⟩ :: ancestors) true opened hchild hopened
      (by simp; omega)
    obtain ⟨last, parent, _, _, us, hus, hparent, hreadLast⟩ := exists_read_layoutFurther hv hd ho
      skipBlanks outer (level + 1) children first ⟨keptLeft, [], []⟩ ancestors _ _ closed hchildren
      hclosed houter
    obtain ⟨keptRight, after, hkeptRight, hreadRight⟩ := exists_read_padded_right hv skipBlanks
      outer ancestors keptLeft us hright hnode.right_plain
    refine ⟨⟨keptLeft, us, keptRight⟩, true, after, ?_, ?_⟩
    · rw [trimmed, trimmed, Tree.mapText, Tree.mapText, hkeptLeft, hkeptRight, hus, hfirst,
        mapTextIn, trimmed]
    · rw [htext, ← List.append_assoc, read_append_of_read hreadLeft, read_opening hv, openGroup,
        read_append_of_read hreadFirst, read_append_of_read hreadLast,
        read_closing hv hd rfl houter, hparent]
      exact hreadRight

/-- Behind a first sibling, the layout of the further ones hands all but the last to the parent. -/
theorem exists_read_layoutFurther (hv : b.Visible) (hd : b.Distinct)
    (ho : ∀ c ∈ o.indentUnit, isBlank c = true) (skipBlanks : Bool) (outer level : Nat) :
    ∀ (ts : List Tree) (t parent : Tree) (rest : List Tree) (afterGroup afterStructural : Bool)
    (gap : Text), WritableIn b ts → (∀ c ∈ gap, isBlank c = true) → outer ≤ rest.length →
    ∃ last parent' afterGroup' after us,
      mapTextIn trimBlanks us = t.trimmed :: mapTextIn trimBlanks ts ∧
      parent'.addChild last = ⟨parent.left, parent.children ++ us, parent.right⟩ ∧
      read b skipBlanks outer
        { current := t, ancestors := parent :: rest, afterGroup, afterStructural }
        (renderFurther b o level ts ++ gap) = .ok
        { current := last, ancestors := parent' :: rest, afterGroup := afterGroup',
          afterStructural := after }
  | [], t, parent, rest, afterGroup, afterStructural, gap, hts, hgap, houter => by
    obtain ⟨last, after, hlast, hread⟩ := exists_read_gap hv skipBlanks outer t (parent :: rest)
      afterGroup afterStructural hgap
    exact ⟨last, parent, afterGroup, after, [last], by rw [← hlast]; rfl, rfl, hread⟩
  | u :: us, t, parent, rest, afterGroup, afterStructural, gap, hts, hgap, houter => by
    obtain ⟨hu, hus⟩ := writableIn_cons_iff.mp hts
    obtain ⟨between, hbetween, hseparator⟩ := o.exists_betweenSiblings b
    obtain ⟨next, _, _, hnext, hreadNext⟩ := exists_read_layout hv hd ho skipBlanks outer level u
      (parent.addChild t :: rest) true between hu hbetween (by simp; omega)
    obtain ⟨last, parent', lastGroup, lastAfter, later, hlater, hparent, hreadLast⟩ :=
      exists_read_layoutFurther hv hd ho skipBlanks outer level us next (parent.addChild t) rest _ _
        gap hus hgap houter
    refine ⟨last, parent', lastGroup, lastAfter, t :: later, ?_, ?_, ?_⟩
    · rw [mapTextIn, hlater, hnext, mapTextIn, trimmed, trimmed]
    · rw [hparent]
      simp [Tree.addChild]
    · rw [renderFurther, hseparator, List.append_assoc, List.append_assoc, List.cons_append,
        read_separator hv hd rfl, ← List.append_assoc, read_append_of_read hreadNext, hreadLast]

end

end Scan

/-- What is read of a layout is the tree, up to white space around its texts. -/
theorem exists_parse_render (hv : b.Visible) (hd : b.Distinct)
    (ho : ∀ c ∈ o.indentUnit, isBlank c = true) (skipBlanks : Bool) {t : Tree}
    (ht : Writable b t) :
    ∃ u, parse b skipBlanks (t.render b o) = .ok u ∧ u.trimmed = t.trimmed := by
  obtain ⟨u, afterGroup, after, hu, hread⟩ := Scan.exists_read_layout hv hd ho skipBlanks 0 0 t []
    false [] ht (by simp) (Nat.zero_le _)
  exact ⟨u, parse_eq_ok_iff.mpr (Scan.outcome_eq_ok_iff.mpr ⟨_, hread, rfl⟩), hu⟩

/-- **Every layout carries the tree.**  A tree whose texts have no white space at their ends is what
is read of any of its layouts, once white space is trimmed. -/
theorem parse_render_trimmed (hv : b.Visible) (hd : b.Distinct)
    (ho : ∀ c ∈ o.indentUnit, isBlank c = true) (skipBlanks : Bool) {t : Tree}
    (ht : Writable b t) (hs : ∀ u ∈ t.preorder, Stripped u.left ∧ Stripped u.right) :
    ∃ u, parse b skipBlanks (t.render b o) = .ok u ∧ u.trimmed = t := by
  obtain ⟨u, hparse, hu⟩ := exists_parse_render hv hd ho skipBlanks ht
  have htrimmed : t.trimmed = t := by
    have hid : t.mapText trimBlanks = t.mapText id := mapText_congr fun w hw =>
      ⟨(hs w hw).1.trimBlanks_eq, (hs w hw).2.trimBlanks_eq⟩
    rw [trimmed, hid, mapText_id]
  exact ⟨u, hparse, hu.trans htrimmed⟩

/-- White space wherever a layout can put it. -/
def spread : Layout := ⟨.beforeOpening, .newline, true, true, ['\t']⟩

/-- A node with a child that has no text in front of its group, and an empty one. -/
def nested : Tree := ⟨['a'], [⟨[], [leaf "b c".toList], ['&']⟩, empty], ['*']⟩

/-- White space on every side of a bracket becomes part of the texts when it is not passed over. -/
theorem parse_render_trimmed_spread :
    (∀ c ∈ spread.indentUnit, isBlank c = true) ∧ Writable .angle nested ∧
      (∀ u ∈ nested.preorder, Stripped u.left ∧ Stripped u.right) ∧
      nested.render .angle spread = "a \n<\n\t\n\t<\n\t\tb c \n\t> &,\n\t\n> *".toList ∧
      ∃ u, parse .angle false (nested.render .angle spread) = .ok u ∧ u.trimmed = nested := by
  have ho : ∀ c ∈ spread.indentUnit, isBlank c = true := List.forall_mem_singleton.mpr (by decide)
  have ht : Writable .angle nested := by decide
  have hs : ∀ u ∈ nested.preorder, Stripped u.left ∧ Stripped u.right := by decide
  exact ⟨ho, ht, hs, by decide, parse_render_trimmed Brackets.visible_angle Brackets.distinct_angle
    ho false ht hs⟩

end Tree

end TypeSignature
