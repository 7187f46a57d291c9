import TypeSignature.Proofs.Tree.Reading
import TypeSignature.Tree.Render

/-!
# Canonical — the trees that signatures have

Reading gives a tree only texts without structural characters, drops white space in front of every
text but the root's left one, and writes behind a group only when there is one.  A tree with these
properties is canonical, and canonical trees are all that reading yields: the compact layout of such
a tree is read back as the tree.
-/

namespace TypeSignature

namespace Tree

mutual

/-- The node and all nodes below it, each before the nodes below it. -/
def preorder : Tree → List Tree
  | ⟨left, children, right⟩ => ⟨left, children, right⟩ :: preorderIn children

/-- The nodes of a row of siblings, each before the nodes below it. -/
def preorderIn : List Tree → List Tree
  | [] => []
  | t :: ts => preorder t ++ preorderIn ts

end

/-- All nodes but the root. -/
def descendants (t : Tree) : List Tree := preorderIn t.children

theorem preorder_eq (t : Tree) : t.preorder = t :: t.descendants := by
  cases t
  rw [preorder, descendants]

mutual

theorem mapText_congr {f g : Text → Text} : ∀ {t : Tree},
    (∀ u ∈ t.preorder, f u.left = g u.left ∧ f u.right = g u.right) → t.mapText f = t.mapText g
  | ⟨left, children, right⟩, h => by
    rw [preorder, List.forall_mem_cons] at h
    rw [mapText, mapText, h.1.1, h.1.2, mapTextIn_congr h.2]

theorem mapTextIn_congr {f g : Text → Text} : ∀ {ts : List Tree},
    (∀ u ∈ preorderIn ts, f u.left = g u.left ∧ f u.right = g u.right) →
    mapTextIn f ts = mapTextIn g ts
  | [], _ => rfl
  | t :: ts, h => by
    rw [preorderIn, List.forall_mem_append] at h
    rw [mapTextIn, mapTextIn, mapText_congr h.1, mapTextIn_congr h.2]

end

/-- What reading grants every node. -/
structure NodeCanonical (b : Brackets) (t : Tree) : Prop where
  left_plain : b.Plain t.left
  right_plain : b.Plain t.right
  right_of_leaf : t.children = [] → t.right = []
  right_flush : t.right.Flush

/-- A tree whose nodes are what reading makes them: texts without structural characters, nothing
behind a missing group, and no white space in front of a text, the root's left one apart. -/
structure Canonical (b : Brackets) (t : Tree) : Prop where
  node : ∀ u ∈ t.preorder, NodeCanonical b u
  left_flush : ∀ u ∈ t.descendants, u.left.Flush

/-- A row of siblings that may stand in a group of a canonical tree. -/
def CanonicalIn (b : Brackets) (ts : List Tree) : Prop :=
  ∀ u ∈ preorderIn ts, NodeCanonical b u ∧ u.left.Flush

variable {b : Brackets}

theorem canonical_iff {t : Tree} :
    Canonical b t ↔ NodeCanonical b t ∧ CanonicalIn b t.children := by
  constructor
  · intro h
    have hnode := h.node
    rw [preorder_eq] at hnode
    refine ⟨hnode t List.mem_cons_self, fun u hu => ⟨?_, h.left_flush u hu⟩⟩
    exact hnode u (List.mem_cons_of_mem _ hu)
  · rintro ⟨hnode, hchildren⟩
    refine ⟨fun u hu => ?_, fun u hu => (hchildren u hu).2⟩
    rw [preorder_eq] at hu
    rcases List.mem_cons.mp hu with rfl | hu
    · exact hnode
    · exact (hchildren u hu).1

theorem canonicalIn_cons_iff {t : Tree} {ts : List Tree} :
    CanonicalIn b (t :: ts) ↔ (Canonical b t ∧ t.left.Flush) ∧ CanonicalIn b ts := by
  simp only [CanonicalIn, preorderIn, preorder_eq, List.cons_append, List.mem_cons,
    List.mem_append, canonical_iff, descendants]
  grind

theorem canonicalIn_concat_iff {t : Tree} {ts : List Tree} :
    CanonicalIn b (ts ++ [t]) ↔ CanonicalIn b ts ∧ Canonical b t ∧ t.left.Flush := by
  have hnil : CanonicalIn b [] := by
    intro u hu
    simp [preorderIn] at hu
  induction ts with
  | nil =>
    rw [List.nil_append, canonicalIn_cons_iff]
    simp [hnil]
  | cons u ts ih =>
    simp only [List.cons_append, canonicalIn_cons_iff, ih, and_assoc]

theorem canonical_empty (b : Brackets) : Canonical b empty :=
  canonical_iff.mpr ⟨⟨b.plain_nil, b.plain_nil, fun _ => rfl, Text.flush_nil⟩, by
    intro u hu
    simp [empty, preorderIn] at hu⟩

theorem Canonical.addChild {t child : Tree} (ht : Canonical b t) (hchild : Canonical b child)
    (hflush : child.left.Flush) : Canonical b (t.addChild child) := by
  obtain ⟨hnode, hchildren⟩ := canonical_iff.mp ht
  refine canonical_iff.mpr ⟨⟨hnode.left_plain, hnode.right_plain, fun h => ?_, hnode.right_flush⟩,
    canonicalIn_concat_iff.mpr ⟨hchildren, hchild, hflush⟩⟩
  simp [Tree.addChild] at h

/-! ## 1. Reading yields canonical trees -/

namespace Scan

/-- Every node on the stack is canonical as it stands, and every node but the outermost is flush.
The other fields say where the next character goes: behind a group only when there is one, and where
white space would come first, the last character was structural. -/
structure Sound (b : Brackets) (scan : Scan) : Prop where
  current : Canonical b scan.current
  ancestors : ∀ t ∈ scan.ancestors, Canonical b t
  left_flush : (scan.current :: scan.ancestors).Pairwise fun t _ => t.left.Flush
  group : scan.afterGroup = true → scan.current.children ≠ []
  right_begun : scan.afterGroup = true → scan.current.right = [] → scan.afterStructural = true
  left_begun : scan.afterGroup = false → scan.current.left = [] → scan.ancestors ≠ [] →
    scan.afterStructural = true

theorem sound_of_begin (afterStructural : Bool) :
    Sound b { current := empty, ancestors := [], afterStructural } where
  current := canonical_empty b
  ancestors := by simp
  left_flush := by simp
  group := by simp
  right_begun := by simp
  left_begun := by simp

theorem Sound.addChild {scan : Scan} (h : Sound b scan) {parent : Tree} {rest : List Tree}
    (hscan : scan.ancestors = parent :: rest) :
    Canonical b (parent.addChild scan.current) ∧ (∀ t ∈ rest, Canonical b t) ∧
      (parent.addChild scan.current :: rest).Pairwise fun t _ => t.left.Flush := by
  have hflush := h.left_flush
  have hancestors := h.ancestors
  rw [hscan, List.pairwise_cons] at hflush
  rw [hscan, List.forall_mem_cons] at hancestors
  refine ⟨hancestors.1.addChild h.current (hflush.1 parent List.mem_cons_self), hancestors.2, ?_⟩
  exact List.pairwise_cons.mpr (List.pairwise_cons.mp hflush.2)

theorem Sound.openGroup {scan : Scan} (h : Sound b scan) : Sound b scan.openGroup where
  current := canonical_empty b
  ancestors := List.forall_mem_cons.mpr ⟨h.current, h.ancestors⟩
  left_flush := List.pairwise_cons.mpr ⟨fun _ _ => Text.flush_nil, h.left_flush⟩
  group := by simp [Scan.openGroup]
  right_begun := by simp [Scan.openGroup]
  left_begun := by simp [Scan.openGroup]

theorem Sound.addText {scan : Scan} (h : Sound b scan) {c : Char}
    (hread : scan.passes true c = false) (hrole : b.role c = .text) :
    Sound b (scan.addText c) := by
  obtain ⟨⟨left, children, right⟩, ancestors, afterGroup, afterStructural⟩ := scan
  obtain ⟨hcurrent, hancestors, hflush, hgroup, hright, hleft⟩ := h
  obtain ⟨hnode, hchildren⟩ := canonical_iff.mp hcurrent
  -- a text that is still empty begins with the character, which is then no white space
  have hkept : afterStructural = true → Text.isBlank c = false := by
    intro hafter
    simpa [passes, hafter] using hread
  cases afterGroup with
  | true =>
    simp only [Scan.addText, addChar, if_true] at *
    refine ⟨canonical_iff.mpr ⟨⟨hnode.left_plain, hnode.right_plain.concat hrole, ?_, ?_⟩,
      hchildren⟩, hancestors, ?_, fun _ => hgroup trivial, ?_, ?_⟩
    · intro hleaf
      exact absurd hleaf (hgroup trivial)
    · exact hnode.right_flush.concat fun hempty => hkept (hright trivial hempty)
    · exact List.pairwise_cons.mpr (List.pairwise_cons.mp hflush)
    · simp
    · simp
  | false =>
    simp only [Scan.addText, addChar, Bool.false_eq_true, if_false] at *
    refine ⟨canonical_iff.mpr ⟨⟨hnode.left_plain.concat hrole, hnode.right_plain,
      hnode.right_of_leaf, hnode.right_flush⟩, hchildren⟩, hancestors, ?_, ?_, ?_, ?_⟩
    · obtain ⟨hroot, hrest⟩ := List.pairwise_cons.mp hflush
      refine List.pairwise_cons.mpr ⟨fun u hu => ?_, hrest⟩
      exact (hroot u hu).concat fun hempty =>
        hkept (hleft trivial hempty (List.ne_nil_of_mem hu))
    · simp
    · simp
    · simp

theorem Sound.move {outer : Nat} {scan next : Scan} {c : Char} (h : Sound b scan)
    (hmove : Move b true outer scan c next) : Sound b next := by
  cases hmove with
  | pass => exact h
  | opening => exact h.openGroup
  | separator _ _ hscan =>
    obtain ⟨hparent, hrest, hflush⟩ := h.addChild hscan
    exact ⟨canonical_empty b, List.forall_mem_cons.mpr ⟨hparent, hrest⟩,
      List.pairwise_cons.mpr ⟨fun _ _ => Text.flush_nil, hflush⟩, by simp, by simp, by simp⟩
  | closing _ _ hscan =>
    obtain ⟨hparent, hrest, hflush⟩ := h.addChild hscan
    exact ⟨hparent, hrest, hflush, by simp [Tree.addChild], by simp, by simp⟩
  | text hread hrole => exact h.addText hread hrole

/-- The tree of a scan is canonical when the nodes on its stack are. -/
theorem Sound.canonical_toTree {scan : Scan} (h : Sound b scan) : Canonical b scan.toTree := by
  obtain ⟨current, ancestors, afterGroup, afterStructural⟩ := scan
  obtain ⟨hcurrent, hancestors, hflush, -, -, -⟩ := h
  simp only [toTree] at *
  induction ancestors generalizing current with
  | nil => exact hcurrent
  | cons parent rest ih =>
    obtain ⟨hparent, hrest⟩ := List.forall_mem_cons.mp hancestors
    obtain ⟨hfirst, hothers⟩ := List.pairwise_cons.mp hflush
    have hnext := hparent.addChild hcurrent (hfirst parent List.mem_cons_self)
    exact ih (parent.addChild current) hnext hrest
      (List.pairwise_cons.mpr (List.pairwise_cons.mp hothers))

/-- What is read from a sound scan on is canonical. -/
theorem Sound.canonical_of_outcome {outer : Nat} {scan : Scan} {s : Text} {t : Tree}
    (hscan : Sound b scan) (h : scan.outcome b true outer s = .ok t) : Canonical b t := by
  obtain ⟨last, hlast, hfinish⟩ := outcome_eq_ok_iff.mp h
  have hsound : Sound b last := read_induction (motive := fun _ => Sound b)
    hscan (fun _ _ _ _ hscan => hscan.move) hlast
  rw [finish] at hfinish
  split at hfinish
  · cases hfinish
  · rw [← Except.ok.inj hfinish]
    exact hsound.canonical_toTree

/-- What a signature is read as is canonical, wherever the signature stands. -/
theorem canonical_of_outcome {afterStructural : Bool} {s : Text} {t : Tree}
    (h : outcome b true 0 { current := empty, ancestors := [], afterStructural } s = .ok t) :
    Canonical b t :=
  (sound_of_begin afterStructural).canonical_of_outcome h

/-! ## 2. Canonical trees are read back -/

theorem read_left (outer : Nat) (ancestors : List Tree) {afterStructural : Bool} (left : Text)
    (hs : b.Plain left) (hflush : afterStructural = true → left.Flush) :
    read b true outer { current := empty, ancestors, afterStructural } left = .ok
      { current := ⟨left, [], []⟩, ancestors,
        afterStructural := afterStructural && left.isEmpty } := by
  rw [read_text true outer empty ancestors false afterStructural hs hflush, empty,
    foldl_addChar_left, List.nil_append]

/-- Behind a group, the space that the compact layout puts in front of a text is passed over. -/
theorem read_right (outer : Nat) (ancestors : List Tree) (left : Text) (children : List Tree)
    (right : Text) (hs : b.Plain right) (hflush : right.Flush) :
    read b true outer
      { current := ⟨left, children, []⟩, ancestors, afterGroup := true, afterStructural := true }
      (Layout.compact.rightText right) = .ok
        { current := ⟨left, children, right⟩, ancestors, afterGroup := true,
          afterStructural := right.isEmpty } := by
  have h := read_text true outer ⟨left, children, []⟩ ancestors true true hs (fun _ => hflush)
  rw [foldl_addChar_right, List.nil_append, Bool.true_and] at h
  rw [Layout.rightText]
  -- an empty right text has no space in front of it
  split
  · rw [read_cons_of_move (.pass (by simp [passes])), h]
  · exact h

section

variable {skipBlanks : Bool} {outer : Nat} (hv : b.Visible)

include hv

theorem read_opening (scan : Scan) (s : Text) : scan.read b skipBlanks outer (b.opening :: s)
    = scan.openGroup.read b skipBlanks outer s := by
  have hrole := b.role_opening
  exact read_cons_of_move (.opening (passes_eq_false (fun _ => hv) (by simp [hrole])) hrole) s

variable (hd : b.Distinct)

include hd

theorem read_separator {scan : Scan} {parent : Tree} {rest : List Tree}
    (hscan : scan.ancestors = parent :: rest) (s : Text) :
    scan.read b skipBlanks outer (b.separator :: s) = read b skipBlanks outer
      { current := empty, ancestors := parent.addChild scan.current :: rest,
        afterStructural := true } s := by
  have hrole := hd.role_separator
  exact read_cons_of_move
    (.separator (passes_eq_false (fun _ => hv) (by simp [hrole])) hrole hscan) s

theorem read_closing {scan : Scan} {parent : Tree} {rest : List Tree}
    (hscan : scan.ancestors = parent :: rest) (houter : outer ≤ rest.length) (s : Text) :
    scan.read b skipBlanks outer (b.closing :: s) = read b skipBlanks outer
      { current := parent.addChild scan.current, ancestors := rest, afterGroup := true,
        afterStructural := true } s := by
  have hrole := hd.role_closing
  exact read_cons_of_move
    (.closing (passes_eq_false (fun _ => hv) (by simp [hrole])) hrole hscan houter) s

end

section

variable (hv : b.Visible) (hd : b.Distinct)

include hv hd

mutual

/-- Where a node begins, its compact text makes it the current node.  Only the outermost node may
begin with white space, when no structural character comes before it. -/
theorem exists_read_renderAt (outer level : Nat) : ∀ (t : Tree) (ancestors : List Tree)
    (afterStructural : Bool), Canonical b t → (afterStructural = true → t.left.Flush) →
    outer ≤ ancestors.length →
    ∃ afterGroup after, read b true outer { current := empty, ancestors, afterStructural }
      (renderAt b .compact level t) = .ok
        { current := t, ancestors, afterGroup, afterStructural := after }
  | ⟨left, [], right⟩, ancestors, afterStructural, ht, hflush, houter => by
    -- a leaf is its left text, since a right one would stand behind a group
    have hnode := (canonical_iff.mp ht).1
    have hright : right = [] := hnode.right_of_leaf rfl
    have h := read_left outer ancestors left hnode.left_plain hflush
    exact ⟨false, _, by simpa [renderAt, Layout.compact, Layout.indents, Layout.leftText,
      Layout.rightText, hright] using h⟩
  | ⟨left, child :: children, right⟩, ancestors, afterStructural, ht, hflush, houter => by
    obtain ⟨hnode, hin⟩ := canonical_iff.mp ht
    obtain ⟨⟨hchild, hchildFlush⟩, hchildren⟩ := canonicalIn_cons_iff.mp hin
    have hleft := read_left outer ancestors left hnode.left_plain hflush
    obtain ⟨afterGroup, after, hfirst⟩ := exists_read_renderAt outer (level + 1) child
      (⟨left, [], []⟩ :: ancestors) true hchild (fun _ => hchildFlush) (by simp; omega)
    obtain ⟨last, parent, _, _, hlast, hparent⟩ := exists_read_renderFurther outer (level + 1)
      children child ⟨left, [], []⟩ ancestors afterGroup after hchildren houter
    have hright := read_right outer ancestors left (child :: children) right
      hnode.right_plain hnode.right_flush
    refine ⟨true, right.isEmpty, ?_⟩
    -- the text falls into the parts that `hleft` to `hright` read, and brackets between them
    have htext : renderAt b .compact level ⟨left, child :: children, right⟩
        = left ++ b.opening :: (renderAt b .compact (level + 1) child ++
          (renderFurther b .compact (level + 1) children ++
            b.closing :: Layout.compact.rightText right)) := by
      simp [renderAt, renderRow, Layout.compact, Layout.indents, Layout.leftText,
        Layout.beforeGroup, Layout.afterGroup]
    rw [htext, read_append_of_read hleft, read_opening hv, openGroup, read_append_of_read hfirst,
      read_append_of_read hlast, read_closing hv hd rfl houter, hparent]
    exact hright

/-- Behind a first sibling, the text of the further ones hands all but the last to the parent. -/
theorem exists_read_renderFurther (outer level : Nat) : ∀ (ts : List Tree) (t parent : Tree)
    (rest : List Tree) (afterGroup afterStructural : Bool), CanonicalIn b ts →
    outer ≤ rest.length →
    ∃ last parent' afterGroup' after, read b true outer
      { current := t, ancestors := parent :: rest, afterGroup, afterStructural }
      (renderFurther b .compact level ts) = .ok
        { current := last, ancestors := parent' :: rest, afterGroup := afterGroup',
          afterStructural := after } ∧
      parent'.addChild last = ⟨parent.left, parent.children ++ t :: ts, parent.right⟩
  | [], t, parent, rest, afterGroup, afterStructural, hts, houter =>
    ⟨t, parent, afterGroup, afterStructural, rfl, rfl⟩
  | u :: us, t, parent, rest, afterGroup, afterStructural, hts, houter => by
    obtain ⟨⟨hu, huFlush⟩, hus⟩ := canonicalIn_cons_iff.mp hts
    obtain ⟨afterGroup', after, hnext⟩ := exists_read_renderAt outer level u
      (parent.addChild t :: rest) true hu (fun _ => huFlush) (by simp; omega)
    obtain ⟨last, parent', lastGroup, lastAfter, hlast, hparent⟩ := exists_read_renderFurther
      outer level us u (parent.addChild t) rest afterGroup' after hus houter
    refine ⟨last, parent', lastGroup, lastAfter, ?_, ?_⟩
    · -- the space behind the separator is passed over
      have hseparator : Layout.compact.betweenSiblings b = [b.separator, ' '] := rfl
      rw [renderFurther, hseparator, List.append_assoc, List.cons_append, read_separator hv hd rfl,
        List.cons_append, read_cons_of_move (.pass (by simp [passes])), List.nil_append,
        read_append_of_read hnext, hlast]
    · rw [hparent]
      simp [Tree.addChild]

end

end

end Scan

/-- The compact text of a canonical tree is read as this tree. -/
theorem parse_render_compact {b : Brackets} (hv : b.Visible) (hd : b.Distinct) {t : Tree}
    (ht : Canonical b t) : parse b true (t.render b .compact) = .ok t := by
  obtain ⟨afterGroup, after, h⟩ :=
    Scan.exists_read_renderAt hv hd 0 0 t [] false ht (by simp) (Nat.zero_le _)
  exact parse_eq_ok_iff.mpr (Scan.outcome_eq_ok_iff.mpr ⟨_, h, rfl⟩)

theorem canonical_of_parse {b : Brackets} {s : Text} {t : Tree} (h : parse b true s = .ok t) :
    Canonical b t :=
  Scan.canonical_of_outcome (parse_eq_ok_iff.mp h)

/-- In a list that does not begin with white space, no left text does. -/
theorem canonicalIn_of_parseList {b : Brackets} {s : Text} {root : Tree} (hs : s.Flush)
    (h : parseList b true s = .ok root) : CanonicalIn b root.children := by
  have hread := parseList_eq_ok_iff.mp h
  -- a bracket in front of the list would make no difference
  rw [← Scan.outcome_of_flush hs Scan.list true] at hread
  have hsound : Scan.Sound b { Scan.list with afterStructural := true } :=
    (Scan.sound_of_begin false).openGroup
  exact (canonical_iff.mp (hsound.canonical_of_outcome hread)).2

/-- **Exact image.**  The trees of signatures are the canonical ones, and each canonical tree is
that of its compact text. -/
theorem exists_parse_iff_canonical {b : Brackets} (hv : b.Visible) (hd : b.Distinct) (t : Tree) :
    ((∃ s, parse b true s = .ok t) ↔ Canonical b t) ∧
      (Canonical b t → parse b true (t.render b .compact) = .ok t) := by
  refine ⟨⟨?_, fun ht => ⟨_, parse_render_compact hv hd ht⟩⟩, parse_render_compact hv hd⟩
  rintro ⟨s, hs⟩
  exact canonical_of_parse hs

/-- White space in front of the root, a node without left text and an empty leaf all survive. -/
theorem exists_parse_iff_canonical_nested :
    Brackets.angle.Visible ∧ Brackets.angle.Distinct ∧
      Canonical .angle ⟨" a".toList, [⟨[], [leaf ['b']], "const".toList⟩, empty], ['&']⟩ ∧
      parse .angle true " a<<b> const, > &".toList
        = .ok ⟨" a".toList, [⟨[], [leaf ['b']], "const".toList⟩, empty], ['&']⟩ :=
  have h := exists_parse_iff_canonical Brackets.visible_angle Brackets.distinct_angle
    ⟨" a".toList, [⟨[], [leaf ['b']], "const".toList⟩, empty], ['&']⟩
  have hcanonical := h.1.mp ⟨" a<\t<b>const,>&".toList, rfl⟩
  ⟨Brackets.visible_angle, Brackets.distinct_angle, hcanonical, h.2 hcanonical⟩

end Tree

end TypeSignature
