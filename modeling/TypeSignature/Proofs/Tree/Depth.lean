import Mathlib.Order.Bounds.Basic
import TypeSignature.Cleaning
import TypeSignature.Proofs.Tree.Balance

/-!
# Depth — a tree is as deep as its text nests

A bracket that opens hangs an empty node below the current one, and no other move makes the tree of
all that was read deeper.  The level of the current node is the number of brackets that are open, so
the tree is as deep as the text nests at its deepest point.  Laying a text out when its tree is too
deep is therefore laying it out when its brackets nest too deep.
-/

namespace TypeSignature

/-- How deep the text nests behind each of its prefixes. -/
def Brackets.nestings (b : Brackets) (s : Text) : Set Int :=
  {n | ∃ before, before <+: s ∧ b.nesting before = n}

namespace Brackets

theorem nestings_nil (b : Brackets) : b.nestings [] = {0} := by
  ext n
  simp [nestings, eq_comm]

theorem nestings_concat (b : Brackets) (s : Text) (c : Char) :
    b.nestings (s ++ [c]) = insert (b.nesting (s ++ [c])) (b.nestings s) := by
  ext n
  constructor
  · rintro ⟨before, hbefore, rfl⟩
    rcases List.prefix_concat_iff.mp hbefore with rfl | hbefore
    · exact .inl rfl
    · exact .inr ⟨before, hbefore, rfl⟩
  · rintro (rfl | ⟨before, hbefore, rfl⟩)
    · exact ⟨s ++ [c], List.prefix_rfl, rfl⟩
    · exact ⟨before, hbefore.trans (List.prefix_append s [c]), rfl⟩

end Brackets

namespace Tree

variable {b : Brackets} {skipBlanks inList : Bool} {s : Text} {t root : Tree}

/-! ## 1. What a move does to the depth -/

theorem depth_addChild (t child : Tree) :
    (t.addChild child).depth = max t.depth (child.depth + 1) := by
  rw [depth_eq, depth_eq t, addChild, levels_append, levels, levels, Nat.max_zero]

theorem depth_empty : empty.depth = 0 := rfl

theorem depth_addChar (t : Tree) (afterGroup : Bool) (c : Char) :
    (t.addChar afterGroup c).depth = t.depth := by
  rw [depth_eq, depth_eq t, addChar]
  split <;> rfl

namespace Scan

/-- The nodes around the current one count for the depth in a way that does not depend on it. -/
theorem exists_depth_foldl (ancestors : List Tree) : ∃ around, ∀ current : Tree,
    (ancestors.foldl (fun child parent => parent.addChild child) current).depth
      = max (current.depth + ancestors.length) around := by
  induction ancestors with
  | nil => exact ⟨0, fun current => by simp⟩
  | cons parent rest ih =>
    obtain ⟨around, haround⟩ := ih
    refine ⟨max (parent.depth + rest.length) around, fun current => ?_⟩
    rw [List.foldl_cons, haround, depth_addChild, List.length_cons]
    omega

theorem length_ancestors_le_depth (scan : Scan) : scan.ancestors.length ≤ scan.toTree.depth := by
  obtain ⟨around, haround⟩ := exists_depth_foldl scan.ancestors
  rw [toTree, haround]
  omega

/-- A move makes the tree no deeper than the level it leads to. -/
theorem depth_toTree_of_move {outer : Nat} {scan next : Scan} {c : Char}
    (h : Move b skipBlanks outer scan c next) :
    next.toTree.depth = max scan.toTree.depth next.ancestors.length := by
  have hlevel := scan.length_ancestors_le_depth
  cases h with
  | pass => exact (Nat.max_eq_left hlevel).symm
  | opening =>
    -- the fresh child stands one level below the node that was current
    obtain ⟨around, haround⟩ := exists_depth_foldl scan.ancestors
    rw [toTree, toTree, openGroup, List.foldl_cons, haround, haround, depth_addChild, depth_empty,
      List.length_cons]
    omega
  | @separator _ _ parent rest hscan =>
    -- a sibling of the node that was current is as deep as that node was at least
    obtain ⟨around, haround⟩ := exists_depth_foldl rest
    rw [toTree, hscan, List.length_cons, List.foldl_cons, haround] at hlevel
    rw [toTree, toTree, hscan, List.foldl_cons, List.foldl_cons, haround, haround, depth_addChild,
      depth_empty, List.length_cons]
    rw [depth_addChild] at hlevel ⊢
    omega
  | @closing _ _ parent rest hscan _ =>
    -- the tree hands the current node over as well
    have hsame : scan.toTree = toTree
        { current := parent.addChild scan.current, ancestors := rest, afterGroup := true,
          afterStructural := true } := by
      rw [toTree, hscan]
      rfl
    rw [hscan, List.length_cons] at hlevel
    rw [hsame] at hlevel ⊢
    exact (Nat.max_eq_left (Nat.le_of_succ_le hlevel)).symm
  | text =>
    obtain ⟨around, haround⟩ := exists_depth_foldl scan.ancestors
    rw [toTree, addText, haround, depth_addChar, ← haround, ← toTree]
    exact (Nat.max_eq_left hlevel).symm

/-! ## 2. What a text does to the depth -/

/-- The root of a list counts as one level. -/
theorem isGreatest_depth_of_read (hb : skipBlanks = true → b.Visible) {last : Scan}
    (h : (start inList).read b skipBlanks inList.toNat s = .ok last) :
    IsGreatest (b.nestings s) (last.toTree.depth - inList.toNat : Int) := by
  induction s using List.reverseRecOn generalizing last with
  | nil =>
    cases h
    have hdepth : (start inList).toTree.depth = inList.toNat := by cases inList <;> rfl
    rw [hdepth, Int.sub_self, Brackets.nestings_nil]
    exact isGreatest_singleton
  | append_singleton s c ih =>
    obtain ⟨mid, hmid, hmove⟩ := read_concat_eq_ok_iff.mp h
    have hlength := (length_ancestors_of_read hb h).2
    have hdepth := depth_toTree_of_move hmove
    have hmax : (last.toTree.depth - inList.toNat : Int)
        = max (b.nesting (s ++ [c])) (mid.toTree.depth - inList.toNat) := by omega
    rw [hmax, Brackets.nestings_concat]
    exact (ih hmid).insert _

theorem isGreatest_depth_of_answer (hb : skipBlanks = true → b.Visible)
    (h : answer b skipBlanks inList s = .ok t) :
    IsGreatest (b.nestings s) (t.depth - inList.toNat : Int) := by
  obtain ⟨last, hread, hfinish⟩ := outcome_eq_ok_iff.mp (run_eq_ok_iff.mp h)
  rw [finish] at hfinish
  split at hfinish
  · cases hfinish
  · rw [← Except.ok.inj hfinish]
    exact isGreatest_depth_of_read hb hread

end Scan

/-! ## 3. The depth of one signature and of a list -/

theorem isGreatest_depth_of_parse (hb : skipBlanks = true → b.Visible)
    (h : parse b skipBlanks s = .ok t) : IsGreatest (b.nestings s) (t.depth : Int) := by
  have hanswer : Scan.answer b skipBlanks false s = .ok t := h
  simpa using Scan.isGreatest_depth_of_answer hb hanswer

theorem isGreatest_depth_of_parseList (hb : skipBlanks = true → b.Visible)
    (h : parseList b skipBlanks s = .ok root) :
    IsGreatest (b.nestings s) (root.depth - 1 : Int) := by
  have hanswer : Scan.answer b skipBlanks true s = .ok root := h
  exact Scan.isGreatest_depth_of_answer hb hanswer

end Tree

theorem layOut_of_parseList {s : Text} {root : Tree} (h : Tree.parseList .angle true s = .ok root) :
    layOut s = .ok (root.renderItems .angle .indented) := by
  rw [layOut, h]

theorem layOutIfDeep_of_parseList {r : RuleSet} {s : Text} {root : Tree}
    (hr : r.indentLimit ≠ 0) (h : Tree.parseList .angle true s = .ok root) :
    layOutIfDeep r s = if r.indentLimit.toNat + 1 < root.depth then layOut s else .ok s := by
  simp only [layOutIfDeep, if_neg hr, h, layOut_of_parseList h]
  split <;> rfl

/-- **Depth is nesting.**  One signature is as deep as its brackets nest, a list one level deeper,
and so a list is laid out exactly when its brackets nest deeper than the limit. -/
theorem depth_of_nesting (s : Text) :
    (∀ t, Tree.parse .angle true s = .ok t →
      IsGreatest (Brackets.angle.nestings s) (t.depth : Int)) ∧
    ∀ root, Tree.parseList .angle true s = .ok root →
      IsGreatest (Brackets.angle.nestings s) (root.depth - 1 : Int) ∧
      ∀ r : RuleSet, r.indentLimit ≠ 0 →
        ∀ deepest : Int, IsGreatest (Brackets.angle.nestings s) deepest →
          layOutIfDeep r s = if r.indentLimit.toNat < deepest then layOut s else .ok s := by
  have hvisible : true = true → Brackets.angle.Visible := fun _ => Brackets.visible_angle
  refine ⟨fun t ht => Tree.isGreatest_depth_of_parse hvisible ht, fun root hroot => ?_⟩
  have hdepth := Tree.isGreatest_depth_of_parseList hvisible hroot
  refine ⟨hdepth, fun r hr deepest hdeepest => ?_⟩
  have hsame : deepest = root.depth - 1 := hdeepest.unique hdepth
  have hdeep : r.indentLimit.toNat + 1 < root.depth ↔ (r.indentLimit.toNat : Int) < deepest := by
    omega
  rw [layOutIfDeep_of_parseList hr hroot]
  simp only [hdeep]

/-- An empty group is a level, and a group that opens again adds none. -/
theorem depth_of_nesting_reopened :
    Tree.parse .angle true "a<b<>>c<d>".toList
      = .ok ⟨['a'], [⟨['b'], [.empty], []⟩, .leaf ['d']], ['c']⟩ ∧
    Tree.parseList .angle true "a<b<>>c<d>".toList
      = .ok ⟨[], [⟨['a'], [⟨['b'], [.empty], []⟩, .leaf ['d']], ['c']⟩], []⟩ ∧
    IsGreatest (Brackets.angle.nestings "a<b<>>c<d>".toList) 2 ∧
    layOutIfDeep { RuleSet.empty with indentLimit := 1 } "a<b<>>c<d>".toList
      = .ok "a<\n    b<\n        \n    >,\n    d\n> c".toList ∧
    layOutIfDeep { RuleSet.empty with indentLimit := 2 } "a<b<>>c<d>".toList
      = .ok "a<b<>>c<d>".toList := by
  have hparse : Tree.parse .angle true "a<b<>>c<d>".toList
      = .ok ⟨['a'], [⟨['b'], [.empty], []⟩, .leaf ['d']], ['c']⟩ := rfl
  have hlist : Tree.parseList .angle true "a<b<>>c<d>".toList
      = .ok ⟨[], [⟨['a'], [⟨['b'], [.empty], []⟩, .leaf ['d']], ['c']⟩], []⟩ := rfl
  obtain ⟨hsignature, hroot⟩ := depth_of_nesting "a<b<>>c<d>".toList
  have hdeepest : IsGreatest (Brackets.angle.nestings "a<b<>>c<d>".toList) 2 := hsignature _ hparse
  have hlimit := (hroot _ hlist).2
  refine ⟨hparse, hlist, hdeepest, ?_, ?_⟩
  · rw [hlimit _ (by decide) 2 hdeepest, if_pos (by decide), layOut_of_parseList hlist]
    rfl
  · rw [hlimit _ (by decide) 2 hdeepest, if_neg (by decide)]

end TypeSignature
