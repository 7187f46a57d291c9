import TypeSignature.Cleaning
import TypeSignature.Proofs.Tree.Dropping
import TypeSignature.Proofs.Tree.Regrouping

/-!
# Cleaning — what cleaning without rules keeps

The empty rule set deletes, removes and replaces nothing, so cleaning a list by it reads the list,
trims the texts of the tree and spaces what is written of it.  White space apart, the outcome is
the ink of the tree.
-/

namespace TypeSignature

open Text

theorem removeNoise_empty (s : Text) : removeNoise .empty s = s := rfl

theorem finishText_empty (s : Text) : finishText .empty s = canonicalSpacing s := rfl

theorem Tree.prune_empty (t : Tree) : t.prune .empty = t.trimFragments :=
  filter_of_kept fun _ _ => rfl

/-- Without rules, cleaning a list writes its tree with trimmed texts, in canonical spacing. -/
theorem cleanList_empty_of_parseList {s : Text} {root : Tree}
    (h : Tree.parseList .angle true s = .ok root) : cleanList .empty s
      = .ok (canonicalSpacing (root.trimFragments.renderItems .angle .compact)) := by
  rw [cleanList, removeNoise_empty, h]
  show Except.ok (finishText .empty ((root.prune .empty).renderItems _ _)) = _
  rw [finishText_empty, Tree.prune_empty]

theorem exists_parseList_of_cleanList {r : RuleSet} {s out : Text} (h : cleanList r s = .ok out) :
    ∃ root, Tree.parseList .angle true (removeNoise r s) = .ok root := by
  unfold cleanList at h
  cases hroot : Tree.parseList .angle true (removeNoise r s) with
  | error fault => simp [hroot] at h
  | ok root => exact ⟨root, rfl⟩

/-- White space apart, what is written of a list with trimmed texts is the ink of its items. -/
theorem nonblank_canonicalSpacing_renderItems (root : Tree) :
    nonblank (canonicalSpacing (root.trimFragments.renderItems .angle .compact))
      = Tree.inkRow .angle root.children := by
  have hindent : ∀ c ∈ Layout.compact.indentUnit, isBlank c = true := by simp [Layout.compact]
  rw [nonblank_canonicalSpacing, Tree.nonblank_renderItems Brackets.visible_angle hindent,
    Tree.trimFragments, Tree.children_mapText, Tree.inkRow_mapTextIn nonblank_trimSpaces]

/-- **Conservation.**  Cleaning a list without rules loses one character, white space apart, each
time a group opens again behind a closed one, as in `A<int>::B<char>`.  So it keeps all of them in
order exactly when no group does. -/
theorem nonblank_cleanList_empty_iff {s out : Text} (h : cleanList .empty s = .ok out) :
    out.nonblank.length + Brackets.angle.reopenings false s = s.nonblank.length ∧
      (out.nonblank = s.nonblank ↔ Brackets.angle.reopenings false s = 0) := by
  obtain ⟨root, hroot⟩ := exists_parseList_of_cleanList h
  rw [removeNoise_empty] at hroot
  obtain ⟨hlength, hclosed⟩ :=
    Tree.inkRow_of_parseList Brackets.visible_angle Brackets.distinct_angle hroot
  rw [cleanList_empty_of_parseList hroot, Except.ok.injEq] at h
  have hout : out.nonblank = Tree.inkRow .angle root.children := by
    rw [← h, nonblank_canonicalSpacing_renderItems]
  rw [hout]
  -- equal texts are equally long, so no character was lost
  refine ⟨hlength, fun heq => ?_, hclosed⟩
  rw [heq] at hlength
  exact Nat.add_eq_left.mp hlength

/-- Nested groups and texts behind groups are kept. -/
theorem nonblank_cleanList_empty_iff_nested :
    cleanList .empty "a < b<c>const&,d >*".toList = .ok "a<b<c> const &, d> *".toList ∧
      nonblank "a<b<c> const &, d> *".toList = nonblank "a < b<c>const&,d >*".toList := by
  have hroot : Tree.parseList .angle true "a < b<c>const&,d >*".toList
      = .ok ⟨[], [⟨"a ".toList, [⟨['b'], [.leaf ['c']], "const&".toList⟩, .leaf "d ".toList],
          ['*']⟩], []⟩ := rfl
  have hclean : cleanList .empty "a < b<c>const&,d >*".toList
      = .ok "a<b<c> const &, d> *".toList := by
    rw [cleanList_empty_of_parseList hroot]
    exact congrArg Except.ok (by decide)
  exact ⟨hclean, (nonblank_cleanList_empty_iff hclean).2.mpr (by decide)⟩

/-- The arguments of a member template join the group of the template that it belongs to. -/
theorem cleanList_empty_regroups :
    cleanList .empty "A<int>::B<char>".toList = .ok "A<int, char> ::B".toList ∧
      nonblank "A<int, char> ::B".toList ≠ nonblank "A<int>::B<char>".toList := by
  have hroot : Tree.parseList .angle true "A<int>::B<char>".toList
      = .ok ⟨[], [⟨['A'], [.leaf "int".toList, .leaf "char".toList], "::B".toList⟩], []⟩ := rfl
  refine ⟨?_, by decide⟩
  rw [cleanList_empty_of_parseList hroot]
  exact congrArg Except.ok (by decide)

end TypeSignature
