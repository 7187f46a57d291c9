import TypeSignature.Proofs.Canonical
import TypeSignature.Proofs.Tree.Dropping
import TypeSignature.Proofs.Tree.Walking

/-!
# Commuting — the passes over a tree in any order

Removal looks at the left text of a node only, and trims it once more.  So it does not see whether
the texts were trimmed before, nor whether nodes below were removed: two removals are one, by either
list first, and trimming may come before or after.
-/

namespace TypeSignature.Tree

variable {a b ab : RuleSet}

theorem isUndesirable_of_append (h : ab.undesirable = a.undesirable ++ b.undesirable)
    (name : Text) : ab.isUndesirable name = (a.isUndesirable name || b.isUndesirable name) := by
  unfold RuleSet.isUndesirable
  rw [h, List.contains_append]

theorem dropUndesirable_dropUndesirable
    (h : ∀ name, ab.isUndesirable name = (a.isUndesirable name || b.isUndesirable name))
    (t : Tree) : (t.dropUndesirable a).dropUndesirable b = t.dropUndesirable ab := by
  have hsame : ∀ u : Tree, (!b.isUndesirable (Text.trimSpaces (u.filter fun node =>
      !a.isUndesirable (Text.trimSpaces node.left)).left))
        = !b.isUndesirable (Text.trimSpaces u.left) := by
    intro u
    rw [left_filter]
  unfold dropUndesirable
  rw [filter_filter_and hsame]
  simp only [h, Bool.not_or]

theorem trimFragments_dropUndesirable (r : RuleSet) (t : Tree) :
    t.trimFragments.dropUndesirable r = (t.dropUndesirable r).trimFragments := by
  unfold trimFragments dropUndesirable
  apply filter_mapText
  intro u
  rw [left_mapText, Text.trimSpaces_trimSpaces]

/-- **Commuting passes.**  Removing by one list and then by another removes by the two lists at
once, and trimming, a walk that visits children first, may come before or after. -/
theorem dropUndesirable_trimFragments_commute
    (h : ab.undesirable = a.undesirable ++ b.undesirable) (t : Tree) :
    (t.dropUndesirable a).dropUndesirable b = t.dropUndesirable ab ∧
    (t.dropUndesirable b).dropUndesirable a = t.dropUndesirable ab ∧
    t.trimFragments = (transform .trimming .childrenFirst t ()).1 ∧
    ∀ r, t.trimFragments.dropUndesirable r = (t.dropUndesirable r).trimFragments := by
  have hnames := isUndesirable_of_append h
  refine ⟨dropUndesirable_dropUndesirable hnames t, ?_, (transform_trimming .childrenFirst t).symm,
    fun r => trimFragments_dropUndesirable r t⟩
  apply dropUndesirable_dropUndesirable
  intro name
  rw [hnames, Bool.or_comm]

/-- The names stand with spaces around them, and one of them below the other. -/
theorem dropUndesirable_trimFragments_commute_nested :
    ({ RuleSet.empty with undesirable := [['x'], ['y']] } : RuleSet).undesirable
      = ({ RuleSet.empty with undesirable := [['x']] } : RuleSet).undesirable
        ++ ({ RuleSet.empty with undesirable := [['y']] } : RuleSet).undesirable ∧
    (dropUndesirable { RuleSet.empty with undesirable := [['x']] }
        ⟨['a'], [⟨" y ".toList, [leaf ['x']], []⟩, ⟨['b'], [leaf " x".toList], []⟩], []⟩
      ).dropUndesirable { RuleSet.empty with undesirable := [['y']] }
      = ⟨['a'], [leaf ['b']], []⟩ := by
  have happend : ({ RuleSet.empty with undesirable := [['x'], ['y']] } : RuleSet).undesirable
      = ({ RuleSet.empty with undesirable := [['x']] } : RuleSet).undesirable
        ++ ({ RuleSet.empty with undesirable := [['y']] } : RuleSet).undesirable := rfl
  refine ⟨happend, ?_⟩
  rw [(dropUndesirable_trimFragments_commute happend _).1]
  rfl

end TypeSignature.Tree
