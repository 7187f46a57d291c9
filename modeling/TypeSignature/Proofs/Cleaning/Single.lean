import TypeSignature.Proofs.Acceptance
import TypeSignature.Proofs.Cleaning.Items

/-!
# Single — a list of one signature

A text that is read as one signature is also read as a list, and the signature is the list's only
item.  Names are undesirable as arguments, so pruning never tests the root of a tree.  The signature
itself is such a root, but in the list it hangs below one.  There it is taken for an argument, and
lost if its own name is undesirable.
-/

namespace TypeSignature

open Text

theorem Tree.parseList_of_parse {b : Brackets} (hv : b.Visible) (hd : b.Distinct) {s : Text}
    {t : Tree} (h : parse b true s = .ok t) : parseList b true s = .ok ⟨[], [t], []⟩ := by
  have hlevel : b.levelAfter false 0 s = some 0 := (exists_parse_iff fun _ => hv).mp ⟨t, h⟩
  apply (parseList_eq_ok_iff_outcomes hv hd).mpr
  rw [hd.piecesFrom_of_uncut (hd.uncutAfter_of_level hlevel)]
  constructor
  · exact Scan.outcomes_cons_eq_ok_iff.mpr ⟨t, [], parse_eq_ok_iff.mp h, rfl, rfl⟩
  · rfl

theorem substitute_nil (entries : List (Text × Text)) : substitute entries [] = [] := by
  apply substitute_induction (motive := fun s => s = [])
  · rintro e - s rfl
    unfold Text.replace
    split
    · rfl
    · rfl
  · rfl

theorem finishText_nil (r : RuleSet) : finishText r [] = [] := by
  rw [finishText, apply_eq_substitute, substitute_nil]
  rfl

variable {r : RuleSet} {s out : Text} {t : Tree}

theorem Tree.children_prune_singleton (r : RuleSet) (t : Tree) :
    ((⟨[], [t], []⟩ : Tree).prune r).children
      = if r.isUndesirable (trimSpaces t.left) then [] else [t.prune r] := by
  rw [prune, dropUndesirable, children_filter, trimFragments, children_mapText, mapTextIn,
    mapTextIn, filterIn, filterIn, left_mapText, trimSpaces_trimSpaces]
  cases r.isUndesirable (trimSpaces t.left) with
  | true => rfl
  | false => rfl

theorem finishText_prune_singleton (r : RuleSet) (t : Tree) :
    finishText r (((⟨[], [t], []⟩ : Tree).prune r).renderItems .angle .compact)
      = if r.isUndesirable (trimSpaces t.left) then [] else finishSignature r t := by
  rw [Tree.renderItems, Tree.children_prune_singleton]
  by_cases hname : r.isUndesirable (trimSpaces t.left)
  · rw [if_pos hname, if_pos hname]
    exact finishText_nil r
  · rw [if_neg hname, if_neg hname, Tree.renderRow, Tree.renderFurther, List.append_nil]
    rfl

/-- **One signature.**  What is accepted as a signature is accepted as a list, and nothing is left
of it there when the name of the signature itself is undesirable.  So the two come out the same
exactly when that name is not, or when there was nothing to lose. -/
theorem cleanList_of_cleanSignature (h : cleanSignature r s = .ok out) :
    ∃ t, Tree.parse .angle true (removeNoise r s) = .ok t ∧
      cleanList r s = .ok (if r.isUndesirable (trimSpaces t.left) then [] else out) ∧
      (cleanList r s = cleanSignature r s ↔
        (r.isUndesirable (trimSpaces t.left) = true → out = [])) := by
  cases hread : Tree.parse .angle true (removeNoise r s) with
  | error fault =>
    rw [cleanSignature, hread] at h
    cases h
  | ok t =>
    have hlist := Tree.parseList_of_parse Brackets.visible_angle Brackets.distinct_angle hread
    have hout : finishSignature r t = out :=
      Except.ok.inj ((cleanSignature_of_parse hread).symm.trans h)
    have hclean : cleanList r s
        = .ok (if r.isUndesirable (trimSpaces t.left) then [] else out) := by
      rw [← hout, ← finishText_prune_singleton, cleanList, hlist]
    refine ⟨t, rfl, hclean, ?_⟩
    rw [hclean, h, Except.ok.injEq]
    by_cases hname : r.isUndesirable (trimSpaces t.left)
    · rw [if_pos hname]
      exact ⟨fun hnil _ => hnil.symm, fun hnil => (hnil hname).symm⟩
    · rw [if_neg hname]
      exact ⟨fun _ hundesirable => absurd hundesirable hname, fun _ => rfl⟩

/-- The signature loses an argument and is kept itself, since a tab belongs to its name. -/
theorem cleanList_of_cleanSignature_argument :
    cleanSignature .default "std::less\t< class A ,std::less<A>> const&".toList
      = .ok "std::less <A> const &".toList ∧
    cleanList .default "std::less\t< class A ,std::less<A>> const&".toList
      = .ok "std::less <A> const &".toList := by
  have hclean : cleanSignature .default "std::less\t< class A ,std::less<A>> const&".toList
      = .ok "std::less <A> const &".toList := by decide +kernel
  have htree : Tree.parse .angle true
      (removeNoise .default "std::less\t< class A ,std::less<A>> const&".toList)
        = .ok ⟨"std::less\t".toList, [.leaf "A ".toList, ⟨"std::less".toList, [.leaf ['A']], []⟩],
          "const&".toList⟩ := rfl
  obtain ⟨t, ht, hlist, -⟩ := cleanList_of_cleanSignature hclean
  rw [htree] at ht
  cases ht
  exact ⟨hclean, hlist⟩

/-- An allocator that is nobody's argument is kept as a signature and lost from a list. -/
theorem cleanList_ne_cleanSignature :
    cleanSignature .default "std::allocator<int>".toList = .ok "std::allocator<int>".toList ∧
      cleanList .default "std::allocator<int>".toList = .ok [] ∧
      cleanList .default "std::allocator<int>".toList
        ≠ cleanSignature .default "std::allocator<int>".toList := by
  have hsignature : cleanSignature .default "std::allocator<int>".toList
      = .ok "std::allocator<int>".toList := by decide +kernel
  have hlist : cleanList .default "std::allocator<int>".toList = .ok [] := by decide +kernel
  refine ⟨hsignature, hlist, ?_⟩
  rw [hsignature, hlist]
  decide

end TypeSignature
