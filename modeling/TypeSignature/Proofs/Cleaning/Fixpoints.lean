import TypeSignature.Proofs.Cleaning.Display

/-!
# Fixpoints — when a normalized list is normal

Deleting noise, removing undesirable arguments and replacing names take ink away, and nothing puts
ink back.  So a list comes back from normalizing unchanged only if there was nothing to delete, to
remove and to replace.  The built-in rules do not see to that: what one deletion joins together may
be noise again.
-/

namespace TypeSignature

open Text

/-- Every deletion and replacement takes ink away, and what is removed has ink. -/
structure RuleSet.Shrinking (r : RuleSet) : Prop where
  noise : ∀ e ∈ r.deletions, e.2.nonblank.length < e.1.nonblank.length
  replacements : ∀ e ∈ r.replacements.entries, e.2.nonblank.length < e.1.nonblank.length
  undesirable : ∀ name ∈ r.undesirable, name.nonblank ≠ []

/-- A list whose tree is `root` leaves the rules nothing to delete, to remove or to replace. -/
structure NothingLeft (r : RuleSet) (root : Tree) (s : Text) : Prop where
  noise : ∀ text ∈ r.namespaces ++ r.keywords ++ r.custom, ¬ text <:+: s
  undesirable : ∀ node ∈ root.descendants, r.isUndesirable (trimSpaces node.left) = false
  replacements : ∀ e ∈ r.replacements.entries,
    ¬ e.1 <:+: root.trimFragments.renderItems .angle .compact

variable {r : RuleSet} {root : Tree} {s : Text}

theorem NothingLeft.removeNoise_eq (h : NothingLeft r root s) : removeNoise r s = s := by
  rw [removeNoise_eq_substitute]
  refine substitute_of_absent fun e he => ?_
  obtain ⟨text, htext, rfl⟩ := List.mem_map.mp he
  exact h.noise text htext

theorem mem_descendants_trimFragments {u : Tree} :
    u ∈ root.trimFragments.descendants ↔ ∃ v ∈ root.descendants, v.mapText trimSpaces = u := by
  rw [Tree.descendants, Tree.trimFragments, Tree.children_mapText, Tree.preorderIn_mapTextIn,
    List.mem_map]
  rfl

/-- No descendant has an undesirable name, whether its texts have been trimmed or not. -/
theorem forall_descendants_trimFragments :
    (∀ u ∈ root.trimFragments.descendants, (!r.isUndesirable (trimSpaces u.left)) = true) ↔
      ∀ node ∈ root.descendants, r.isUndesirable (trimSpaces node.left) = false := by
  simp only [mem_descendants_trimFragments, forall_exists_index, and_imp,
    forall_apply_eq_imp_iff₂, Tree.left_mapText, trimSpaces_trimSpaces, Bool.not_eq_true']

theorem NothingLeft.prune_eq (h : NothingLeft r root s) : root.prune r = root.trimFragments :=
  Tree.filter_of_kept (forall_descendants_trimFragments.mpr h.undesirable)

theorem finishList_of_nothingLeft (h : NothingLeft r root s) : finishList r root
    = placeConst r (canonicalSpacing (root.trimFragments.renderItems .angle .compact)) := by
  rw [finishList, finishText, h.prune_eq, apply_eq_substitute,
    substitute_of_absent h.replacements]

/-! ## 1. Each pass finds nothing or takes ink away -/

theorem noNoise_or_lt (hr : r.Shrinking) (s : Text) :
    (∀ text ∈ r.namespaces ++ r.keywords ++ r.custom, ¬ text <:+: s) ∧ removeNoise r s = s ∨
      (removeNoise r s).nonblank.length < s.nonblank.length := by
  have hnoise := absent_or_substitute_lt hr.noise s
  rw [← removeNoise_eq_substitute] at hnoise
  refine hnoise.imp_left fun h => ⟨fun text htext => ?_, h.2⟩
  exact h.1 (text, []) (List.mem_map_of_mem htext)

/-- An undesirable name is ink of its node. -/
theorem ink_ne_nil_of_undesirable (hr : r.Shrinking) {t : Tree}
    (h : (!r.isUndesirable (trimSpaces t.left)) = false) : Tree.ink .angle t ≠ [] := by
  obtain ⟨left, children, right⟩ := t
  rw [Bool.not_eq_false', RuleSet.isUndesirable, List.contains_iff_mem] at h
  have hname := hr.undesirable _ h
  rw [nonblank_trimSpaces] at hname
  intro hnil
  rw [Tree.ink, List.append_assoc, List.append_eq_nil_iff] at hnil
  exact hname hnil.1

theorem inkRow_trimFragments (t : Tree) :
    Tree.inkRow .angle t.trimFragments.children = Tree.inkRow .angle t.children := by
  rw [Tree.trimFragments, Tree.children_mapText, Tree.inkRow_mapTextIn nonblank_trimSpaces]

theorem desirable_or_lt (hr : r.Shrinking) (root : Tree) :
    (∀ node ∈ root.descendants, r.isUndesirable (trimSpaces node.left) = false) ∧
        root.prune r = root.trimFragments ∨
      (Tree.inkRow .angle (root.prune r).children).length
        < (Tree.inkRow .angle root.children).length := by
  rcases Tree.kept_or_inkRow_lt (fun _ => ink_ne_nil_of_undesirable hr)
    root.trimFragments.children with hkept | hlt
  · exact .inl ⟨forall_descendants_trimFragments.mp hkept, Tree.filter_of_kept hkept⟩
  · right
    rwa [← Tree.children_filter, inkRow_trimFragments] at hlt

theorem length_nonblank_placeConst (r : RuleSet) (s : Text) :
    (placeConst r s).nonblank.length = s.nonblank.length := by
  rw [placeConst]
  split
  · exact length_nonblank_eastConstList s
  · rfl

theorem unreplaced_or_lt (hr : r.Shrinking) (root : Tree) :
    (∀ e ∈ r.replacements.entries, ¬ e.1 <:+: (root.prune r).renderItems .angle .compact) ∧
        (finishList r root).nonblank.length
          = (Tree.inkRow .angle (root.prune r).children).length ∨
      (finishList r root).nonblank.length
        < (Tree.inkRow .angle (root.prune r).children).length := by
  have hfinish : (finishList r root).nonblank.length = (substitute r.replacements.entries
      ((root.prune r).renderItems .angle .compact)).nonblank.length := by
    rw [finishList, length_nonblank_placeConst, finishText, nonblank_canonicalSpacing,
      apply_eq_substitute]
  have hink := Tree.nonblank_renderItems Brackets.visible_angle (o := .compact)
    (by simp [Layout.compact]) (root.prune r)
  rw [hfinish, ← hink]
  exact (absent_or_substitute_lt hr.replacements _).imp_left fun h => ⟨h.1, by rw [h.2]⟩

/-- A list leaves nothing to do, or loses ink. -/
theorem nothingLeft_or_lt (hr : r.Shrinking)
    (h : Tree.parseList .angle true (removeNoise r s) = .ok root) :
    NothingLeft r root s ∨ (finishList r root).nonblank.length < s.nonblank.length := by
  have hread := (Tree.inkRow_of_parseList Brackets.visible_angle Brackets.distinct_angle h).1
  have hnoise := noNoise_or_lt hr s
  have hprune := desirable_or_lt hr root
  have hreplace := unreplaced_or_lt hr root
  -- no pass puts ink in
  have hnoiseLe : (removeNoise r s).nonblank.length ≤ s.nonblank.length :=
    hnoise.elim (fun hclean => by rw [hclean.2]) Nat.le_of_lt
  have hpruneLe : (Tree.inkRow .angle (root.prune r).children).length
      ≤ (Tree.inkRow .angle root.children).length :=
    hprune.elim (fun hkept => by rw [hkept.2, inkRow_trimFragments]) Nat.le_of_lt
  have hreplaceLe : (finishList r root).nonblank.length
      ≤ (Tree.inkRow .angle (root.prune r).children).length :=
    hreplace.elim (fun hkept => Nat.le_of_eq hkept.2) Nat.le_of_lt
  -- so a pass that finds something to do loses ink for good
  rcases hnoise with ⟨hclean, -⟩ | hlost
  · rcases hprune with ⟨hdesirable, hpruned⟩ | hlost
    · rcases hreplace with ⟨habsent, -⟩ | hlost
      · rw [hpruned] at habsent
        exact .inl ⟨hclean, hdesirable, habsent⟩
      · right
        omega
    · right
      omega
  · right
    omega

/-- A list is its own normal form exactly when it leaves the rules nothing to do and is written as
its tree is. -/
theorem normalize_eq_self_iff (hr : r.Shrinking) (h : Tree.parseList .angle true s = .ok root) :
    normalize r s = .ok s ↔ NothingLeft r root s ∧
      placeConst r (canonicalSpacing (root.trimFragments.renderItems .angle .compact)) = s := by
  constructor
  · intro hsame
    obtain ⟨cleaned, hcleaned, hfinish⟩ := normalize_eq_ok_iff.mp hsame
    have hnothing : NothingLeft r cleaned s := by
      refine (nothingLeft_or_lt hr hcleaned).resolve_right fun hlost => ?_
      rw [hfinish] at hlost
      exact Nat.lt_irrefl _ hlost
    -- without noise, the tree of the cleaned text is the tree of the text
    rw [hnothing.removeNoise_eq, h] at hcleaned
    cases hcleaned
    exact ⟨hnothing, (finishList_of_nothingLeft hnothing).symm.trans hfinish⟩
  · rintro ⟨hnothing, hsame⟩
    rw [← hnothing.removeNoise_eq] at h
    exact normalize_eq_ok_iff.mpr ⟨root, h, (finishList_of_nothingLeft hnothing).trans hsame⟩

/-! ## 2. The built-in rules -/

/-- The default rules, with `const` moved or left where it is. -/
def RuleSet.builtIn (eastConst : Bool) : RuleSet := { RuleSet.default with eastConst }

theorem shrinking_builtIn (eastConst : Bool) : (RuleSet.builtIn eastConst).Shrinking where
  noise := by
    show ∀ e ∈ RuleSet.default.deletions, e.2.nonblank.length < e.1.nonblank.length
    decide
  replacements := by
    show ∀ e ∈ RuleSet.default.replacements.entries, e.2.nonblank.length < e.1.nonblank.length
    decide
  undesirable := by
    show ∀ name ∈ RuleSet.default.undesirable, name.nonblank ≠ []
    decide

theorem balanced_builtIn (eastConst : Bool) : (RuleSet.builtIn eastConst).Balanced := by
  show ∀ e ∈ RuleSet.default.replacements.entries,
    Brackets.angle.levelAfter true 0 e.1 = some 0 ∧ Brackets.angle.levelAfter true 0 e.2 = some 0
  decide

/-- Deleting the built-in noise keeps the count of open brackets. -/
theorem levelAfter_removeNoise_builtIn (eastConst : Bool) (depth : Nat) (s : Text) :
    Brackets.angle.levelAfter true depth (removeNoise (.builtIn eastConst) s)
      = Brackets.angle.levelAfter true depth s := by
  have hdeletions : ∀ e ∈ RuleSet.default.deletions,
      Brackets.angle.levelAfter true 0 e.1 = some 0 ∧
        Brackets.angle.levelAfter true 0 e.2 = some 0 := by decide
  rw [removeNoise_eq_substitute]
  exact Brackets.levelAfter_substitute hdeletions depth s

theorem plainer_builtIn (eastConst : Bool) :
    ∀ e ∈ (RuleSet.builtIn eastConst).replacements.entries, Plainer e.1 e.2 := by
  show ∀ e ∈ [("basic_string<_CharT, _Traits, _Allocator>".toList, "std::string".toList),
    ("std::basic_string<char>".toList, "std::string".toList)], Plainer e.1 e.2
  have hlast : ∃ init c, "std::string".toList = init ++ [c] ∧ isBlank c = false :=
    ⟨"std::strin".toList, 'g', by decide, by decide⟩
  simp only [List.forall_mem_cons, List.not_mem_nil, false_imp_iff, implies_true, and_true]
  constructor
  · exact ⟨⟨'b', _, rfl, by decide, by decide, by decide⟩,
      ⟨"basic_string<_CharT, _Traits, _Allocator".toList, by decide⟩, fun _ _ => rfl, by decide,
      hlast⟩
  · exact ⟨⟨'s', _, rfl, by decide, by decide, by decide⟩,
      ⟨"std::basic_string<char".toList, by decide⟩, fun _ _ => rfl, by decide, hlast⟩

theorem onlySpaces_removeNoise (hs : OnlySpaces s) : OnlySpaces (removeNoise r s) := by
  rw [removeNoise_eq_substitute]
  refine substitute_induction (motive := OnlySpaces) ?_ hs
  intro e he s hs c hc
  obtain ⟨noise, -, rfl⟩ := List.mem_map.mp he
  exact hs c ((mem_of_mem_replace hc).resolve_right List.not_mem_nil)

/-- What is made of a text without other white space is conventional, if names are replaced by
plainer ones. -/
theorem conventional_finishList (hr : ∀ e ∈ r.replacements.entries, Plainer e.1 e.2)
    (hs : OnlySpaces s) (h : Tree.parseList .angle true s = .ok root) :
    Conventional (finishList r root) := by
  have hwritten := Tree.conventional_renderItems (trimmed_prune r hs h)
  have hreplaced := conventional_substitute hr hwritten
  rw [← apply_eq_substitute, ← conventional_canonicalSpacing] at hreplaced
  rw [finishList, placeConst]
  split
  · exact conventional_eastConstList hreplaced
  · exact hreplaced

/-- **When normalizing is idempotent.**  Under the built-in rules, a normalized list can always be
normalized again.  It comes back unchanged exactly when no noise, no undesirable argument and no
name to replace was left in it or made by deleting another, and it is written as its tree is.  The
latter needs no check unless there was other white space than U+0020 or `const` is moved. -/
theorem normalize_builtIn_idempotent_iff {eastConst : Bool} {out : Text}
    (h : normalize (.builtIn eastConst) s = .ok out) :
    (∃ again, normalize (.builtIn eastConst) out = .ok again) ∧
    ∃ root, Tree.parseList .angle true out = .ok root ∧
      (normalize (.builtIn eastConst) out = .ok out ↔
        NothingLeft (.builtIn eastConst) root out ∧ placeConst (.builtIn eastConst)
          (canonicalSpacing (root.trimFragments.renderItems .angle .compact)) = out) ∧
      (OnlySpaces s → (normalize (.builtIn eastConst) out = .ok out ↔
        NothingLeft (.builtIn eastConst) root out ∧
          (eastConst = true → eastConstList (canonicalSpacing out) = out))) := by
  obtain ⟨first, hfirst, rfl⟩ := normalize_eq_ok_iff.mp h
  have hlevel := levelAfter_finishList (balanced_builtIn eastConst) (plain_of_parseList hfirst)
  have hread : ∃ root, Tree.parseList .angle true (finishList (.builtIn eastConst) first)
      = .ok root := (Tree.exists_parseList_iff fun _ => Brackets.visible_angle).mpr hlevel
  obtain ⟨root, hroot⟩ := hread
  have hself := normalize_eq_self_iff (shrinking_builtIn eastConst) hroot
  refine ⟨?_, root, hroot, hself, fun hs => ?_⟩
  · have hclean :=
      levelAfter_removeNoise_builtIn eastConst 0 (finishList (.builtIn eastConst) first)
    rw [hlevel, ← Tree.exists_parseList_iff fun _ => Brackets.visible_angle] at hclean
    obtain ⟨cleaned, hcleaned⟩ := hclean
    exact ⟨_, normalize_of_parseList hcleaned⟩
  · -- written from its tree, a conventional text differs in spacing only
    have hconventional := conventional_finishList (plainer_builtIn eastConst)
      (onlySpaces_removeNoise hs) hfirst
    obtain ⟨again, hagain, hspacing⟩ :=
      exists_parseList_of_canonicalSpacing hlevel hconventional rfl
    rw [hroot] at hagain
    cases hagain
    rw [hself, hspacing]
    refine and_congr_right fun _ => ?_
    cases eastConst with
    | true =>
      have hplace : placeConst (.builtIn true) = eastConstList := rfl
      rw [hplace, eq_self_iff_true, true_imp_iff]
    | false =>
      have hplace : ∀ t, placeConst (.builtIn false) t = t := fun _ => rfl
      rw [hplace, finishList, hplace, finishText, canonicalSpacing_canonicalSpacing]
      simp

/-- Once the keyword and the comparison are gone and `const` is in its place, nothing is left. -/
theorem normalize_builtIn_idempotent_iff_nested :
    normalize (.builtIn true) "const class A<B, std::less<B> > *".toList
      = .ok "A<B> const *".toList ∧
    normalize (.builtIn true) "A<B> const *".toList = .ok "A<B> const *".toList := by
  have hfirst : normalize (.builtIn true) "const class A<B, std::less<B> > *".toList
      = .ok "A<B> const *".toList := by decide +kernel
  have hspaces : OnlySpaces "const class A<B, std::less<B> > *".toList := by decide
  obtain ⟨-, root, hroot, -, hiff⟩ := normalize_builtIn_idempotent_iff hfirst
  have htree : Tree.parseList .angle true "A<B> const *".toList
      = .ok ⟨[], [⟨"A".toList, [⟨"B".toList, [], []⟩], "const *".toList⟩], []⟩ := rfl
  rw [htree] at hroot
  cases hroot
  refine ⟨hfirst, (hiff hspaces).mpr ⟨⟨?_, ?_, ?_⟩, fun _ => ?_⟩⟩
  · decide +kernel
  · decide +kernel
  · decide +kernel
  · decide +kernel

/-- A deleted namespace joins the text around it into the name of another one, and a `const` that
is moved behind a parenthesis gets a space that canonical spacing takes away. -/
theorem normalize_builtIn_not_idempotent :
    (normalize (.builtIn false) "std::__::__11::string".toList = .ok "std::__1::string".toList ∧
      normalize (.builtIn false) "std::__1::string".toList = .ok "std::string".toList) ∧
    (normalize (.builtIn true) "const void (*)(int)".toList = .ok "void(*)(int) const".toList ∧
      normalize (.builtIn true) "void(*)(int) const".toList = .ok "void(*)(int)const".toList) := by
  refine ⟨⟨?_, ?_⟩, ?_, ?_⟩
  · decide +kernel
  · decide +kernel
  · decide +kernel
  · decide +kernel

end TypeSignature
