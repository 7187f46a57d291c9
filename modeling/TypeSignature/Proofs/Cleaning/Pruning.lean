import TypeSignature.Proofs.Cleaning
import TypeSignature.Proofs.Cleaning.Fixpoints
import TypeSignature.Proofs.Cleaning.Items
import TypeSignature.Proofs.Tree.Names

/-!
# Pruning — the names that are left in a cleaned list

Pruning tests the left text of a node.  When all arguments of a node are removed, its right text
comes to stand where a name is expected, and nothing tests it there: of `A<<x>y>` is left `A<y>`.
If such a node has a left text too, the space between the two keeps them from being one word.  So an
undesirable name is left exactly where it is all the text of a node without arguments.
-/

namespace TypeSignature

open Text

/-! ## 1. Texts whose white space is spaces -/

theorem onlySpaces_canonicalSpacing (s : Text) : OnlySpaces (canonicalSpacing s) := by
  rw [canonicalSpacing_eq_write]
  intro c hc hblank
  obtain ⟨m, -, hm⟩ := List.mem_flatMap.mp hc
  rcases List.mem_append.mp hm with hm | hm
  · cases hspaced : m.spaced with
    | true => simpa [hspaced] using hm
    | false => simp [hspaced] at hm
  · rw [List.mem_singleton.mp hm, m.visible] at hblank
    cases hblank

theorem OnlySpaces.trimBlanks_eq {s : Text} (hs : OnlySpaces s) : trimBlanks s = trimSpaces s := by
  apply trimWhere_congr
  intro c hc
  cases hblank : isBlank c with
  | true => rw [hs c hc hblank]; rfl
  | false =>
    symm
    rw [beq_eq_false_iff_ne]
    rintro rfl
    rw [isBlank_space] at hblank
    cases hblank

theorem onlySpaces_of_parseList {s : Text} {root : Tree} (hs : OnlySpaces s)
    (h : Tree.parseList .angle true s = .ok root) : root.Texts OnlySpaces :=
  Tree.texts_of_parseList h fun c hc _ => hs c hc

/-- The texts of a pruned tree have no white space around them. -/
theorem trimBlanks_of_prune (r : RuleSet) {s : Text} {root : Tree} (hs : OnlySpaces s)
    (h : Tree.parseList .angle true s = .ok root) :
    (root.prune r).Texts fun text => trimBlanks text = text := by
  apply (onlySpaces_of_parseList hs h).prune r
  intro text htext
  have hspaces : OnlySpaces (trimSpaces text) := fun c hc => htext c (mem_of_mem_trimSpaces hc)
  rw [hspaces.trimBlanks_eq, trimSpaces_trimSpaces]

/-! ## 2. Names in a pruned tree -/

variable {r : RuleSet} {s out name : Text} {root last : Tree}

theorem isUndesirable_left_of_prune (r : RuleSet) (root : Tree) :
    ∀ u ∈ (root.prune r).descendants, r.isUndesirable u.left = false := by
  intro u hu
  obtain ⟨v, hv, hkept, rfl⟩ := Tree.exists_of_mem_descendants_filter hu
  obtain ⟨w, -, rfl⟩ := mem_descendants_trimFragments.mp hv
  rw [Tree.left_mapText, trimSpaces_trimSpaces] at hkept
  rw [Tree.left_filter, Tree.left_mapText]
  simpa using hkept

/-- White space inside of a text is not trimmed away. -/
theorem trimBlanks_append_space_ne {left right : Text} (hleft : trimBlanks left = left)
    (hright : trimBlanks right = right) (hleftNe : left ≠ []) (hrightNe : right ≠ [])
    (hword : IsWord name) : trimBlanks (left ++ ' ' :: right) ≠ name := by
  have hself : trimBlanks (left ++ ' ' :: right) = left ++ ' ' :: right := by
    apply trimWhere_eq_self
    · intro c hc
      rw [List.head?_append_of_ne_nil _ hleftNe] at hc
      rw [← hleft] at hc
      exact head_trimWhere isBlank left c hc
    · intro c hc
      rw [List.getLast?_append_of_ne_nil _ (List.cons_ne_nil _ _),
        List.getLast?_cons_of_ne_nil hrightNe] at hc
      rw [← hright] at hc
      exact getLast_trimWhere isBlank right c hc
  rintro rfl
  have hspace := hword.visible ' ' (by rw [hself]; simp)
  rw [isBlank_space] at hspace
  cases hspace

/-- The right text of a node is read back as its name when the node has nothing else. -/
theorem trimBlanks_nameText_iff {u : Tree} (hword : IsWord name) (hname : u.left ≠ name)
    (hleft : trimBlanks u.left = u.left) (hright : trimBlanks u.right = u.right) :
    trimBlanks u.nameText = name ↔ u.left = [] ∧ u.children = [] ∧ u.right = name := by
  obtain ⟨left, children, right⟩ := u
  cases children with
  | cons child children =>
    show trimBlanks left = name ↔ _
    rw [hleft]
    simp [hname]
  | nil =>
    show trimBlanks (left ++ Tree.behindGroup right) = name ↔ left = [] ∧ [] = [] ∧ right = name
    by_cases hrightNil : right = []
    · subst hrightNil
      show trimBlanks (left ++ []) = name ↔ _
      rw [List.append_nil, hleft]
      simp [hname, hword.nonempty.symm]
    · have hbehind : Tree.behindGroup right = ' ' :: right := by
        rw [Tree.behindGroup, if_neg (by simpa using hrightNil)]
      rw [hbehind]
      by_cases hleftNil : left = []
      · subst hleftNil
        have htrim : trimBlanks ([] ++ ' ' :: right) = trimBlanks right := rfl
        rw [htrim, hright]
        simp
      · have hne := trimBlanks_append_space_ne hleft hright hleftNil hrightNil hword
        simp [hne, hleftNil]

section

variable (hs : OnlySpaces s) (hroot : Tree.parseList .angle true s = .ok root)

include hs hroot

theorem exists_nameText_prune_iff (hword : IsWord name) (hname : name ∈ r.undesirable) :
    (∃ u ∈ (root.prune r).descendants, trimBlanks u.nameText = name) ↔
      ∃ u ∈ (root.prune r).descendants, u.left = [] ∧ u.children = [] ∧ u.right = name := by
  have htexts := (Tree.texts_iff.mp (trimBlanks_of_prune r hs hroot)).2.1.of_mem_preorderIn
  apply exists_congr
  intro u
  apply and_congr_right
  intro hu
  have hne : u.left ≠ name := by
    rintro rfl
    have hkept := isUndesirable_left_of_prune r root u hu
    rw [isUndesirable_iff.mpr hname] at hkept
    cases hkept
  exact trimBlanks_nameText_iff hword hne (htexts u hu).1 (htexts u hu).2

/-- The cleaned text is read as a list whose names are those of the pruned tree's line. -/
theorem exists_left_of_canonicalSpacing (hlast : Tree.parseList .angle true
      (canonicalSpacing ((root.prune r).renderItems .angle .compact)) = .ok last)
    (hword : IsWord name) : (∃ u ∈ last.descendants, trimSpaces u.left = name) ↔
      ∃ u ∈ (root.prune r).descendants, trimBlanks u.nameText = name := by
  have hconventional : Conventional
      (canonicalSpacing ((root.prune r).renderItems .angle .compact)) :=
    conventional_canonicalSpacing.mpr (Tree.conventional_renderItems (trimmed_prune r hs hroot))
  -- written from its tree, the cleaned text comes to the same spacing
  have hspacing := Tree.canonicalSpacing_renderItems hlast hconventional Layout.usual_compact
    Tree.cutsBlanks_id
  rw [Tree.mapText_id, canonicalSpacing_canonicalSpacing, Tree.renderItems, Tree.renderItems,
    Tree.renderRow_compact, Tree.renderRow_compact] at hspacing
  have hnames := Tree.exists_nameText_congr (Tree.texts_iff.mp (plain_of_parseList hlast)).2.1
    (Tree.texts_iff.mp (plain_prune r (plain_of_parseList hroot))).2.1 hword hspacing
  have hspaces := onlySpaces_of_parseList (onlySpaces_canonicalSpacing _) hlast
  rw [Tree.descendants, Tree.descendants, ← hnames]
  apply exists_congr
  intro u
  apply and_congr_right
  intro hu
  rw [(Tree.nodeCanonical_of_parseList hlast u hu).nameText_eq,
    ((Tree.texts_iff.mp hspaces).2.1.of_mem_preorderIn u hu).1.trimBlanks_eq]

end

/-- **When pruning is complete.**  With rules that delete and replace no text, and with words for
undesirable names, what is left of a list is read as a list.  No undesirable name is in it exactly
when no node of the pruned tree has one behind a group that is gone, and no other text. -/
theorem cleanList_pruned_iff (hr : r.Verbatim) (hwords : ∀ name ∈ r.undesirable, IsWord name)
    (hs : OnlySpaces s) (h : cleanList r s = .ok out) :
    ∃ root last, Tree.parseList .angle true s = .ok root ∧
      Tree.parseList .angle true out = .ok last ∧
      ((∀ u ∈ last.descendants, r.isUndesirable (trimSpaces u.left) = false) ↔
        ∀ u ∈ (root.prune r).descendants, u.left = [] → u.children = [] →
          r.isUndesirable u.right = false) := by
  obtain ⟨root, hroot⟩ := exists_parseList_of_cleanList h
  rw [hr.removeNoise_eq] at hroot
  rw [hr.cleanList_eq hroot, Except.ok.injEq] at h
  subst h
  have hlevel : Brackets.angle.levelAfter true 0
      (canonicalSpacing ((root.prune r).renderItems .angle .compact)) = some 0 := by
    rw [levelAfter_canonicalSpacing]
    exact Tree.levelAfter_renderItems Brackets.visible_angle Brackets.distinct_angle
      (by simp [Layout.compact]) (plain_prune r (plain_of_parseList hroot))
  obtain ⟨last, hlast⟩ := (Tree.exists_parseList_iff fun _ => Brackets.visible_angle).mpr hlevel
  have hnames : ∀ name ∈ r.undesirable, (∃ u ∈ last.descendants, trimSpaces u.left = name) ↔
      ∃ u ∈ (root.prune r).descendants, u.left = [] ∧ u.children = [] ∧ u.right = name := by
    intro name hname
    rw [exists_left_of_canonicalSpacing hs hroot hlast (hwords name hname),
      exists_nameText_prune_iff hs hroot (hwords name hname) hname]
  refine ⟨root, last, hroot, hlast, ?_⟩
  simp only [Bool.eq_false_iff, ne_eq, isUndesirable_iff]
  constructor
  · intro hnone u hu hleft hchildren hname
    obtain ⟨v, hv, hsame⟩ := (hnames u.right hname).mpr ⟨u, hu, hleft, hchildren, rfl⟩
    exact hnone v hv (hsame ▸ hname)
  · intro hnone v hv hname
    obtain ⟨u, hu, hleft, hchildren, hright⟩ := (hnames _ hname).mp ⟨v, hv, rfl⟩
    exact hnone u hu hleft hchildren (hright ▸ hname)

/-- The rules that only remove the given names. -/
def RuleSet.without (names : List Text) : RuleSet := { RuleSet.empty with undesirable := names }

theorem verbatim_without (names : List Text) : (RuleSet.without names).Verbatim :=
  ⟨rfl, rfl, rfl, rfl⟩

/-- A lost group leaves a right text behind, here one that may stay. -/
theorem cleanList_pruned_iff_kept :
    (∀ name ∈ (RuleSet.without ["std::less".toList]).undesirable, IsWord name) ∧
    OnlySpaces "map< std::less , b <std::less>,<std::less<x>> y *, std::less <x> z>".toList ∧
    cleanList (.without ["std::less".toList])
        "map< std::less , b <std::less>,<std::less<x>> y *, std::less <x> z>".toList
      = .ok "map<b, y *>".toList ∧
    Tree.parseList .angle true "map<b, y *>".toList
      = .ok ⟨[], [⟨"map".toList, [.leaf ['b'], .leaf "y *".toList], []⟩], []⟩ ∧
    ∀ u ∈ (⟨[], [⟨"map".toList, [.leaf ['b'], .leaf "y *".toList], []⟩], []⟩ : Tree).descendants,
      (RuleSet.without ["std::less".toList]).isUndesirable (trimSpaces u.left) = false := by
  have hwords : ∀ name ∈ (RuleSet.without ["std::less".toList]).undesirable, IsWord name :=
    List.forall_mem_singleton.mpr (isWord_of_isAlphanum (by decide) (by simp))
  have hspaces : OnlySpaces
      "map< std::less , b <std::less>,<std::less<x>> y *, std::less <x> z>".toList := by decide
  have hclean : cleanList (.without ["std::less".toList])
      "map< std::less , b <std::less>,<std::less<x>> y *, std::less <x> z>".toList
        = .ok "map<b, y *>".toList := by decide +kernel
  have hfirst : Tree.parseList .angle true
      "map< std::less , b <std::less>,<std::less<x>> y *, std::less <x> z>".toList
        = .ok ⟨[], [⟨"map".toList, [.leaf "std::less ".toList, ⟨"b ".toList,
          [.leaf "std::less".toList], []⟩, ⟨[], [⟨"std::less".toList, [.leaf ['x']], []⟩],
          "y *".toList⟩, ⟨"std::less ".toList, [.leaf ['x']], ['z']⟩], []⟩], []⟩ := rfl
  have hagain : Tree.parseList .angle true "map<b, y *>".toList
      = .ok ⟨[], [⟨"map".toList, [.leaf ['b'], .leaf "y *".toList], []⟩], []⟩ := rfl
  obtain ⟨root, last, hroot, hlast, hiff⟩ :=
    cleanList_pruned_iff (verbatim_without _) hwords hspaces hclean
  rw [hfirst] at hroot
  cases hroot
  rw [hagain] at hlast
  cases hlast
  exact ⟨hwords, hspaces, hclean, hagain, hiff.mpr (by decide +kernel)⟩

/-- The group of a node without a name is lost, and an undesirable name stands in its place.  It is
removed only when the list is cleaned again. -/
theorem cleanList_not_pruned :
    cleanList (.without ["std::less".toList, "std::allocator".toList])
        "A<<std::less>std::allocator>".toList = .ok "A<std::allocator>".toList ∧
    (∃ last, Tree.parseList .angle true "A<std::allocator>".toList = .ok last ∧
      ∃ u ∈ last.descendants, (RuleSet.without ["std::less".toList,
        "std::allocator".toList]).isUndesirable (trimSpaces u.left) = true) ∧
    cleanList (.without ["std::less".toList, "std::allocator".toList])
        "A<std::allocator>".toList = .ok "A".toList := by
  have hread : Tree.parseList .angle true "A<std::allocator>".toList
      = .ok ⟨[], [⟨"A".toList, [.leaf "std::allocator".toList], []⟩], []⟩ := rfl
  refine ⟨by decide +kernel, ⟨_, hread, .leaf "std::allocator".toList, ?_, ?_⟩, by decide +kernel⟩
  · simp [Tree.descendants, Tree.preorderIn, Tree.preorder, Tree.leaf]
  · decide

end TypeSignature
