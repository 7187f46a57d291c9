import TypeSignature.Proofs.Cleaning.Pruning
import TypeSignature.Proofs.Tree.Nonblank

/-!
# Blanks — a list with every white space turned into a space

Reading and canonical spacing take any white space for a space.  Trimming does not: it cuts off
U+0020 only.  White space of another kind stays at the ends of a name, where it hides the name from
the rules and may leave a space in front of the name's group.  It makes no other difference.
-/

namespace TypeSignature

open Text

/-! ## 1. Texts -/

namespace Text

def asSpace (c : Char) : Char := if isBlank c then ' ' else c

/-- The text with a space for each white space. -/
def asSpaces (s : Text) : Text := s.map asSpace

variable {s t name : Text}

theorem asSpace_of_blank {c : Char} (hc : isBlank c = true) : asSpace c = ' ' := if_pos hc

theorem asSpace_of_visible {c : Char} (hc : isBlank c = false) : asSpace c = c := by
  unfold asSpace
  rw [if_neg (by simp [hc])]

theorem isBlank_asSpace (c : Char) : isBlank (asSpace c) = isBlank c := by
  by_cases hc : isBlank c
  · rw [asSpace_of_blank hc, hc, isBlank_space]
  · rw [asSpace_of_visible (by simpa using hc)]

theorem asSpace_beq_space (c : Char) : (asSpace c == ' ') = isBlank c := by
  by_cases hc : isBlank c
  · rw [asSpace_of_blank hc, hc]
    rfl
  · have hc : isBlank c = false := by simpa using hc
    rw [asSpace_of_visible hc, hc, beq_eq_false_iff_ne]
    rintro rfl
    rw [isBlank_space] at hc
    cases hc

theorem asSpaces_append (s t : Text) : asSpaces (s ++ t) = asSpaces s ++ asSpaces t :=
  List.map_append

theorem asSpaces_cons_of_visible {c : Char} (hc : isBlank c = false) (s : Text) :
    asSpaces (c :: s) = c :: asSpaces s := by
  show asSpace c :: asSpaces s = c :: asSpaces s
  rw [asSpace_of_visible hc]

theorem asSpaces_space_cons (s : Text) : asSpaces (' ' :: s) = ' ' :: asSpaces s := by
  show asSpace ' ' :: asSpaces s = ' ' :: asSpaces s
  rw [asSpace_of_blank isBlank_space]

theorem onlySpaces_asSpaces (s : Text) : OnlySpaces (asSpaces s) := by
  intro c hc hblank
  obtain ⟨d, -, rfl⟩ := List.mem_map.mp hc
  rw [isBlank_asSpace] at hblank
  exact asSpace_of_blank hblank

theorem asSpaces_of_onlySpaces (h : OnlySpaces s) : asSpaces s = s := by
  apply (List.map_congr_left fun c hc => ?_).trans (List.map_id s)
  by_cases hblank : isBlank c
  · rw [asSpace_of_blank hblank, h c hc hblank]
    rfl
  · exact asSpace_of_visible (by simpa using hblank)

theorem asSpaces_of_visible (h : ∀ c ∈ s, isBlank c = false) : asSpaces s = s := by
  apply asSpaces_of_onlySpaces
  intro c hc hblank
  rw [h c hc] at hblank
  cases hblank

theorem asSpaces_eq_iff (hname : ∀ c ∈ name, isBlank c = false) : asSpaces s = name ↔ s = name := by
  constructor
  · rintro rfl
    have hvisible : ∀ c ∈ s, isBlank c = false := by
      intro c hc
      rw [← isBlank_asSpace]
      exact hname _ (List.mem_map_of_mem hc)
    exact (asSpaces_of_visible hvisible).symm
  · rintro rfl
    exact asSpaces_of_visible hname

theorem trimSpaces_asSpaces (s : Text) : trimSpaces (asSpaces s) = asSpaces (trimBlanks s) := by
  have htest : ((· == ' ') ∘ asSpace) = isBlank := funext asSpace_beq_space
  show dropEndWhile _ ((s.map asSpace).dropWhile _) = (dropEndWhile _ (s.dropWhile _)).map asSpace
  rw [List.dropWhile_map, htest, dropEndWhile, dropEndWhile, ← List.map_reverse, List.dropWhile_map,
    htest, List.map_reverse]

theorem marks_asSpaces (spaced : Bool) (s : Text) : marks spaced (asSpaces s) = marks spaced s := by
  induction s generalizing spaced with
  | nil => rfl
  | cons c s ih =>
    show marks spaced (asSpace c :: asSpaces s) = _
    by_cases hc : isBlank c
    · rw [asSpace_of_blank hc, marks_space, ih, marks_cons_of_blank _ hc]
    · have hc : isBlank c = false := by simpa using hc
      rw [asSpace_of_visible hc, marks_cons_of_visible _ hc, marks_cons_of_visible _ hc, ih]

end Text

theorem nonblank_asSpaces (s : Text) : nonblank (asSpaces s) = nonblank s := by
  rw [← map_char_marks false, marks_asSpaces, map_char_marks]

theorem canonicalSpacing_asSpaces (s : Text) :
    canonicalSpacing (asSpaces s) = canonicalSpacing s := by
  rw [canonicalSpacing_eq_write, marks_asSpaces, ← canonicalSpacing_eq_write]

/-! ## 2. Trees -/

namespace Tree

theorem behindGroup_asSpaces (right : Text) :
    behindGroup (asSpaces right) = asSpaces (behindGroup right) := by
  cases right with
  | nil => rfl
  | cons c right => exact (asSpaces_space_cons (c :: right)).symm

mutual

theorem oneLine_mapText_asSpaces : ∀ t : Tree,
    (t.mapText asSpaces).oneLine = asSpaces t.oneLine
  | ⟨left, [], right⟩ => by
    rw [mapText, mapTextIn, oneLine_leaf, oneLine_leaf, behindGroup_asSpaces, asSpaces_append]
  | ⟨left, child :: children, right⟩ => by
    have hrow := oneLineRow_mapTextIn_asSpaces (child :: children)
    rw [mapTextIn] at hrow
    rw [mapText, mapTextIn, oneLine_group, oneLine_group, hrow, behindGroup_asSpaces,
      asSpaces_append, asSpaces_cons_of_visible (by decide), asSpaces_append,
      asSpaces_cons_of_visible (by decide)]

theorem oneLineRow_mapTextIn_asSpaces : ∀ ts : List Tree,
    oneLineRow (mapTextIn asSpaces ts) = asSpaces (oneLineRow ts)
  | [] => rfl
  | t :: ts => by
    rw [mapTextIn, oneLineRow, oneLineRow, oneLine_mapText_asSpaces t,
      oneLineFurther_mapTextIn_asSpaces ts, asSpaces_append]

theorem oneLineFurther_mapTextIn_asSpaces : ∀ ts : List Tree,
    oneLineFurther (mapTextIn asSpaces ts) = asSpaces (oneLineFurther ts)
  | [] => rfl
  | t :: ts => by
    rw [mapTextIn, oneLineFurther, oneLineFurther, oneLine_mapText_asSpaces t,
      oneLineFurther_mapTextIn_asSpaces ts, asSpaces_cons_of_visible (by decide),
      asSpaces_space_cons, asSpaces_append]

end

end Tree

/-! ## 3. Reading and pruning -/

variable {r : RuleSet} {s out : Text} {root : Tree}

theorem role_asSpace (c : Char) : Brackets.angle.role (asSpace c) = Brackets.angle.role c := by
  by_cases hc : isBlank c
  · rw [asSpace_of_blank hc, Brackets.visible_angle.role_of_blank hc]
    rfl
  · rw [asSpace_of_visible (by simpa using hc)]

theorem outcome_asSpaces (s : Text) :
    (Tree.Scan.list.outcome .angle true 1 s).map (Tree.mapText asSpaces)
      = (Tree.Scan.list.outcome .angle true 1 (asSpaces s)).map (Tree.mapText asSpaces) := by
  refine Tree.Scan.outcome_congr role_asSpace isBlank_asSpace (fun c s s' h => ?_) rfl s
  have hc : asSpaces [asSpace c] = asSpaces [c] := by
    by_cases hc : isBlank c
    · rw [asSpace_of_blank hc]
      show [asSpace ' '] = [asSpace c]
      rw [asSpace_of_blank hc]
      rfl
    · rw [asSpace_of_visible (by simpa using hc)]
  rw [asSpaces_append, asSpaces_append, h, hc]

theorem parseList_asSpaces (h : Tree.parseList .angle true s = .ok root) :
    Tree.parseList .angle true (asSpaces s) = .ok (root.mapText asSpaces) := by
  have houtcome := outcome_asSpaces s
  rw [Tree.parseList_eq_ok_iff.mp h] at houtcome
  cases hread : Tree.Scan.list.outcome .angle true 1 (asSpaces s) with
  | error reason => rw [hread] at houtcome; cases houtcome
  | ok read =>
    rw [hread] at houtcome
    have hsame : root.mapText asSpaces = read.mapText asSpaces := Except.ok.inj houtcome
    have hlist := Tree.parseList_eq_ok_iff.mpr hread
    -- the texts that were read have spaces for white space already
    have hspaces := onlySpaces_of_parseList (onlySpaces_asSpaces s) hlist
    have hread : read.mapText asSpaces = read.mapText id := by
      apply Tree.mapText_congr
      intro u hu
      have htexts := hspaces.of_mem_preorder u hu
      exact ⟨asSpaces_of_onlySpaces htexts.1, asSpaces_of_onlySpaces htexts.2⟩
    rw [hlist, hsame, hread, Tree.mapText_id]

theorem parseList_asSpaces_error {fault : Tree.Fault}
    (h : Tree.parseList .angle true s = .error fault) :
    ∃ fault', Tree.parseList .angle true (asSpaces s) = .error fault' ∧
      fault'.reason = fault.reason := by
  have hsame : Tree.SameReading (Tree.parseList .angle true s)
      (Tree.parseList .angle true (asSpaces s)) :=
    Tree.Scan.sameReading_of_nonblank Brackets.visible_angle (nonblank_asSpaces s).symm _ _ _
  rw [h] at hsame
  generalize Tree.parseList .angle true (asSpaces s) = reading at hsame
  cases hsame with
  | fault hreason => exact ⟨_, rfl, hreason.symm⟩

/-- Whether a node is kept once all white space is trimmed around its name. -/
def RuleSet.keepsTrimmed (r : RuleSet) (u : Tree) : Bool := !r.isUndesirable (trimBlanks u.left)

section

variable (hnames : ∀ name ∈ r.undesirable, ∀ c ∈ name, isBlank c = false)

include hnames

theorem isUndesirable_asSpaces (s : Text) :
    r.isUndesirable (asSpaces s) = r.isUndesirable s := by
  rw [Bool.eq_iff_iff, isUndesirable_iff, isUndesirable_iff]
  constructor
  · intro h
    have hs : s = asSpaces s := (asSpaces_eq_iff (hnames _ h)).mp rfl
    rwa [← hs] at h
  · intro h
    rwa [asSpaces_of_visible (hnames _ h)]

theorem prune_mapText_asSpaces (root : Tree) : (root.mapText asSpaces).prune r
    = ((root.filter r.keepsTrimmed).mapText trimBlanks).mapText asSpaces := by
  have htrim : (fun s => trimSpaces (asSpaces s)) = fun s => asSpaces (trimBlanks s) :=
    funext trimSpaces_asSpaces
  have htest : ∀ u : Tree, (!r.isUndesirable (trimSpaces
      (u.mapText fun s => asSpaces (trimBlanks s)).left)) = r.keepsTrimmed u := by
    intro u
    rw [Tree.left_mapText, trimSpaces_asSpaces, trimBlanks_trimBlanks,
      isUndesirable_asSpaces hnames, RuleSet.keepsTrimmed]
  rw [Tree.prune, Tree.trimFragments, Tree.mapText_mapText, htrim, Tree.dropUndesirable,
    Tree.filter_mapText htest, Tree.mapText_mapText]

theorem filter_keepsTrimmed_prune (root : Tree) :
    (root.prune r).filter r.keepsTrimmed = (root.filter r.keepsTrimmed).mapText trimSpaces := by
  have hsub : ∀ u, r.keepsTrimmed u = true → (!r.isUndesirable (trimSpaces u.left)) = true := by
    intro u hu
    rw [RuleSet.keepsTrimmed] at hu
    by_contra hname
    have hname : r.isUndesirable (trimSpaces u.left) = true := by simpa using hname
    -- a name of the rules has no white space, so nothing more can be trimmed
    have hvisible := hnames _ (isUndesirable_iff.mp hname)
    rw [← trimBlanks_trimSpaces, trimBlanks_of_visible hvisible, hname] at hu
    cases hu
  have hsame : ∀ u : Tree, r.keepsTrimmed (u.filter fun node =>
      !r.isUndesirable (trimSpaces node.left)) = r.keepsTrimmed u := by
    intro u
    rw [RuleSet.keepsTrimmed, Tree.left_filter, RuleSet.keepsTrimmed]
  have htest : ∀ u : Tree, r.keepsTrimmed (u.mapText trimSpaces) = r.keepsTrimmed u := by
    intro u
    rw [RuleSet.keepsTrimmed, Tree.left_mapText, trimBlanks_trimSpaces, RuleSet.keepsTrimmed]
  rw [Tree.prune, Tree.dropUndesirable, Tree.filter_filter hsub hsame, Tree.trimFragments,
    Tree.filter_mapText htest]

/-- With spaces only, a list is cleaned as if all white space were trimmed. -/
theorem cleanList_asSpaces_eq (hr : r.Verbatim) (h : Tree.parseList .angle true s = .ok root) :
    cleanList r (asSpaces s) = .ok (canonicalSpacing (Tree.oneLineRow (Tree.mapTextIn trimBlanks
      (Tree.filterIn r.keepsTrimmed (root.prune r).children)))) := by
  have htrim : (fun s => trimBlanks (trimSpaces s)) = trimBlanks := funext trimBlanks_trimSpaces
  have hpruned : ((root.filter r.keepsTrimmed).mapText trimBlanks)
      = ((root.prune r).filter r.keepsTrimmed).mapText trimBlanks := by
    rw [filter_keepsTrimmed_prune hnames, Tree.mapText_mapText, htrim]
  rw [hr.cleanList_eq (parseList_asSpaces h), prune_mapText_asSpaces hnames, hpruned,
    Tree.renderItems, Tree.renderRow_compact, Tree.children_mapText,
    Tree.oneLineRow_mapTextIn_asSpaces, canonicalSpacing_asSpaces, Tree.children_mapText,
    Tree.children_filter]

end

/-! ## 4. The difference that white space makes -/

theorem cutsBlanks_trimBlanks : Tree.CutsBlanks trimBlanks := exists_trimWhere isBlank

theorem trimmed_trimBlanks {text : Text} (h : Brackets.angle.Plain text) :
    Tree.Trimmed (trimBlanks text) := by
  obtain ⟨head, tail, -, -, htext⟩ := exists_trimWhere isBlank text
  refine ⟨fun c hc => h c ?_, getLast_trimWhere isBlank text⟩
  rw [htext]
  exact List.mem_append_right _ (List.mem_append_left _ hc)

section

variable {ts : List Tree} (hts : Tree.TextsIn Brackets.angle.Plain ts)

include hts

/-- Trimming all white space makes no difference on a line where the left texts abut. -/
theorem canonicalSpacing_trimBlanks_iff :
    canonicalSpacing (Tree.oneLineRow (Tree.mapTextIn trimBlanks ts))
        = canonicalSpacing (Tree.oneLineRow ts) ↔
      ∀ u ∈ Tree.preorderIn ts, u.children ≠ [] → Tree.Abuts u.left := by
  have hfits : Fitting none false (Tree.oneLineRow ts) ↔
      ∀ u ∈ Tree.preorderIn ts, u.children ≠ [] → Tree.Abuts u.left :=
    Tree.fitting_oneLineRow_iff hts decides_none (by simp)
  rw [← hfits]
  constructor
  · intro hsame
    have htrimmed : Tree.TextsIn Tree.Trimmed (Tree.mapTextIn trimBlanks ts) :=
      hts.mapTextIn fun _ => trimmed_trimBlanks
    have hplain : Tree.TextsIn Brackets.angle.Plain (Tree.mapTextIn trimBlanks ts) :=
      htrimmed.mono fun _ h => h.1
    have hfitting : Fitting none false (Tree.oneLineRow (Tree.mapTextIn trimBlanks ts)) :=
      (Tree.fitting_oneLineRow_iff hplain decides_none (by simp)).mpr fun u hu _ =>
        (htrimmed.of_mem_preorderIn u hu).1.abuts
    -- the two lines have the same settled gaps
    rwa [Fitting, ← settled_canonicalSpacing, hsame, settled_canonicalSpacing] at hfitting
  · intro hfitting
    have hgaps := Tree.settled_renderRow Layout.usual_compact cutsBlanks_trimBlanks 0 ts false false
      decides_none hfitting
    rw [Tree.renderRow_compact] at hgaps
    exact canonicalSpacing_of_settled hgaps

theorem canonicalSpacing_filterIn_iff (keep : Tree → Bool) :
    canonicalSpacing (Tree.oneLineRow (Tree.mapTextIn trimBlanks (Tree.filterIn keep ts)))
        = canonicalSpacing (Tree.oneLineRow ts) ↔
      canonicalSpacing (Tree.oneLineRow ts) = [] ∨ (∀ u ∈ Tree.preorderIn ts, keep u = true) ∧
        ∀ u ∈ Tree.preorderIn ts, u.children ≠ [] → Tree.Abuts u.left := by
  have hink : ∀ us, nonblank (Tree.oneLineRow us) = Tree.inkRow .angle us := by
    intro us
    rw [← Tree.renderRow_compact 0 us]
    exact Tree.nonblank_renderRow Brackets.visible_angle (by simp [Layout.compact]) 0 us
  have htrim : ∀ us, Tree.inkRow .angle (Tree.mapTextIn trimBlanks us) = Tree.inkRow .angle us :=
    Tree.inkRow_mapTextIn (nonblank_trimWhere fun _ h => h)
  have hfilter := Tree.inkRow_filterIn_eq_iff .angle keep ts
  constructor
  · intro hsame
    have hequal : Tree.inkRow .angle (Tree.filterIn keep ts) = Tree.inkRow .angle ts := by
      rw [← htrim, ← hink, ← nonblank_canonicalSpacing, hsame, nonblank_canonicalSpacing, hink]
    rcases hfilter.mp hequal with hnil | hkept
    · left
      rw [canonicalSpacing_eq_nil_iff, hink, hnil]
    · right
      rw [Tree.filterIn_of_kept hkept] at hsame
      exact ⟨hkept, (canonicalSpacing_trimBlanks_iff hts).mp hsame⟩
  · rintro (hempty | ⟨hkept, habuts⟩)
    · -- without ink, nothing is written of either row
      rw [hempty, canonicalSpacing_eq_nil_iff, hink, htrim]
      rw [canonicalSpacing_eq_nil_iff, hink] at hempty
      rw [hfilter.mpr (.inl hempty), hempty]
    · rw [Tree.filterIn_of_kept hkept]
      exact (canonicalSpacing_trimBlanks_iff hts).mpr habuts

end

/-- White space other than spaces, where it is left in the texts of a pruned tree, neither hides an
undesirable name nor stands in front of a group. -/
structure Tree.NothingHidden (r : RuleSet) (pruned : Tree) : Prop where
  names : ∀ u ∈ pruned.descendants, r.isUndesirable (trimBlanks u.left) = false
  gaps : ∀ u ∈ pruned.descendants, u.children ≠ [] → Abuts u.left

/-- **Kinds of white space.**  With rules that delete and replace no text and have no white space in
their names, a list and the same list with spaces for all white space fail for the same reason or
are both cleaned.  They come out the same exactly when nothing is left of the list, or when in what
is left of it nothing is hidden by white space that is not trimmed. -/
theorem cleanList_asSpaces_iff (hr : r.Verbatim)
    (hnames : ∀ name ∈ r.undesirable, ∀ c ∈ name, isBlank c = false) (s : Text) :
    (∃ fault fault', cleanList r s = .error (.malformedSignature s fault) ∧
        cleanList r (asSpaces s) = .error (.malformedSignature (asSpaces s) fault') ∧
        fault'.reason = fault.reason) ∨
      ∃ root out out', Tree.parseList .angle true s = .ok root ∧ cleanList r s = .ok out ∧
        cleanList r (asSpaces s) = .ok out' ∧
        (out' = out ↔ out = [] ∨ Tree.NothingHidden r (root.prune r)) := by
  cases hroot : Tree.parseList .angle true s with
  | error fault =>
    left
    obtain ⟨fault', hfault', hreason⟩ := parseList_asSpaces_error hroot
    refine ⟨fault, fault', ?_, ?_, hreason⟩
    · rw [cleanList, hr.removeNoise_eq, hroot]
    · rw [cleanList, hr.removeNoise_eq, hfault']
  | ok root =>
    right
    have hplain := (Tree.texts_iff.mp (plain_prune r (plain_of_parseList hroot))).2.1
    have hiff := canonicalSpacing_filterIn_iff hplain r.keepsTrimmed
    refine ⟨root, _, _, rfl, hr.cleanList_eq hroot, cleanList_asSpaces_eq hnames hr hroot, ?_⟩
    rw [Tree.renderItems, Tree.renderRow_compact, hiff]
    apply or_congr_right
    constructor
    · rintro ⟨hkept, habuts⟩
      exact ⟨fun u hu => by simpa [RuleSet.keepsTrimmed] using hkept u hu, habuts⟩
    · rintro ⟨hkept, habuts⟩
      exact ⟨fun u hu => by simpa [RuleSet.keepsTrimmed] using hkept u hu, habuts⟩

/-- Tabs and line breaks behind structural characters, at the end of an argument and behind a `*`
all count as spaces. -/
theorem cleanList_asSpaces_iff_same :
    (RuleSet.without ["std::less".toList]).Verbatim ∧
    (∀ name ∈ (RuleSet.without ["std::less".toList]).undesirable, ∀ c ∈ name, isBlank c = false) ∧
    cleanList (.without ["std::less".toList]) "map <\tK ,\nstd::less<K>,v *\t<x\t> >".toList
      = .ok "map<K, v * <x>>".toList ∧
    cleanList (.without ["std::less".toList])
        (asSpaces "map <\tK ,\nstd::less<K>,v *\t<x\t> >".toList)
      = .ok "map<K, v * <x>>".toList := by
  have hwords : ∀ name ∈ (RuleSet.without ["std::less".toList]).undesirable, IsWord name := by
    decide
  have hnames : ∀ name ∈ (RuleSet.without ["std::less".toList]).undesirable, ∀ c ∈ name,
      isBlank c = false := fun name hname => (hwords name hname).visible
  have hclean : cleanList (.without ["std::less".toList])
      "map <\tK ,\nstd::less<K>,v *\t<x\t> >".toList = .ok "map<K, v * <x>>".toList := by
    decide +kernel
  have hread : Tree.parseList .angle true "map <\tK ,\nstd::less<K>,v *\t<x\t> >".toList
      = .ok ⟨[], [⟨"map ".toList, [.leaf "K ".toList, ⟨"std::less".toList, [.leaf ['K']], []⟩,
        ⟨"v *\t".toList, [.leaf "x\t".toList], []⟩], []⟩], []⟩ := rfl
  have hverbatim := verbatim_without ["std::less".toList]
  refine ⟨hverbatim, hnames, hclean, ?_⟩
  rcases cleanList_asSpaces_iff hverbatim hnames "map <\tK ,\nstd::less<K>,v *\t<x\t> >".toList with
    ⟨fault, fault', hfault, -⟩ | ⟨root, out, out', hroot, hout, hsecond, hiff⟩
  · rw [hclean] at hfault
    cases hfault
  · rw [hclean] at hout
    cases hout
    rw [hread] at hroot
    cases hroot
    rw [hsecond, hiff.mpr (.inr ⟨by decide +kernel, by decide +kernel⟩)]

/-- A tab is not trimmed from the end of a name.  It keeps an undesirable argument from being
removed, and becomes a space in front of a group. -/
theorem cleanList_asSpaces_ne :
    cleanList (.without ["std::less".toList]) "A<std::less\t>".toList
        = .ok "A<std::less>".toList ∧
      cleanList (.without ["std::less".toList]) (asSpaces "A<std::less\t>".toList)
        = .ok "A".toList ∧
      cleanList .empty "A\t<x>".toList = .ok "A <x>".toList ∧
      cleanList .empty (asSpaces "A\t<x>".toList) = .ok "A<x>".toList ∧
      "A<std::less>".toList ≠ "A".toList ∧ "A <x>".toList ≠ "A<x>".toList := by
  decide +kernel

end TypeSignature
