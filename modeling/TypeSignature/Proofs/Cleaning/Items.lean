import TypeSignature.Proofs.Cleaning.Faults
import TypeSignature.Proofs.EastConst.Lists
import TypeSignature.Proofs.Tree.Canonical
import TypeSignature.Proofs.Tree.Items
import TypeSignature.Proofs.Tree.OneLine

/-!
# Items — cleaning a list is cleaning its items

An item of a list and the signature that the splitter makes of it have the same clipped tree.  What
is written of the two differs in white space in front, which canonical spacing does not see, and
canonical spacing treats what stands between two commas as a text of its own.  So a list may be
cleaned as a whole or item by item, as long as no rule deletes or replaces text across a comma.
-/

namespace TypeSignature

open Text

/-- The rules delete and replace no text. -/
structure RuleSet.Verbatim (r : RuleSet) : Prop where
  namespaces : r.namespaces = []
  keywords : r.keywords = []
  custom : r.custom = []
  replacements : r.replacements = .empty

variable {r : RuleSet} {s : Text} {t u root : Tree}

theorem isUndesirable_iff {name : Text} : r.isUndesirable name = true ↔ name ∈ r.undesirable :=
  List.contains_iff_mem

theorem RuleSet.Verbatim.removeNoise_eq (h : r.Verbatim) (s : Text) : removeNoise r s = s := by
  rw [removeNoise, h.namespaces, h.keywords, h.custom]
  rfl

theorem RuleSet.Verbatim.finishText_eq (h : r.Verbatim) (s : Text) :
    finishText r s = canonicalSpacing s := by
  rw [finishText, h.replacements]
  rfl

theorem RuleSet.Verbatim.cleanList_eq (h : r.Verbatim)
    (hroot : Tree.parseList .angle true s = .ok root) :
    cleanList r s = .ok (canonicalSpacing ((root.prune r).renderItems .angle .compact)) := by
  rw [cleanList, h.removeNoise_eq, hroot]
  exact congrArg Except.ok (h.finishText_eq _)

/-- What is made of one signature that has been read. -/
def finishSignature (r : RuleSet) (t : Tree) : Text :=
  finishText r ((t.prune r).render .angle .compact)

theorem cleanSignature_of_parse (h : Tree.parse .angle true (removeNoise r s) = .ok t) :
    cleanSignature r s = .ok (finishSignature r t) := by
  rw [cleanSignature, h]
  rfl

/-! ## 1. Trees that are equal once they are clipped -/

namespace Tree

theorem clip_of_flush {s : Text} (hs : s.Flush) : clip s = trimSpaces s := by
  cases s with
  | nil => rfl
  | cons c s =>
    have hc : isBlank c = false := hs c rfl
    have hne : (c == ' ') = false := by
      rw [beq_eq_false_iff_ne]
      rintro rfl
      cases hc
    rw [clip, trimSpaces, trimChar, trimWhere, List.dropWhile_cons_of_neg (by simp [hc]),
      List.dropWhile_cons_of_neg (by simp [hne])]

/-- Below a node that was read, and behind its group, no text begins with white space. -/
theorem Canonical.clipped_eq (h : Canonical .angle t) :
    t.clipped = { t.trimFragments with left := clip t.left } := by
  obtain ⟨hnode, hchildren⟩ := canonical_iff.mp h
  have hbelow : mapTextIn clip t.children = mapTextIn trimSpaces t.children :=
    mapTextIn_congr fun u hu =>
      ⟨clip_of_flush (hchildren u hu).2, clip_of_flush (hchildren u hu).1.right_flush⟩
  have hright := clip_of_flush hnode.right_flush
  obtain ⟨left, children, right⟩ := t
  rw [clipped, trimFragments, mapText, mapText, hbelow, hright]

theorem render_with_left (left : Text) (t : Tree) :
    ({ t with left } : Tree).render .angle .compact
      = left ++ ({ t with left := [] } : Tree).render .angle .compact := by
  rw [render, render, renderAt_compact, renderAt_compact, oneLine, oneLine, List.nil_append]

/-- What is written of a pruned tree is canonically spaced as if the tree had been clipped. -/
theorem Canonical.canonicalSpacing_render_prune (h : Canonical .angle t) (r : RuleSet) :
    canonicalSpacing ((t.prune r).render .angle .compact)
      = canonicalSpacing ((t.clipped.dropUndesirable r).render .angle .compact) := by
  -- the two differ in the root's left text, and there by white space in front
  obtain ⟨blanks, isBlank_of_mem_space, hleft⟩ := exists_trimSpaces_eq_append_clip t.left
  have hpruned : t.prune r = { t.prune r with left := trimSpaces t.left } := by
    cases t
    rfl
  have hclipped : t.clipped.dropUndesirable r = { t.prune r with left := clip t.left } := by
    rw [h.clipped_eq]
    cases t
    rfl
  rw [hpruned, hclipped, render_with_left, hleft, render_with_left (clip t.left),
    List.append_assoc, canonicalSpacing_blanks_append isBlank_of_mem_space]

/-- Pruning keeps the items whose names are not undesirable. -/
theorem children_prune_of_kept
    (h : ∀ child ∈ root.children, r.isUndesirable (trimSpaces child.left) = false) :
    (root.prune r).children = root.children.map (Tree.prune r) := by
  have hkept : ∀ child ∈ root.children.map (mapText trimSpaces),
      (!r.isUndesirable (trimSpaces child.left)) = true := by
    intro child hchild
    obtain ⟨original, horiginal, rfl⟩ := List.mem_map.mp hchild
    rw [left_mapText, trimSpaces_trimSpaces, h original horiginal]
    rfl
  rw [prune, dropUndesirable, children_filter, trimFragments, children_mapText,
    filterIn_eq_map_filter, mapTextIn_eq_map, List.filter_eq_self.mpr hkept, List.map_map]
  rfl

theorem oneLineFurther_cons (t : Tree) (ts : List Tree) :
    oneLineFurther (t :: ts) = [',', ' '] ++ oneLineRow (t :: ts) := rfl

theorem renderItems_compact_eq_join (root : Tree) : root.renderItems .angle .compact
    = join [',', ' '] (root.children.map (render .angle .compact)) := by
  rw [renderItems, renderRow_compact]
  induction root.children with
  | nil => rfl
  | cons t ts ih =>
    have ht : t.render .angle .compact = t.oneLine := renderAt_compact 0 t
    cases ts with
    | nil => rw [oneLineRow, oneLineFurther, List.append_nil, List.map_singleton, join, ht]
    | cons u ts =>
      rw [List.map_cons] at ih
      rw [oneLineRow, oneLineFurther_cons, ih, List.map_cons, List.map_cons, join_cons_cons, ht,
        List.append_assoc]

end Tree

/-! ## 2. Splitting what was spaced -/

/-- Canonical spacing keeps the pieces of a list apart. -/
theorem split_canonicalSpacing_join {gap : Text} (hgap : ∀ c ∈ gap, isBlank c = true)
    {pieces : List Text} (h : Brackets.angle.Pieces 0 pieces) :
    splitTypes (canonicalSpacing (join (',' :: gap) pieces)) = pieces.map canonicalSpacing := by
  have htidy : ∀ piece : Text, trimSpaces (canonicalSpacing piece) = canonicalSpacing piece :=
    fun piece => (tidy_canonicalSpacing piece).trimSpaces_eq
  have huncut : ∀ {piece : Text} {level : Nat}, Brackets.angle.uncutAfter 0 piece = some level →
      Brackets.angle.uncutAfter 0 (canonicalSpacing piece) = some level :=
    fun hpiece => (Brackets.uncutAfter_congr (skeleton_canonicalSpacing _) 0).trans hpiece
  have hspaces : ∀ b : Bool, ∀ c ∈ spaceIf b, c = ' ' := by
    intro b
    cases b <;> simp
  have hplain : ∀ b : Bool, Brackets.angle.Plain (spaceIf b) := by
    intro b c hc
    rw [hspaces b c hc]
    rfl
  induction pieces with
  | nil => cases h
  | cons piece pieces ih =>
    cases h with
    | last hpiece =>
      have hsplit := Brackets.distinct_angle.split_of_uncut (huncut hpiece)
      rw [htidy] at hsplit
      exact hsplit
    | more hpiece hpieces =>
      -- the first piece is spaced for itself, and so is what follows its comma
      obtain ⟨b, hb⟩ := exists_canonicalSpacing_comma piece (gap ++ join (',' :: gap) pieces)
      have hspace : canonicalSpacing (gap ++ join (',' :: gap) pieces)
          = canonicalSpacing (join (',' :: gap) pieces) :=
        canonicalSpacing_blanks_append hgap _
      have hsplit := Brackets.distinct_angle.split_append_separator (huncut hpiece) (hplain b)
        (hspaces b) (canonicalSpacing (join (',' :: gap) pieces))
      rw [htidy] at hsplit
      rw [Brackets.join_cons_of_ne_nil _ _ hpieces.ne_nil]
      show splitTypes (canonicalSpacing (piece ++ ',' :: (gap ++ join (',' :: gap) pieces))) = _
      rw [hb, hspace, List.map_cons, ← ih hpieces]
      exact hsplit

/-! ## 3. Lists and items -/

theorem levelAfter_render_prune (r : RuleSet) (h : t.Texts Brackets.angle.Plain) :
    Brackets.angle.levelAfter false 0 ((t.prune r).render .angle .compact) = some 0 :=
  Tree.levelAfter_render Brackets.visible_angle Brackets.distinct_angle (by simp [Layout.compact])
    (plain_prune r h)

section

variable (hr : r.Verbatim) (hne : root.children ≠ []) (hplain : root.Texts Brackets.angle.Plain)
  (hkept : ∀ child ∈ root.children, r.isUndesirable (trimSpaces child.left) = false)

include hr hne hplain hkept

/-- The types of a cleaned list are its cleaned items. -/
theorem splitTypes_finishText :
    splitTypes (finishText r ((root.prune r).renderItems .angle .compact))
      = root.children.map (finishSignature r) := by
  have hlevel : ∀ piece ∈ (root.children.map (Tree.prune r)).map (Tree.render .angle .compact),
      Brackets.angle.levelAfter false 0 piece = some 0 := by
    intro piece hpiece
    rw [List.map_map] at hpiece
    obtain ⟨child, hchild, rfl⟩ := List.mem_map.mp hpiece
    have hchildPlain := Tree.textsIn_iff.mp (Tree.texts_iff.mp hplain).2.1 child hchild
    exact levelAfter_render_prune r hchildPlain
  have hpieces : (root.children.map (Tree.prune r)).map (Tree.render .angle .compact) ≠ [] := by
    simpa using hne
  have hsplit := split_canonicalSpacing_join isBlank_of_mem_space
    (Brackets.distinct_angle.pieces_of_level hpieces hlevel)
  rw [hr.finishText_eq, Tree.renderItems_compact_eq_join, Tree.children_prune_of_kept hkept,
    hsplit, List.map_map, List.map_map]
  refine List.map_congr_left fun child _ => ?_
  rw [finishSignature, hr.finishText_eq, Function.comp_apply, Function.comp_apply]

/-- Moving `const` in the list is moving it in each item. -/
theorem splitTypes_finishList : splitTypes (finishList r root) = root.children.map fun child =>
    if r.eastConst then eastConst (finishSignature r child) else finishSignature r child := by
  have hsplit := splitTypes_finishText hr hne hplain hkept
  -- the types are canonically spaced, so moving `const` leaves no space to trim
  have htidy : ∀ type ∈ splitTypes (finishText r ((root.prune r).renderItems .angle .compact)),
      Tidy type := by
    intro type htype
    rw [hsplit] at htype
    obtain ⟨child, -, rfl⟩ := List.mem_map.mp htype
    rw [finishSignature]
    exact tidy_canonicalSpacing _
  rw [finishList, placeConst]
  cases r.eastConst with
  | true =>
    rw [if_pos rfl, splitTypes_eastConstList_of_tidy htidy, hsplit, List.map_map]
    simp only [Function.comp_def, if_true]
  | false =>
    rw [if_neg (by simp), hsplit]
    simp only [Bool.false_eq_true, if_false]

end

/-- What is made of an item is what is made of the signature that the splitter finds. -/
theorem finishSignature_eq_of_clipped (hr : r.Verbatim) (ht : Tree.Canonical .angle t)
    (hu : Tree.Canonical .angle u) (h : t.clipped = u.clipped) :
    finishSignature r t = finishSignature r u := by
  rw [finishSignature, hr.finishText_eq, ht.canonicalSpacing_render_prune r, h,
    ← hu.canonicalSpacing_render_prune r, ← hr.finishText_eq, finishSignature]

/-- Cleaning a piece makes the same of it as cleaning the list makes of its item. -/
theorem forall₂_cleanSignature (hr : r.Verbatim) {afterStructural : Bool} {pieces : List Text}
    {ts : List Tree} (h : (Tree.Scan.item afterStructural).outcomes .angle true pieces = .ok ts) :
    List.Forall₂ (fun piece t => cleanSignature r (trimSpaces piece) = .ok (finishSignature r t))
      pieces ts := by
  induction pieces generalizing afterStructural ts with
  | nil =>
    cases h
    exact .nil
  | cons piece pieces ih =>
    obtain ⟨t, rest, ht, hrest, rfl⟩ := Tree.Scan.outcomes_cons_eq_ok_iff.mp h
    obtain ⟨u, hu, hclipped⟩ := (Tree.Scan.exists_outcome_iff_exists_parse Brackets.visible_angle _
      piece t.clipped).mp ⟨t, ht, rfl⟩
    -- both trees were read, so they differ where clipping cuts and nowhere else
    have hsame := finishSignature_eq_of_clipped hr
      (Tree.Scan.canonical_of_outcome (Tree.parse_eq_ok_iff.mp hu))
      (Tree.Scan.canonical_of_outcome ht) hclipped
    have hclean : cleanSignature r (trimSpaces piece) = .ok (finishSignature r t) := by
      rw [← hr.removeNoise_eq (trimSpaces piece)] at hu
      rw [cleanSignature_of_parse hu, hsame]
    exact .cons hclean (ih hrest)

/-- **Lists and items.**  With rules that delete and replace no text, a list none of whose items is
removed is normalized by cleaning its items one by one, and moving `const` in each if the rules ask
for it. -/
theorem splitTypes_normalize (hr : r.Verbatim) (h : Tree.parseList .angle true s = .ok root)
    (hkept : ∀ child ∈ root.children, r.isUndesirable (trimSpaces child.left) = false) :
    ∃ out, normalize r s = .ok out ∧
      List.Forall₂ (fun item type =>
        (cleanSignature r item).map (fun t => if r.eastConst then eastConst t else t) = .ok type)
      (splitTypes s) (splitTypes out) := by
  have houtcomes := ((Tree.parseList_eq_ok_iff_outcomes Brackets.visible_angle
    Brackets.distinct_angle).mp h).1
  have hitems := forall₂_cleanSignature hr houtcomes
  -- there is a piece, so there is an item
  have hne : root.children ≠ [] := by
    have hlength := hitems.length_eq
    have hpieces := List.length_pos_iff.mpr (Brackets.angle.piecesFrom_ne_nil 0 s)
    exact List.length_pos_iff.mp (hlength ▸ hpieces)
  have hsplit := splitTypes_finishList hr hne (plain_of_parseList h) hkept
  have hnormal : normalize r s = .ok (finishList r root) := by
    rw [← hr.removeNoise_eq s] at h
    exact normalize_of_parseList h
  refine ⟨finishList r root, hnormal, ?_⟩
  rw [hsplit, List.forall₂_map_right_iff, splitTypes, Brackets.split, List.forall₂_map_left_iff]
  refine hitems.imp fun piece child hclean => ?_
  rw [hclean]
  rfl

/-- Neither the tabs in front of an item nor an item without text, a removed argument or a sign next
to a comma makes a difference. -/
theorem splitTypes_normalize_tabs :
    RuleSet.Verbatim { RuleSet.empty with undesirable := [['x']], eastConst := true } ∧
    Tree.parseList .angle true "const a<x, b>&,\t\tc , ,*d&".toList
      = .ok ⟨[], [⟨"const a".toList, [.leaf ['x'], .leaf ['b']], ['&']⟩, .leaf "c ".toList, .empty,
        .leaf "*d&".toList], []⟩ ∧
    normalize { RuleSet.empty with undesirable := [['x']], eastConst := true }
      "const a<x, b>&,\t\tc , ,*d&".toList = .ok "a<b> const &, c, , * d &".toList ∧
    List.Forall₂ (fun item type => (cleanSignature
        { RuleSet.empty with undesirable := [['x']], eastConst := true } item).map eastConst
          = .ok type)
      (splitTypes "const a<x, b>&,\t\tc , ,*d&".toList)
      (splitTypes "a<b> const &, c, , * d &".toList) := by
  have hverbatim : RuleSet.Verbatim
      { RuleSet.empty with undesirable := [['x']], eastConst := true } := ⟨rfl, rfl, rfl, rfl⟩
  have hroot : Tree.parseList .angle true "const a<x, b>&,\t\tc , ,*d&".toList
      = .ok ⟨[], [⟨"const a".toList, [.leaf ['x'], .leaf ['b']], ['&']⟩, .leaf "c ".toList, .empty,
        .leaf "*d&".toList], []⟩ := rfl
  have hnormal : normalize { RuleSet.empty with undesirable := [['x']], eastConst := true }
      "const a<x, b>&,\t\tc , ,*d&".toList = .ok "a<b> const &, c, , * d &".toList := by
    decide +kernel
  obtain ⟨out, hout, hitems⟩ := splitTypes_normalize hverbatim hroot (by decide)
  rw [hnormal] at hout
  cases hout
  exact ⟨hverbatim, hroot, hnormal, hitems⟩

end TypeSignature
