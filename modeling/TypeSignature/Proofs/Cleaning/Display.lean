import TypeSignature.Proofs.Cleaning.Faults
import TypeSignature.Proofs.Tree.Dropping
import TypeSignature.Proofs.Tree.Respacing

/-!
# Display — a signature that was cleaned for display is clean

When U+0020 is the only white space of a text, the texts of its pruned tree do not end in white
space, and so what is written of the tree is conventional.  A conventional text comes back from
reading and writing with its canonical spacing, whatever layout it was given in between.
-/

namespace TypeSignature

open Text

/-- U+0020 is the only white space of the text. -/
def OnlySpaces (s : Text) : Prop := ∀ c ∈ s, isBlank c = true → c = ' '

instance (s : Text) : Decidable (OnlySpaces s) :=
  List.decidableBAll (fun c => isBlank c = true → c = ' ') s

theorem trimmed_prune (r : RuleSet) {s : Text} {root : Tree} (hs : OnlySpaces s)
    (h : Tree.parseList .angle true s = .ok root) : (root.prune r).Texts Tree.Trimmed := by
  have htexts := Tree.texts_of_parseList (P := fun c => Brackets.angle.role c = .text ∧
    (isBlank c = true → c = ' ')) h fun c hc hrole => ⟨hrole, hs c hc⟩
  refine htexts.prune r fun text htext => ⟨fun c hc => (htext c (mem_of_mem_trimSpaces hc)).1, ?_⟩
  intro c hc
  have hmem : c ∈ text := mem_of_mem_trimSpaces (List.mem_of_mem_getLast? hc)
  -- white space at the end would be U+0020, which trimming cuts off
  cases hblank : isBlank c with
  | false => rfl
  | true => exact absurd ((htext c hmem).2 hblank) (getLast_trimSpaces_ne text c hc)

/-! ## 1. Layouts of a canonically spaced text -/

/-- Laid out or not, a conventional text comes to its canonical spacing. -/
theorem canonicalSpacing_layOutIfDeep {r : RuleSet} {s shown : Text} (hs : Conventional s)
    (h : layOutIfDeep r s = .ok shown) : canonicalSpacing shown = canonicalSpacing s := by
  rw [layOutIfDeep] at h
  split at h
  · rw [← Except.ok.inj h]
  · split at h
    · cases h
    · rename_i root hroot
      have hlaid := Tree.canonicalSpacing_renderItems hroot hs Layout.usual_indented
        Tree.cutsBlanks_id
      rw [Tree.mapText_id] at hlaid
      split at h
      · rw [← Except.ok.inj h, hlaid]
      · rw [← Except.ok.inj h]

/-- A text in another layout is read and written as it is in canonical spacing. -/
theorem exists_parseList_of_canonicalSpacing {s shown : Text}
    (hlevel : Brackets.angle.levelAfter true 0 s = some 0) (hs : Conventional s)
    (h : canonicalSpacing shown = canonicalSpacing s) :
    ∃ root, Tree.parseList .angle true shown = .ok root ∧
      canonicalSpacing (root.trimFragments.renderItems .angle .compact) = canonicalSpacing s := by
  -- the spacing tells the gaps that count, and the characters between them
  have hgaps : settled none false shown = settled none false s := by
    rw [← settled_canonicalSpacing shown, h, settled_canonicalSpacing]
  have hskeleton := Brackets.skeleton_eq_of_nonblank Brackets.visible_angle
    (nonblank_eq_of_settled hgaps)
  have hread : ∃ root, Tree.parseList .angle true shown = .ok root :=
    (Tree.exists_parseList_iff fun _ => Brackets.visible_angle).mpr
      ((Brackets.levelAfter_congr hskeleton true 0).trans hlevel)
  obtain ⟨root, hroot⟩ := hread
  refine ⟨root, hroot, ?_⟩
  rw [← h]
  exact Tree.canonicalSpacing_renderItems hroot ((conventional_iff_of_settled hgaps).mpr hs)
    Layout.usual_compact Tree.cutsBlanks_trimSpaces

/-! ## 2. Without rules -/

/-- The rules that do nothing but lay out what nests deeper than the limit. -/
def RuleSet.layoutOnly (limit : UInt64) : RuleSet := { RuleSet.empty with indentLimit := limit }

theorem balanced_layoutOnly (limit : UInt64) : (RuleSet.layoutOnly limit).Balanced := by
  intro e he
  cases he

theorem removeNoise_layoutOnly (limit : UInt64) (s : Text) :
    removeNoise (.layoutOnly limit) s = s := rfl

theorem prune_layoutOnly (limit : UInt64) (root : Tree) :
    root.prune (.layoutOnly limit) = root.trimFragments :=
  Tree.filter_of_kept fun _ _ => rfl

theorem finishList_layoutOnly (limit : UInt64) (root : Tree) :
    finishList (.layoutOnly limit) root
      = canonicalSpacing (root.trimFragments.renderItems .angle .compact) := by
  rw [← prune_layoutOnly limit root]
  rfl

/-- **Display is idempotent.**  Without rules, a text whose only white space is U+0020 is cleaned
for display once: a second time normalizes what is shown, on one line or on many, to the same
canonical text, and shows it the same way. -/
theorem cleanForDisplay_idempotent {limit : UInt64} {s shown : Text} (hs : OnlySpaces s)
    (h : cleanForDisplay (.layoutOnly limit) s = .ok shown) :
    normalize (.layoutOnly limit) shown = normalize (.layoutOnly limit) s ∧
      cleanForDisplay (.layoutOnly limit) shown = .ok shown := by
  cases hread : Tree.parseList .angle true (removeNoise (.layoutOnly limit) s) with
  | error fault =>
    rw [cleanForDisplay, normalize_of_fault hread] at h
    cases h
  | ok root =>
    have hfirst := normalize_of_parseList hread
    rw [cleanForDisplay_of_normalize hfirst] at h
    -- the canonical text is conventional, since it was written from a pruned tree
    have hlevel := levelAfter_finishList (balanced_layoutOnly limit) (plain_of_parseList hread)
    have hconventional : Conventional (finishList (.layoutOnly limit) root) := by
      rw [finishList_layoutOnly, conventional_canonicalSpacing, ← prune_layoutOnly limit root]
      exact Tree.conventional_renderItems (trimmed_prune (.layoutOnly limit) hs hread)
    have hcanonical : canonicalSpacing (finishList (.layoutOnly limit) root)
        = finishList (.layoutOnly limit) root := by
      rw [finishList_layoutOnly, canonicalSpacing_canonicalSpacing]
    obtain ⟨again, hagain, hsame⟩ := exists_parseList_of_canonicalSpacing hlevel hconventional
      (canonicalSpacing_layOutIfDeep hconventional h)
    have hsecond : normalize (.layoutOnly limit) shown
        = .ok (finishList (.layoutOnly limit) root) := by
      rw [← removeNoise_layoutOnly limit shown] at hagain
      rw [normalize_of_parseList hagain, finishList_layoutOnly, hsame, hcanonical]
    exact ⟨hsecond.trans hfirst.symm, (cleanForDisplay_of_normalize hsecond).trans h⟩

/-- A nested group is laid out, read again with its line breaks and laid out once more. -/
theorem cleanForDisplay_idempotent_nested :
    OnlySpaces "a<b<c> &,d>".toList ∧
    cleanForDisplay (.layoutOnly 1) "a<b<c> &,d>".toList
      = .ok "a<\n    b<\n        c\n    > &,\n    d\n>".toList ∧
    normalize (.layoutOnly 1)
        "a<\n    b<\n        c\n    > &,\n    d\n>".toList
      = normalize (.layoutOnly 1) "a<b<c> &,d>".toList ∧
    cleanForDisplay (.layoutOnly 1)
        "a<\n    b<\n        c\n    > &,\n    d\n>".toList
      = .ok "a<\n    b<\n        c\n    > &,\n    d\n>".toList := by
  have hspaces : OnlySpaces "a<b<c> &,d>".toList := by decide
  have hclean : cleanForDisplay (.layoutOnly 1) "a<b<c> &,d>".toList
      = .ok "a<\n    b<\n        c\n    > &,\n    d\n>".toList := by
    decide +kernel
  exact ⟨hspaces, hclean, cleanForDisplay_idempotent hspaces hclean⟩

end TypeSignature
