import TypeSignature.Cleaning
import TypeSignature.Proofs.Canonical
import TypeSignature.Proofs.EastConst

/-!
# Faults — cleaning fails where the signatures are read, or not at all

Once a list of signatures has been read, every further pass is total.  The last one reads the text
again, to measure how deep it nests, and relies on the passes before it: each of them keeps the
count of open brackets, if the replacements do.
-/

namespace TypeSignature

open Text

/-! ## 1. The passes one after the other -/

/-- The substitutions by which noise is deleted. -/
def RuleSet.deletions (r : RuleSet) : List (Text × Text) :=
  (r.namespaces ++ r.keywords ++ r.custom).map fun noise => (noise, [])

theorem removeNoise_eq_substitute (r : RuleSet) (s : Text) :
    removeNoise r s = substitute r.deletions s := by
  simp only [removeNoise, deleteAll, substitute, RuleSet.deletions, List.map_append,
    List.foldl_append, List.foldl_map]

theorem apply_eq_substitute (replacements : Replacements) (s : Text) :
    replacements.apply s = substitute replacements.entries s := rfl

/-- What is made of a list of signatures that has been read. -/
def finishList (r : RuleSet) (root : Tree) : Text :=
  placeConst r (finishText r ((root.prune r).renderItems .angle .compact))

theorem normalize_of_parseList {r : RuleSet} {s : Text} {root : Tree}
    (h : Tree.parseList .angle true (removeNoise r s) = .ok root) :
    normalize r s = .ok (finishList r root) := by
  rw [normalize, cleanList, h]
  rfl

theorem normalize_of_fault {r : RuleSet} {s : Text} {fault : Tree.Fault}
    (h : Tree.parseList .angle true (removeNoise r s) = .error fault) :
    normalize r s = .error (.malformedSignature (removeNoise r s) fault) := by
  rw [normalize, cleanList, h]
  rfl

theorem normalize_eq_ok_iff {r : RuleSet} {s out : Text} : normalize r s = .ok out ↔
    ∃ root, Tree.parseList .angle true (removeNoise r s) = .ok root ∧ finishList r root = out := by
  cases h : Tree.parseList .angle true (removeNoise r s) with
  | error fault => simp [normalize_of_fault h]
  | ok root => simp [normalize_of_parseList h]

theorem cleanForDisplay_of_normalize {r : RuleSet} {s out : Text} (h : normalize r s = .ok out) :
    cleanForDisplay r s = layOutIfDeep r out := by
  rw [cleanForDisplay, h]
  rfl

/-! ## 2. The count of open brackets -/

/-- No replacement changes the count of open brackets. -/
def RuleSet.Balanced (r : RuleSet) : Prop := ∀ e ∈ r.replacements.entries,
  Brackets.angle.levelAfter true 0 e.1 = some 0 ∧ Brackets.angle.levelAfter true 0 e.2 = some 0

theorem balanced_iff (r : RuleSet) : r.Balanced ↔ ∀ e ∈ r.replacements.entries,
    (∃ key, Tree.parseList .angle true e.1 = .ok key) ∧
      ∃ value, Tree.parseList .angle true e.2 = .ok value := by
  simp only [Tree.exists_parseList_iff fun _ => Brackets.visible_angle]
  rfl

theorem skeleton_canonicalSpacing (s : Text) :
    Brackets.angle.skeleton (canonicalSpacing s) = Brackets.angle.skeleton s :=
  Brackets.skeleton_eq_of_nonblank Brackets.visible_angle (nonblank_canonicalSpacing s)

theorem levelAfter_canonicalSpacing (inList : Bool) (depth : Nat) (s : Text) :
    Brackets.angle.levelAfter inList depth (canonicalSpacing s)
      = Brackets.angle.levelAfter inList depth s :=
  Brackets.levelAfter_congr (skeleton_canonicalSpacing s) inList depth

theorem levelAfter_finishText {r : RuleSet} (hr : r.Balanced) (depth : Nat) (s : Text) :
    Brackets.angle.levelAfter true depth (finishText r s)
      = Brackets.angle.levelAfter true depth s := by
  rw [finishText, levelAfter_canonicalSpacing, apply_eq_substitute,
    Brackets.levelAfter_substitute hr]

theorem skeleton_placeConst (r : RuleSet) (s : Text) :
    Brackets.angle.skeleton (placeConst r s) = Brackets.angle.skeleton s := by
  rw [placeConst]
  split
  · exact skeleton_eastConstList s
  · rfl

theorem plain_of_parseList {s : Text} {root : Tree}
    (h : Tree.parseList .angle true s = .ok root) : root.Texts Brackets.angle.Plain :=
  Tree.texts_of_parseList h fun _ _ hrole => hrole

theorem plain_prune (r : RuleSet) {t : Tree} (h : t.Texts Brackets.angle.Plain) :
    (t.prune r).Texts Brackets.angle.Plain :=
  h.prune r fun _ hs c hc => hs c (mem_of_mem_trimSpaces hc)

/-- What is made of a list of signatures is read as a list again. -/
theorem levelAfter_finishList {r : RuleSet} (hr : r.Balanced) {root : Tree}
    (h : root.Texts Brackets.angle.Plain) :
    Brackets.angle.levelAfter true 0 (finishList r root) = some 0 := by
  have hwritten : Brackets.angle.levelAfter true 0
      ((root.prune r).renderItems .angle .compact) = some 0 :=
    Tree.levelAfter_renderItems Brackets.visible_angle Brackets.distinct_angle
      (by simp [Layout.compact]) (plain_prune r h)
  -- moving `const`, spacing and replacing leave the count as the rendering has it
  rw [finishList, Brackets.levelAfter_congr (skeleton_placeConst r _), levelAfter_finishText hr,
    hwritten]

theorem exists_layOutIfDeep (r : RuleSet) {s : Text}
    (h : Brackets.angle.levelAfter true 0 s = some 0) : ∃ shown, layOutIfDeep r s = .ok shown := by
  have hread : ∃ root, Tree.parseList .angle true s = .ok root :=
    (Tree.exists_parseList_iff fun _ => Brackets.visible_angle).mpr h
  obtain ⟨root, hroot⟩ := hread
  rw [layOutIfDeep, hroot]
  split
  · exact ⟨_, rfl⟩
  · exact ⟨_, rfl⟩

/-- **No later faults.**  With replacements that are read as lists themselves, cleaning for display
fails exactly when the text without its noise cannot be read, and tells the fault found there. -/
theorem cleanForDisplay_eq_error_iff {r : RuleSet} (hr : ∀ e ∈ r.replacements.entries,
    (∃ key, Tree.parseList .angle true e.1 = .ok key) ∧
      ∃ value, Tree.parseList .angle true e.2 = .ok value) (s : Text) (error : Error) :
    cleanForDisplay r s = .error error ↔
      ∃ fault, Tree.parseList .angle true (removeNoise r s) = .error fault ∧
        error = .malformedSignature (removeNoise r s) fault := by
  have hbalanced := (balanced_iff r).mpr hr
  cases hread : Tree.parseList .angle true (removeNoise r s) with
  | error fault =>
    rw [cleanForDisplay, normalize_of_fault hread]
    simp [Except.bind, eq_comm]
  | ok root =>
    -- what is made of the list counts as a list again, so it can be laid out
    have hlevel := levelAfter_finishList hbalanced (plain_of_parseList hread)
    obtain ⟨shown, hshown⟩ := exists_layOutIfDeep r hlevel
    have hclean : cleanForDisplay r s = .ok shown :=
      (cleanForDisplay_of_normalize (normalize_of_parseList hread)).trans hshown
    simp [hclean]

/-- The bracket that is left open behind a deleted keyword is found at its byte, and a replacement
by a nested type changes nothing about that. -/
theorem cleanForDisplay_eq_error_iff_unterminated :
    (∀ e ∈ (Replacements.ofList [("A<B>".toList, "C<D, E>".toList)]).entries,
      (∃ key, Tree.parseList .angle true e.1 = .ok key) ∧
        ∃ value, Tree.parseList .angle true e.2 = .ok value) ∧
    cleanForDisplay
        { RuleSet.default with replacements := .ofList [("A<B>".toList, "C<D, E>".toList)] }
        "class A<B>, x<".toList
      = .error (.malformedSignature "A<B>, x<".toList ⟨8, .unterminated 1⟩) := by
  have hentries : ∀ e ∈ (Replacements.ofList [("A<B>".toList, "C<D, E>".toList)]).entries,
      (∃ key, Tree.parseList .angle true e.1 = .ok key) ∧
        ∃ value, Tree.parseList .angle true e.2 = .ok value := by
    intro e he
    rw [List.mem_singleton.mp he]
    exact ⟨⟨_, rfl⟩, ⟨_, rfl⟩⟩
  refine ⟨hentries, ?_⟩
  exact (cleanForDisplay_eq_error_iff (r := { RuleSet.default with
    replacements := .ofList [("A<B>".toList, "C<D, E>".toList)] }) hentries _ _).mpr
      ⟨⟨8, .unterminated 1⟩, rfl, rfl⟩

end TypeSignature
