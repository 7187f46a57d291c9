import Mathlib.Data.List.TakeWhile
import TypeSignature.Canonical
import TypeSignature.Proofs.Text.Trimming

/-!
# Nonblank — what is left of a text when white space does not count

`nonblank` is the sequence of the characters of a text that are not white space.  Trimming, the
rules for single spaces and substitutions between equally visible texts leave it alone, and so does
canonical spacing, which is made of these.
-/

namespace TypeSignature.Text

/-- The characters of the text that are not white space, in order. -/
def nonblank (s : Text) : Text := s.filter fun c => !isBlank c

@[simp] theorem nonblank_nil : nonblank [] = [] := rfl

@[simp] theorem nonblank_append (s t : Text) : nonblank (s ++ t) = nonblank s ++ nonblank t :=
  List.filter_append ..

theorem nonblank_cons (c : Char) (s : Text) :
    nonblank (c :: s) = nonblank [c] ++ nonblank s := by
  rw [← nonblank_append, List.singleton_append]

theorem nonblank_singleton_of_blank {c : Char} (hc : isBlank c = true) : nonblank [c] = [] := by
  simp [nonblank, hc]

theorem nonblank_singleton_of_not_blank {c : Char} (hc : isBlank c = false) :
    nonblank [c] = [c] := by
  simp [nonblank, hc]

theorem nonblank_cons_of_blank {c : Char} (hc : isBlank c = true) (s : Text) :
    nonblank (c :: s) = nonblank s := by
  rw [nonblank_cons, nonblank_singleton_of_blank hc, List.nil_append]

theorem nonblank_cons_of_visible {c : Char} (hc : isBlank c = false) (s : Text) :
    nonblank (c :: s) = c :: nonblank s := by
  rw [nonblank_cons, nonblank_singleton_of_not_blank hc, List.singleton_append]

theorem nonblank_eq_cons_iff {c : Char} {s ink : Text} : nonblank s = c :: ink ↔
    ∃ u v, s = u ++ c :: v ∧ (∀ d ∈ u, isBlank d = true) ∧ isBlank c = false ∧
      nonblank v = ink := by
  simp [nonblank, List.filter_eq_cons_iff]

theorem nonblank_eq_nil {s : Text} (h : ∀ c ∈ s, isBlank c = true) : nonblank s = [] := by
  rw [nonblank, List.filter_eq_nil_iff]
  intro c hc
  simp [h c hc]

theorem nonblank_of_visible {s : Text} (h : ∀ c ∈ s, isBlank c = false) : nonblank s = s := by
  apply List.filter_eq_self.mpr
  intro c hc
  rw [h c hc]
  rfl

/-! ## 1. Trimming -/

/-- What is dropped from the front satisfies the test, and so it is blank if the test says so. -/
theorem nonblank_dropWhile {p : Char → Bool} (hp : ∀ c, p c = true → isBlank c = true) (s : Text) :
    nonblank (s.dropWhile p) = nonblank s := by
  have hdropped : nonblank (s.takeWhile p) = [] :=
    nonblank_eq_nil fun c hc => hp c (List.mem_takeWhile_imp hc)
  rw [← List.nil_append (nonblank (s.dropWhile p)), ← hdropped, ← nonblank_append,
    List.takeWhile_append_dropWhile]

theorem nonblank_reverse (s : Text) : nonblank s.reverse = (nonblank s).reverse :=
  List.filter_reverse ..

theorem nonblank_dropEndWhile {p : Char → Bool} (hp : ∀ c, p c = true → isBlank c = true)
    (s : Text) : nonblank (dropEndWhile p s) = nonblank s := by
  rw [dropEndWhile, nonblank_reverse, nonblank_dropWhile hp, nonblank_reverse,
    List.reverse_reverse]

theorem nonblank_trimWhere {p : Char → Bool} (hp : ∀ c, p c = true → isBlank c = true) (s : Text) :
    nonblank (trimWhere p s) = nonblank s := by
  rw [trimWhere, nonblank_dropEndWhile hp, nonblank_dropWhile hp]

theorem nonblank_trimSpaces (s : Text) : nonblank (trimSpaces s) = nonblank s :=
  nonblank_trimWhere (fun _ => isBlank_of_eq_space) s

/-! ## 2. Substitution -/

/-- The induction is on the text with the skip as a parameter: behind an occurrence, as much of the
text is passed over as `old` has left. -/
theorem filter_replaceFrom {keep : Char → Bool} {old new : Text} (hold : old ≠ [])
    (h : new.filter keep = old.filter keep) (skip : Nat) (s : Text) :
    (replaceFrom old new skip s).filter keep = (s.drop skip).filter keep := by
  induction s generalizing skip with
  | nil => cases skip <;> simp [replaceFrom]
  | cons c s ih =>
    cases skip with
    | succ skip => rw [replaceFrom, ih, List.drop_succ_cons]
    | zero =>
      rw [replaceFrom]
      split
      · rename_i hpre
        obtain ⟨rest, hrest⟩ := List.isPrefixOf_iff_prefix.mp hpre
        obtain ⟨d, old, rfl⟩ := List.exists_cons_of_ne_nil hold
        have hdrop : s.drop old.length = rest := by
          rw [List.cons_append, List.cons.injEq] at hrest
          rw [← hrest.2, List.drop_left]
        rw [List.filter_append, h, ih, List.length_cons, Nat.add_sub_cancel, hdrop,
          ← List.filter_append, hrest, List.drop_zero]
      · rw [List.filter_cons, ih 0, List.drop_zero, List.drop_zero, List.filter_cons]

/-- A substitution between texts that look alike to `keep` changes nothing that `keep` sees. -/
theorem filter_replace {keep : Char → Bool} {old new : Text}
    (h : new.filter keep = old.filter keep) (s : Text) :
    (s.replace old new).filter keep = s.filter keep := by
  cases old with
  | nil => rw [replace_empty]
  | cons c old => exact filter_replaceFrom (List.cons_ne_nil c old) h 0 s

/-! ## 3. Canonical spacing -/

theorem nonblank_removeSpacesBefore (token : Char) (s : Text) :
    nonblank (removeSpacesBefore token s) = nonblank s := by
  apply filter_mapWithNext
  intro c next
  by_cases hc : c = ' '
  · subst hc
    split <;> simp
  · rw [if_neg fun h => hc h.1]

theorem nonblank_removeSpacesAfter (token : Char) (s : Text) :
    nonblank (removeSpacesAfter token s) = nonblank s := by
  apply filter_mapWithPrevious
  intro previous c
  by_cases hc : c = ' '
  · subst hc
    split <;> simp
  · rw [if_neg fun h => hc h.2]

theorem nonblank_insertSpacesBefore (token : Char) (s : Text) :
    nonblank (insertSpacesBefore token s) = nonblank s := by
  apply filter_mapWithPrevious
  intro previous c
  split
  · rw [List.filter_cons_of_neg (by simp)]
  · rfl

theorem nonblank_insertSpacesAfter (token : Char) (s : Text) :
    nonblank (insertSpacesAfter token s) = nonblank s := by
  apply filter_mapWithPrevious
  intro previous c
  split
  · rw [List.filter_cons_of_neg (by simp)]
  · rfl

theorem nonblank_removeSpacesAround (token : Char) (s : Text) :
    nonblank (removeSpacesAround token s) = nonblank s := by
  rw [removeSpacesAround, nonblank_removeSpacesBefore, nonblank_removeSpacesAfter]

theorem nonblank_insertSpacesAround (token : Char) (s : Text) :
    nonblank (insertSpacesAround token s) = nonblank s := by
  rw [insertSpacesAround, nonblank_insertSpacesAfter, nonblank_insertSpacesBefore]

theorem nonblank_collapseBlanks (s : Text) : nonblank (collapseBlanks s) = nonblank s := by
  apply filter_mapWithPrevious
  intro previous c
  by_cases hc : isBlank c = true
  · rw [if_pos hc, List.filter_cons_of_neg (by simp [hc])]
    split <;> simp
  · rw [if_neg hc]

theorem nonblank_spacePunctuation (s : Text) : nonblank (spacePunctuation s) = nonblank s := by
  simp only [spacePunctuation, nonblank_insertSpacesAfter, nonblank_insertSpacesBefore,
    nonblank_insertSpacesAround, nonblank_removeSpacesAround, nonblank_removeSpacesBefore,
    nonblank_removeSpacesAfter]

theorem nonblank_joinPunctuation (s : Text) : nonblank (joinPunctuation s) = nonblank s := by
  -- each pair differs by a space only
  have hpair : ∀ {old new : Text}, nonblank new = nonblank old →
      ∀ s : Text, nonblank (s.replace old new) = nonblank s := fun h s => filter_replace h s
  rw [joinPunctuation, hpair (by decide), hpair (by decide), hpair (by decide),
    hpair (by decide), hpair (by decide), hpair (by decide)]

/-- Canonical spacing moves no character and loses none but white space. -/
theorem nonblank_canonicalSpacing (s : Text) : nonblank (canonicalSpacing s) = nonblank s := by
  rw [canonicalSpacing, nonblank_trimSpaces, nonblank_joinPunctuation, nonblank_spacePunctuation,
    nonblank_collapseBlanks]

end TypeSignature.Text
