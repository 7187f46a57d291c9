import TypeSignature.Proofs.Cleaning.Pruning
import TypeSignature.Proofs.Gaps

/-!
# Spacing — what canonical spacing does to a text as a whole

Canonical spacing keeps the visible characters of a text and puts at most one U+0020 between two of
them.  Where neither of the two characters asks for a space or against one, the gap stays open or
closed as it was.  These gaps and the visible characters are all that it looks at, so texts that
agree in them come out the same.
-/

namespace TypeSignature

open Text

/-! ## 1. One text -/

/-- The characters with a rule for the gap behind them. -/
def rulesBehind : List Char := [',', '&', '*', '(', ')', '<', '[', ']']

/-- The characters with a rule for the gap before them. -/
def rulesBefore : List Char := [',', '&', '*', '(', ')', '>', '[', ']']

/-- The text `t` has the visible characters of `s`, single spaces in its gaps, and each gap without
a rule open exactly if it is open in `s`. -/
structure Normalizes (s t : Text) : Prop where
  nonblank_eq : nonblank t = nonblank s
  onlySpaces : OnlySpaces t
  tidy : Tidy t
  gap : ∀ u x w y v, s = u ++ x :: (w ++ y :: v) → (∀ c ∈ w, isBlank c = true) →
    isBlank x = false → isBlank y = false → x ∉ rulesBehind → y ∉ rulesBefore →
    ∃ u' v', t = u' ++ x :: (spaceIf (!w.isEmpty) ++ y :: v') ∧ nonblank u' = nonblank u ∧
      nonblank v' = nonblank v

variable {x y : Char}

theorem spaceBetween_of_no_rule (hx : x ∉ rulesBehind) (hy : y ∉ rulesBefore) (spaced : Bool) :
    spaceBetween x y spaced = spaced := by
  unfold rulesBehind at hx
  unfold rulesBefore at hy
  unfold spaceBetween
  grind

theorem not_doubles_of_no_rule (hx : x ∉ rulesBehind) : ¬ Doubles x y := by
  rintro ⟨-, rfl | rfl⟩ <;> exact hx (by decide)

theorem exists_canonicalSpacing_concat (u : Text) (hx : isBlank x = false) :
    ∃ u', canonicalSpacing (u ++ [x]) = u' ++ [x] ∧ nonblank u' = nonblank u := by
  have hink : nonblank (u ++ [x]) = nonblank u ++ [x] := by
    rw [nonblank_append, nonblank_singleton_of_not_blank hx]
  have hlast : (canonicalSpacing (u ++ [x])).getLast? = some x := by
    rw [getLast?_canonicalSpacing, hink, List.getLast?_concat]
  obtain ⟨u', hu'⟩ := List.getLast?_eq_some_iff.mp hlast
  refine ⟨u', hu', ?_⟩
  have hkept := nonblank_canonicalSpacing (u ++ [x])
  rw [hu', nonblank_append, nonblank_singleton_of_not_blank hx, hink] at hkept
  exact List.append_cancel_right hkept

theorem exists_canonicalSpacing_cons (v : Text) (hy : isBlank y = false) :
    ∃ v', canonicalSpacing (y :: v) = y :: v' ∧ nonblank v' = nonblank v := by
  have hink := nonblank_cons_of_visible hy
  have hhead : (canonicalSpacing (y :: v)).head? = some y := by
    rw [head?_canonicalSpacing, hink, List.head?_cons]
  obtain ⟨v', hv'⟩ := List.head?_eq_some_iff.mp hhead
  refine ⟨v', hv', ?_⟩
  have hkept := nonblank_canonicalSpacing (y :: v)
  rw [hv', hink, hink] at hkept
  exact (List.cons.inj hkept).2

/-- **What canonical spacing does.**  It changes spacing only, to single spaces, and decides only
the gaps that have a rule. -/
theorem normalizes_canonicalSpacing (s : Text) : Normalizes s (canonicalSpacing s) where
  nonblank_eq := nonblank_canonicalSpacing s
  onlySpaces := onlySpaces_canonicalSpacing s
  tidy := tidy_canonicalSpacing s
  gap := by
    intro u x w y v hs hw hx hy hbehind hbefore
    subst hs
    have hfront : u ++ x :: (w ++ y :: v) = (u ++ [x] ++ w) ++ y :: v := by simp
    have hlast : (nonblank (u ++ [x] ++ w)).getLast? = some x := by
      rw [nonblank_append, nonblank_eq_nil hw, List.append_nil, nonblank_append,
        nonblank_singleton_of_not_blank hx, List.getLast?_concat]
    -- the gap is decided by itself, from the white space that ends what stands before it
    have hgap : endsSpaced false (u ++ [x] ++ w) = !w.isEmpty := by
      rw [endsSpaced_append, endsSpaced_concat_of_visible _ _ hx, endsSpaced_of_blank hw,
        Bool.false_or]
    obtain ⟨u', hu', hukept⟩ := exists_canonicalSpacing_concat u hx
    obtain ⟨v', hv', hvkept⟩ := exists_canonicalSpacing_cons v hy
    refine ⟨u', v', ?_, hukept, hvkept⟩
    rw [hfront, canonicalSpacing_append_cons hlast hy (not_doubles_of_no_rule hbehind),
      spaceBetween_of_no_rule hbehind hbefore, hgap, canonicalSpacing_append_blanks _ hw, hu', hv']
    simp

/-! ## 2. Texts that come out the same -/

/-- The texts have the same visible characters, and a gap without a rule is open in both or in
neither.  It is the same gap in both when the same visible characters stand in front of it. -/
structure SpacedAlike (s t : Text) : Prop where
  nonblank_eq : nonblank s = nonblank t
  gap : ∀ u u' x w w' y v v', s = u ++ x :: (w ++ y :: v) → t = u' ++ x :: (w' ++ y :: v') →
    nonblank u = nonblank u' → (∀ c ∈ w, isBlank c = true) → (∀ c ∈ w', isBlank c = true) →
    isBlank x = false → isBlank y = false → x ∉ rulesBehind → y ∉ rulesBefore →
    (w = [] ↔ w' = [])

variable {s t u u' v v' w : Text} {spaced spaced' : Bool}

/-- Only in a gap without a rule does it matter whether there was a space. -/
theorem spaceBetween_eq_iff : spaceBetween x y spaced = spaceBetween x y spaced' ↔
    (x ∉ rulesBehind → y ∉ rulesBefore → spaced = spaced') := by
  constructor
  · intro h hx hy
    rwa [spaceBetween_of_no_rule hx hy, spaceBetween_of_no_rule hx hy] at h
  · intro h
    unfold rulesBehind rulesBefore at h
    unfold spaceBetween
    grind

theorem settled_gap (hw : ∀ c ∈ w, isBlank c = true) (hy : isBlank y = false) (v : Text) :
    settled (some x) false (w ++ y :: v)
      = ⟨spaceBetween x y (!w.isEmpty), y, hy⟩ :: settled (some y) false v := by
  rw [settled_blanks_append hw, settled_cons_of_visible hy, Bool.false_or]
  rfl

theorem settled_append_cons (hx : isBlank x = false) (u v : Text) :
    settled none false (u ++ x :: v) = settled none false (u ++ [x]) ++ settled (some x) false v := by
  have hsplit : u ++ x :: v = (u ++ [x]) ++ v := by simp
  rw [hsplit, settled_append, lastVisible_concat none u hx, endsSpaced_concat_of_visible _ u hx]

theorem SpacedAlike.settled_behind (h : SpacedAlike s t) (hs : s = u ++ x :: v)
    (ht : t = u' ++ x :: v') (hu : nonblank u = nonblank u') (hx : isBlank x = false) :
    settled (some x) false v = settled (some x) false v' := by
  have hv : nonblank v = nonblank v' := by
    have hink := h.nonblank_eq
    rw [hs, ht, nonblank_append, nonblank_append, nonblank_cons_of_visible hx,
      nonblank_cons_of_visible hx, hu] at hink
    exact List.tail_eq_of_cons_eq (List.append_cancel_left hink)
  -- from one visible character to the next; what was passed becomes part of the front
  generalize hink : nonblank v = ink at hv
  induction ink generalizing u u' x v v' with
  | nil => rw [settled_eq_nil_iff.mpr hink, settled_eq_nil_iff.mpr hv.symm]
  | cons y ink ih =>
    obtain ⟨w, rest, rfl, hw, hy, hrest⟩ := nonblank_eq_cons_iff.mp hink
    obtain ⟨w', rest', rfl, hw', -, hrest'⟩ := nonblank_eq_cons_iff.mp hv.symm
    have hgap : spaceBetween x y (!w.isEmpty) = spaceBetween x y (!w'.isEmpty) := by
      apply spaceBetween_eq_iff.mpr
      intro hbehind hbefore
      have hopen := h.gap u u' x w w' y rest rest' hs ht hu hw hw' hx hy hbehind hbefore
      rw [Bool.eq_iff_iff]
      simpa using not_congr hopen
    have hfront : nonblank (u ++ x :: w) = nonblank (u' ++ x :: w') := by
      rw [nonblank_append, nonblank_append, nonblank_cons_of_visible hx,
        nonblank_cons_of_visible hx, hu, nonblank_eq_nil hw, nonblank_eq_nil hw']
    have hbehind := ih (by rw [hs]; simp) (by rw [ht]; simp) hfront hy hrest hrest'.symm
    rw [settled_gap hw hy, settled_gap hw' hy, hgap, hbehind]

theorem SpacedAlike.settled_eq (h : SpacedAlike s t) :
    settled none false s = settled none false t := by
  have hink := h.nonblank_eq
  cases hs : nonblank s with
  | nil =>
    rw [hs] at hink
    rw [settled_eq_nil_iff.mpr hs, settled_eq_nil_iff.mpr hink.symm]
  | cons x ink =>
    rw [hs] at hink
    obtain ⟨w, v, hs, hw, hx, -⟩ := nonblank_eq_cons_iff.mp hs
    obtain ⟨w', v', ht, hw', -, -⟩ := nonblank_eq_cons_iff.mp hink.symm
    have hfront : nonblank w = nonblank w' := by rw [nonblank_eq_nil hw, nonblank_eq_nil hw']
    -- white space in front of the first visible character makes no gap
    have hfirst : ∀ blanks : Text, (∀ c ∈ blanks, isBlank c = true) →
        settled none false (blanks ++ [x]) = settled none false [x] := by
      intro blanks hblanks
      rw [settled_blanks_append hblanks]
      exact decides_none.settled_eq _ _ _
    rw [hs, ht, settled_append_cons hx, settled_append_cons hx w' v', hfirst w hw, hfirst w' hw',
      h.settled_behind hs ht hfront hx]

theorem spacedAlike_of_settled (h : settled none false s = settled none false t) :
    SpacedAlike s t where
  nonblank_eq := nonblank_eq_of_settled h
  gap := by
    intro u u' x w w' y v v' hs ht hu hw hw' hx hy hbehind hbefore
    rw [hs, ht, settled_append_cons hx, settled_append_cons hx u' (w' ++ y :: v')] at h
    -- as many marks stand in front of the gap in both
    have hlength : (settled none false (u ++ [x])).length
        = (settled none false (u' ++ [x])).length := by
      rw [length_settled, length_settled, nonblank_append, nonblank_append, hu]
    have hmarks := (List.append_inj h hlength).2
    rw [settled_gap hw hy, settled_gap hw' hy] at hmarks
    have hspaced := congrArg Mark.spaced (List.cons.inj hmarks).1
    have hopen := spaceBetween_eq_iff.mp hspaced hbehind hbefore
    rw [← List.isEmpty_iff, ← List.isEmpty_iff, ← Bool.eq_iff_iff]
    simpa using hopen

/-- **What canonical spacing looks at.**  Two texts have the same canonical spacing exactly if they
have the same visible characters and are open in the same gaps without a rule. -/
theorem canonicalSpacing_eq_iff : canonicalSpacing s = canonicalSpacing t ↔ SpacedAlike s t := by
  constructor
  · intro h
    apply spacedAlike_of_settled
    rw [← settled_canonicalSpacing s, h, settled_canonicalSpacing]
  · intro h
    exact canonicalSpacing_of_settled h.settled_eq

/-- Signs in a row are written in pairs, however they were spaced. -/
example : canonicalSpacing "f< T& & &*\t* >".toList = canonicalSpacing "f<T &&&**>".toList := by
  decide

end TypeSignature
