import TypeSignature.Proofs.Canonical

/-!
# Gaps — where canonical spacing has a space

In a canonically spaced text a space stands where the two visible characters around it want one, and
nowhere else.  Parentheses, the inner side of `<` and that of `>` want none; the outer sides of
square brackets want one, and they have their way.
-/

namespace TypeSignature

open Text

variable {s t u v : Text} {x y z : Char} {paired spaced : Bool}

/-! ## 1. The two sides of a gap -/

/-- The gap between two visible characters may be as `spaced` says. -/
def Allows (x y : Char) (spaced : Bool) : Prop := Doubles x y ∨ spaceBetween x y spaced = spaced

/-- A space may stand between the two texts. -/
def Admits (s t : Text) : Prop := ∃ x y, s.getLast? = some x ∧ t.head? = some y ∧
  isBlank x = false ∧ isBlank y = false ∧ Allows x y true

theorem Admits.append (h : Admits s t) (u : Text) : Admits (u ++ s) t := by
  obtain ⟨x, y, hx, hy, hgap⟩ := h
  exact ⟨x, y, by rw [List.getLast?_append, hx, Option.some_or], hy, hgap⟩

theorem ne_space_of_visible (hx : isBlank x = false) : x ≠ ' ' :=
  Mark.char_ne_space ⟨false, x, hx⟩

theorem admits_of_gap (hx : isBlank x = false) (hy : isBlank y = false) (hgap : Allows x y spaced)
    (ih : ∀ {u}, y :: s = u ++ ' ' :: t → Admits u t)
    (hs : x :: (spaceIf spaced ++ y :: s) = u ++ ' ' :: t) : Admits u t := by
  cases u with
  | nil => exact absurd (List.cons.inj hs).1 (ne_space_of_visible hx)
  | cons c u =>
    obtain ⟨rfl, hrest⟩ := List.cons.inj hs
    cases spaced with
    | false => exact (ih hrest).append [x]
    | true =>
      -- the space is the one of this gap, or it stands further on
      cases u with
      | nil =>
        obtain ⟨-, rfl⟩ := List.cons.inj hrest
        exact ⟨x, y, rfl, rfl, hx, hy, hgap⟩
      | cons d u => exact (ih (List.cons.inj hrest).2).append [x, d]

theorem allows_of_gap (hy : isBlank y = false) (hz : isBlank z = false) {w : Char}
    (hgap : Allows w x spaced) (ih : ∀ {u}, x :: s = u ++ y :: z :: v → Allows y z false)
    (hs : w :: (spaceIf spaced ++ x :: s) = u ++ y :: z :: v) : Allows y z false := by
  have hys := ne_space_of_visible hy
  have hzs := ne_space_of_visible hz
  cases u with
  | nil =>
    obtain ⟨rfl, hrest⟩ := List.cons.inj hs
    cases spaced with
    | true => exact absurd (List.cons.inj hrest).1.symm hzs
    | false =>
      obtain ⟨rfl, -⟩ := List.cons.inj hrest
      exact hgap
  | cons c u =>
    obtain ⟨-, hrest⟩ := List.cons.inj hs
    cases spaced with
    | false => exact ih hrest
    | true =>
      cases u with
      | nil => exact absurd (List.cons.inj hrest).1.symm hys
      | cons d u => exact ih (List.cons.inj hrest).2

theorem SpacedBehind.admits (h : SpacedBehind x paired s) (hx : isBlank x = false)
    (hs : x :: s = u ++ ' ' :: t) : Admits u t := by
  induction h generalizing u with
  | nil =>
    cases u with
    | nil => exact absurd (List.cons.inj hs).1 (ne_space_of_visible hx)
    | cons c u => cases u <;> cases (List.cons.inj hs).2
  | gap hy _ hgap _ ih => exact admits_of_gap hx hy (.inr hgap) (ih hy) hs
  | double hy hdoubles _ ih => exact admits_of_gap hx hy (.inl hdoubles) (ih hy) hs

theorem SpacedBehind.allows (h : SpacedBehind x paired s) (hy : isBlank y = false)
    (hz : isBlank z = false) (hs : x :: s = u ++ y :: z :: v) : Allows y z false := by
  induction h generalizing u with
  | nil =>
    cases u with
    | nil => cases (List.cons.inj hs).2
    | cons c u => cases u <;> cases (List.cons.inj hs).2
  | gap _ _ hgap _ ih => exact allows_of_gap hy hz (.inr hgap) ih hs
  | double _ hdoubles _ ih => exact allows_of_gap hy hz (.inl hdoubles) ih hs

/-- Every space of a canonically spaced text stands between two visible characters that allow it. -/
theorem CanonicallySpaced.admits (h : CanonicallySpaced s) (hs : s = u ++ ' ' :: t) :
    Admits u t := by
  cases h with
  | nil => cases u <;> cases hs
  | cons hvisible hrest => exact hrest.admits hvisible hs

/-- Adjacent visible characters of a canonically spaced text allow that no space parts them. -/
theorem CanonicallySpaced.allows (h : CanonicallySpaced s) (hy : isBlank y = false)
    (hz : isBlank z = false) (hs : s = u ++ y :: z :: v) : Allows y z false := by
  cases h with
  | nil => cases u <;> cases hs
  | cons hvisible hrest => exact hrest.allows hy hz hs

/-! ## 2. Tight brackets -/

/-- A space beside a parenthesis, behind `<` or before `>` is one that a square bracket has on its
outer side; it has one there. -/
structure Tight (s : Text) : Prop where
  behind : ∀ u v x, s = u ++ x :: ' ' :: v → x ∈ ['(', ')', '<'] → v.head? = some '['
  before : ∀ u v y, s = u ++ ' ' :: y :: v → y ∈ ['(', ')', '>'] → u.getLast? = some ']'
  opened : ∀ u v x, s = u ++ x :: '[' :: v → x ∉ ['(', ')', '<']
  closed : ∀ u v y, s = u ++ ']' :: y :: v → y ∉ ['(', ')', '>']

theorem eq_opening_of_allows (hx : x ∈ ['(', ')', '<']) (h : Allows x y true) : y = '[' := by
  rcases h with ⟨-, hdoubles⟩ | hgap
  · rcases hdoubles with rfl | rfl <;> simp at hx
  · have hy : y ≠ ',' ∧ y = '[' := by
      simp only [List.mem_cons, List.not_mem_nil, or_false] at hx
      rcases hx with rfl | rfl | rfl <;> simpa [spaceBetween] using hgap
    exact hy.2

theorem eq_closing_of_allows (hy : y ∈ ['(', ')', '>']) (h : Allows x y true) : x = ']' := by
  rcases h with ⟨rfl, hdoubles⟩ | hgap
  · rcases hdoubles with rfl | rfl <;> simp at hy
  · simp only [List.mem_cons, List.not_mem_nil, or_false] at hy
    rcases hy with rfl | rfl | rfl <;> simpa [spaceBetween] using hgap

theorem not_allows_opening (hx : x ∈ ['(', ')', '<']) : ¬ Allows x '[' false := by
  simp only [List.mem_cons, List.not_mem_nil, or_false] at hx
  rcases hx with rfl | rfl | rfl <;> simp [Allows, Doubles, spaceBetween]

theorem not_allows_closing (hy : y ∈ ['(', ')', '>']) : ¬ Allows ']' y false := by
  simp only [List.mem_cons, List.not_mem_nil, or_false] at hy
  rcases hy with rfl | rfl | rfl <;> simp [Allows, Doubles, spaceBetween]

theorem CanonicallySpaced.tight (h : CanonicallySpaced s) : Tight s where
  behind := by
    intro u v x hs hx
    obtain ⟨x', y, hlast, hhead, -, -, hgap⟩ := h.admits (u := u ++ [x]) (t := v) (by simp [hs])
    rw [List.getLast?_concat] at hlast
    rw [hhead, eq_opening_of_allows (Option.some.inj hlast ▸ hx) hgap]
  before := by
    intro u v y hs hy
    obtain ⟨x, y', hlast, hhead, -, -, hgap⟩ := h.admits hs
    rw [List.head?_cons] at hhead
    rw [hlast, eq_closing_of_allows (Option.some.inj hhead ▸ hy) hgap]
  opened := by
    intro u v x hs hx
    have hall : ['(', ')', '<'].all (!isBlank ·) = true := rfl
    have hvisible : isBlank x = false := by simpa using List.all_eq_true.mp hall x hx
    exact not_allows_opening hx (h.allows hvisible (by decide) hs)
  closed := by
    intro u v y hs hy
    have hall : ['(', ')', '>'].all (!isBlank ·) = true := rfl
    have hvisible : isBlank y = false := by simpa using List.all_eq_true.mp hall y hy
    exact not_allows_closing hy (h.allows (by decide) hvisible hs)

/-- **Tightness.**  Canonical spacing is tight around parentheses, behind `<` and before `>`, but
for the outer sides of square brackets. -/
theorem tight_canonicalSpacing (s : Text) : Tight (canonicalSpacing s) :=
  (canonicallySpaced_canonicalSpacing s).tight

/-- An array's bracket stands apart from the parenthesis in front of it. -/
theorem canonicalSpacing_not_tight :
    ∃ u v, canonicalSpacing "int (*)[3]".toList = u ++ ')' :: ' ' :: v :=
  ⟨"int(*".toList, "[3]".toList, by decide⟩

/-! ## 3. Texts one behind the other -/

theorem canonicalAfter_append (x : Char) (paired : Bool) (ms : List Mark) {m : Mark}
    (hy : (ms.map Mark.char).getLast?.or (some x) = some y) (hsingle : ¬ Doubles y m.char)
    (ns : List Mark) : canonicalAfter x paired (ms ++ m :: ns) = canonicalAfter x paired ms
      ++ m.respaced (spaceBetween y m.char m.spaced) :: canonicalAfter m.char false ns := by
  induction ms generalizing x paired with
  | nil =>
    obtain rfl : x = y := Option.some.inj hy
    simp [canonicalAfter, hsingle]
  | cons n ms ih =>
    have hlast : (ms.map Mark.char).getLast?.or (some n.char) = some y := by
      rw [List.map_cons, List.getLast?_cons] at hy
      cases h : (ms.map Mark.char).getLast? <;> simp_all
    rw [List.cons_append, canonicalAfter, canonicalAfter]
    split
    · rw [ih _ _ hlast, List.cons_append]
    · rw [ih _ _ hlast, List.cons_append]

/-- Two texts are spaced one by one when no pair goes across the gap between them. -/
theorem canonicalSpacing_append_cons (hx : (nonblank s).getLast? = some x) (hy : isBlank y = false)
    (hsingle : ¬ Doubles x y) (t : Text) : canonicalSpacing (s ++ y :: t) = canonicalSpacing s ++
      (spaceIf (spaceBetween x y (endsSpaced false s)) ++ canonicalSpacing (y :: t)) := by
  rw [← map_char_marks false] at hx
  simp only [canonicalSpacing_eq_write, marks_append, marks_cons_of_visible _ hy]
  cases hms : marks false s with
  | nil =>
    rw [hms] at hx
    cases hx
  | cons m ms =>
    rw [hms, List.map_cons, List.getLast?_cons] at hx
    have hlast : (ms.map Mark.char).getLast?.or (some m.char) = some x := by
      rw [← hx]
      cases (ms.map Mark.char).getLast? <;> rfl
    rw [List.cons_append, canonicalMarks, canonicalMarks, canonicalMarks,
      canonicalAfter_append _ _ _ hlast hsingle]
    simp [write_append]

theorem head?_canonicalSpacing (s : Text) : (canonicalSpacing s).head? = (nonblank s).head? := by
  rw [canonicalSpacing_eq_write, ← map_char_marks false]
  cases marks false s with
  | nil => rfl
  | cons m ms => simp [canonicalMarks]

theorem getLast?_canonicalSpacing (s : Text) :
    (canonicalSpacing s).getLast? = (nonblank s).getLast? := by
  have hwrite : ∀ ms : List Mark, (write ms).getLast? = (ms.map Mark.char).getLast? := by
    intro ms
    rcases List.eq_nil_or_concat ms with rfl | ⟨ms, m, rfl⟩
    · rfl
    · rw [List.concat_eq_append, write_append, write_cons, write_nil, ← List.append_assoc,
        List.getLast?_concat, List.map_append, List.map_singleton, List.getLast?_concat]
  rw [← nonblank_canonicalSpacing s, canonicalSpacing_eq_write, hwrite, ← map_char_marks false,
    marks_write]

/-! ## 4. Parts of a canonically spaced text -/

/-- What a text that ends in a visible character has of a gap and the character behind it. -/
theorem eq_nil_or_exists_of_gap (hu : ∀ c ∈ u.getLast?, isBlank c = false)
    (h : spaceIf spaced ++ y :: s = u ++ v) : u = [] ∨ ∃ rest, u = spaceIf spaced ++ y :: rest ∧
      s = rest ++ v ∧ ∀ c ∈ rest.getLast?, isBlank c = false := by
  have hlast : ∀ front rest : Text, u = front ++ y :: rest →
      ∀ c ∈ rest.getLast?, isBlank c = false := by
    intro front rest hfront c hc
    apply hu
    rw [hfront, List.getLast?_append, List.getLast?_cons, Option.mem_def.mp hc]
    rfl
  cases u with
  | nil => exact .inl rfl
  | cons c u =>
    refine .inr ?_
    cases spaced with
    | false =>
      rw [spaceIf_false, List.nil_append, List.cons_append] at h
      obtain ⟨rfl, hs⟩ := List.cons.inj h
      exact ⟨u, rfl, hs, hlast [] u rfl⟩
    | true =>
      rw [spaceIf_true, List.singleton_append, List.cons_append] at h
      obtain ⟨rfl, hs⟩ := List.cons.inj h
      cases u with
      | nil =>
        have hspace := hu ' ' rfl
        rw [isBlank_space] at hspace
        cases hspace
      | cons d u =>
        rw [List.cons_append] at hs
        obtain ⟨rfl, hrest⟩ := List.cons.inj hs
        exact ⟨u, rfl, hrest, hlast [' '] u rfl⟩

theorem SpacedBehind.left (h : SpacedBehind x paired s) (hs : s = u ++ v)
    (hu : ∀ c ∈ u.getLast?, isBlank c = false) : SpacedBehind x paired u := by
  induction h generalizing u with
  | nil =>
    obtain ⟨rfl, -⟩ := List.append_eq_nil_iff.mp hs.symm
    exact .nil
  | gap hvisible hsingle hgap _ ih =>
    rcases eq_nil_or_exists_of_gap hu hs with rfl | ⟨rest, rfl, hrest, hlast⟩
    · exact .nil
    · exact .gap hvisible hsingle hgap (ih hrest hlast)
  | double hvisible hdoubles _ ih =>
    rcases eq_nil_or_exists_of_gap hu hs with rfl | ⟨rest, rfl, hrest, hlast⟩
    · exact .nil
    · exact .double hvisible hdoubles (ih hrest hlast)

/-- The front of a canonically spaced text, up to a visible character. -/
theorem CanonicallySpaced.left (h : CanonicallySpaced (u ++ v))
    (hu : ∀ c ∈ u.getLast?, isBlank c = false) : CanonicallySpaced u := by
  cases u with
  | nil => exact .nil
  | cons c u =>
    rw [List.cons_append] at h
    cases h with
    | cons hvisible hrest =>
      refine .cons hvisible (hrest.left rfl fun d hd => hu d ?_)
      rw [List.getLast?_cons, Option.mem_def.mp hd]
      rfl

theorem SpacedBehind.behind_space (h : SpacedBehind x false (' ' :: s)) : CanonicallySpaced s := by
  generalize hw : ' ' :: s = w at h
  cases h with
  | nil => cases hw
  | @gap _ y _ spaced t hvisible _ _ hrest =>
    cases spaced with
    | true =>
      obtain ⟨-, rfl⟩ := List.cons.inj hw
      exact .cons hvisible hrest
    | false => exact absurd (List.cons.inj hw).1.symm (ne_space_of_visible hvisible)
  | double hvisible =>
    exact absurd (List.cons.inj hw).1.symm (ne_space_of_visible hvisible)

theorem SpacedBehind.behind_char (h : SpacedBehind x paired (y :: s)) (hsingle : ¬ Doubles x y)
    (hy : y ≠ ' ') : SpacedBehind y false s := by
  generalize hw : y :: s = w at h
  cases h with
  | nil => cases hw
  | @gap _ z _ spaced t _ _ _ hrest =>
    cases spaced with
    | true => exact absurd (List.cons.inj hw).1 hy
    | false =>
      obtain ⟨rfl, rfl⟩ := List.cons.inj hw
      exact hrest
  | @double _ z _ t _ hdoubles _ =>
    cases paired with
    | true => exact absurd (List.cons.inj hw).1 hy
    | false =>
      obtain ⟨rfl, -⟩ := List.cons.inj hw
      exact absurd hdoubles hsingle

end TypeSignature
