import TypeSignature.Canonical
import TypeSignature.Proofs.Text.Marks

/-!
# Canonical — canonical spacing, gap by gap

The eighteen rules of canonical spacing come to one decision for each gap, taken from the two
characters around it.  Two kinds of gap need more: between characters without punctuation the space
stays as it was, and in a run of `&` or `*` every second gap closes, counted from the front of the
run.
-/

namespace TypeSignature

open Text

/-- Whether canonical spacing has a space between `x` and `y`, where there was one if `spaced`. -/
def spaceBetween (x y : Char) (spaced : Bool) : Bool :=
  y ≠ ',' && (x = ']' || (y = '[' && x ≠ '[') ||
    (x ∉ ['(', ')', '<', '['] && y ∉ ['(', ')', '>', ']'] &&
      (spaced || x ∈ [',', '&', '*'] || y ∈ ['&', '*'])))

/-- Whether two equal characters are written in pairs. -/
def Doubles (x y : Char) : Prop := x = y ∧ (x = '&' ∨ x = '*')

instance (x y : Char) : Decidable (Doubles x y) := inferInstanceAs (Decidable (_ ∧ _))

/-- The canonical marks of what stands behind `x`; `paired` says that `x` ends a pair. -/
def canonicalAfter : (x : Char) → (paired : Bool) → List Mark → List Mark
  | _, _, [] => []
  | x, paired, m :: ms =>
    if Doubles x m.char then
      m.respaced paired :: canonicalAfter m.char (!paired) ms
    else m.respaced (spaceBetween x m.char m.spaced) :: canonicalAfter m.char false ms

/-- The marks of the text in canonical spacing; no space stands in front of it. -/
def canonicalMarks : List Mark → List Mark
  | [] => []
  | m :: ms => m.respaced false :: canonicalAfter m.char false ms

/-! ## 1. The rules one after the other -/

/-- What the rules around single characters come to. -/
def punctuationRule : GapRule := fun previous c spaced =>
  previous = some ']' || (c = '[' && previous ≠ none && previous ≠ some '[') ||
    (previous ∉ [some '(', some ')', some '<', some '['] && c ∉ ['(', ')', '>', ']'] &&
      (spaced || previous ∈ [some ',', some '&', some '*'] ||
        (c ∈ ['&', '*'] && previous ≠ none)))

variable {ms : List Mark} {s : Text}

theorem Text.Spells.insertSpacesAround (token : Char) (htoken : isBlank token = false)
    (h : Spells ms s) : Spells
      (respace (fun previous c spaced => spaced || decide (previous = some token) ||
        decide (c = token ∧ previous ≠ none)) none ms) (insertSpacesAround token s) := by
  have hboth := (h.insertSpacesBefore token htoken).insertSpacesAfter token htoken
  have hrule : (fun previous c spaced => spaced || decide (previous = some token) ||
      decide (c = token ∧ previous ≠ none) : GapRule)
      = fun previous c spaced =>
        spaced || decide (c = token ∧ previous ≠ none ∧ previous ≠ some token) ||
          decide (previous = some token) := by
    funext previous c spaced
    grind
  rw [hrule]
  rwa [respace_respace] at hboth

theorem Text.Spells.removeSpacesAround (token : Char) (htoken : isBlank token = false)
    (h : Spells ms s) : Spells
      (respace (fun previous c spaced => spaced && decide (previous ≠ some token) &&
        decide (c ≠ token)) none ms) (removeSpacesAround token s) := by
  have hboth := (h.removeSpacesAfter token htoken).removeSpacesBefore token
  rwa [respace_respace] at hboth

theorem Text.Spells.spacePunctuation (h : Spells ms s) :
    Spells (respace punctuationRule none ms) (spacePunctuation s) := by
  have hinserted := h.insertSpacesAfter ',' (by decide)
    |>.insertSpacesAround '&' (by decide)
    |>.insertSpacesAround '*' (by decide)
  have hremoved := hinserted.removeSpacesAround ')' (by decide)
    |>.removeSpacesAround '(' (by decide)
    |>.removeSpacesBefore '>'
    |>.removeSpacesAfter '<' (by decide)
    |>.removeSpacesAfter '[' (by decide)
    |>.removeSpacesBefore ']'
  have hall := hremoved.insertSpacesBefore '[' (by decide)
    |>.insertSpacesAfter ']' (by decide)
  simp only [respace_respace] at hall
  refine (congrArg (Spells · _) ?_).mpr hall
  congr 1
  funext previous c spaced
  unfold punctuationRule
  grind

theorem punctuationRule_of_doubles {x y : Char} (h : Doubles x y) (spaced : Bool) :
    punctuationRule (some x) y spaced = true := by
  obtain ⟨rfl, rfl | rfl⟩ := h <;> simp [punctuationRule]

theorem punctuationRule_of_ne_comma (x y : Char) (spaced : Bool) :
    (punctuationRule (some x) y spaced && decide (y ≠ ',')) = spaceBetween x y spaced := by
  rw [Bool.and_comm]
  simp [punctuationRule, spaceBetween]

/-- Behind the first character, the pairs of `&` and `*` are all that the rules do not decide gap by
gap.  Each flag says whether the character before can begin a pair. -/
theorem rejoin_respace_punctuationRule (x : Char) (paired : Bool) (ms : List Mark) :
    rejoin '*' '*' true (x == '*' && !paired)
      (respace (fun _ c spaced => spaced && decide (c ≠ ',')) (some x)
        (rejoin '[' ']' true (x == '[')
          (rejoin '&' '&' true (x == '&' && !paired)
            (respace punctuationRule (some x) ms))))
      = canonicalAfter x paired ms := by
  induction ms generalizing x paired with
  | nil => rfl
  | cons m ms ih =>
    by_cases hdoubles : Doubles x m.char
    · have hgap := punctuationRule_of_doubles hdoubles m.spaced
      have hrest := ih m.char (!paired)
      rw [respace, hgap, canonicalAfter, if_pos hdoubles, ← hrest]
      obtain ⟨hx, htoken⟩ := hdoubles
      subst hx
      -- the character closes a pair or begins one, depending on the one before
      rcases htoken with htoken | htoken <;> cases paired <;>
        simp [rejoin, respace, htoken]
    · have hrest := ih m.char false
      have hgap := punctuationRule_of_ne_comma x m.char m.spaced
      have hbracket : ¬ ((x == '[') = true ∧ m.char = ']' ∧
          punctuationRule (some x) m.char m.spaced = true) := by
        rintro ⟨hx, hm, hspace⟩
        rw [eq_of_beq hx, hm] at hspace
        cases m.spaced <;> simp [punctuationRule] at hspace
      have hsingle : ∀ token, token = '&' ∨ token = '*' → ∀ b : Bool,
          ¬ ((x == token && !paired) = true ∧ m.char = token ∧ b = true) := by
        rintro token htoken b ⟨hx, hm, -⟩
        have hx : x = token := eq_of_beq (Bool.and_eq_true_iff.mp hx).1
        exact hdoubles ⟨hx.trans hm.symm, by rwa [hx]⟩
      have hreference := rejoin_cons_of_not (x := '&')
        (m := m.respaced (punctuationRule (some x) m.char m.spaced)) (hsingle '&' (.inl rfl) _)
      have hpointer := rejoin_cons_of_not (x := '*')
        (m := m.respaced (spaceBetween x m.char m.spaced)) (hsingle '*' (.inr rfl) _)
      rw [respace, hreference, rejoin_cons_of_not (m := m.respaced _) hbracket, respace,
        Mark.respaced_char, Mark.respaced_spaced, Mark.respaced_respaced, hgap, hpointer,
        canonicalAfter, if_neg hdoubles, ← hrest]
      simp only [Mark.respaced_char, Bool.not_false, Bool.and_true]

/-- **Canonical spacing, gap by gap.** -/
theorem canonicalSpacing_eq_write (s : Text) :
    canonicalSpacing s = write (canonicalMarks (marks false s)) := by
  have hspaced := (spells_collapseBlanks s).spacePunctuation
  -- the rules have left a space between `*` and `&` already
  have hpointer := hspaced.replace (x := '*') (y := '&') (by decide) (by decide) false
  rw [rejoin_respace (x := '*') (y := '&') (by decide) (by simp)] at hpointer
  have hreference := hpointer.replace (x := '&') (y := '*') (by decide) (by decide) false
  rw [rejoin_respace (x := '&') (y := '*') (by decide) (by simp)] at hreference
  have hclosed := (hreference.replace (x := '&') (y := '&') (by decide) (by decide) true).replace
    (x := '[') (y := ']') (by decide) (by decide) true
  have hcomma := hclosed.removeSpacesBefore ','
  rw [← replace_space_token (by decide)] at hcomma
  have hjoined := hcomma.replace (x := '*') (y := '*') (by decide) (by decide) true
  show trimSpaces (joinPunctuation (spacePunctuation (collapseBlanks s))) = _
  cases hms : marks false s with
  | nil =>
    rw [hms] at hjoined
    exact trimSpaces_of_spells_nil hjoined
  | cons m ms =>
    rw [hms] at hjoined
    have hrest := rejoin_respace_punctuationRule m.char false ms
    simp only [Bool.not_false, Bool.and_true] at hrest
    simp only [respace, rejoin, Bool.false_eq_true, false_and, if_false, Mark.respaced_char,
      Mark.respaced_respaced, hrest] at hjoined
    have htrimmed := trimSpaces_of_spells_cons hjoined
    rwa [Mark.respaced_respaced] at htrimmed

/-! ## 2. Canonically spaced texts -/

/-- A text behind the visible character `x` whose gaps are single spaces and stand where canonical
spacing wants them; `paired` says that `x` ends a pair. -/
inductive SpacedBehind : (x : Char) → (paired : Bool) → Text → Prop
  | nil {x : Char} {paired : Bool} : SpacedBehind x paired []
  | gap {x y : Char} {paired spaced : Bool} {s : Text} (hvisible : isBlank y = false)
      (hsingle : ¬ Doubles x y) (hgap : spaceBetween x y spaced = spaced)
      (hrest : SpacedBehind y false s) : SpacedBehind x paired (spaceIf spaced ++ y :: s)
  | double {x y : Char} {paired : Bool} {s : Text} (hvisible : isBlank y = false)
      (hdoubles : Doubles x y) (hrest : SpacedBehind y (!paired) s) :
      SpacedBehind x paired (spaceIf paired ++ y :: s)

/-- A text in canonical spacing, said without the rules that lead to it. -/
inductive CanonicallySpaced : Text → Prop
  | nil : CanonicallySpaced []
  | cons {c : Char} {s : Text} (hvisible : isBlank c = false) (hrest : SpacedBehind c false s) :
      CanonicallySpaced (c :: s)

theorem marks_canonicalSpacing (s : Text) :
    marks false (canonicalSpacing s) = canonicalMarks (marks false s) := by
  rw [canonicalSpacing_eq_write, marks_write]

theorem spaceBetween_spaceBetween (x y : Char) (spaced : Bool) :
    spaceBetween x y (spaceBetween x y spaced) = spaceBetween x y spaced := by
  unfold spaceBetween
  grind

theorem spacedBehind_write (x : Char) (paired : Bool) (ms : List Mark) :
    SpacedBehind x paired (write (canonicalAfter x paired ms)) := by
  induction ms generalizing x paired with
  | nil => exact .nil
  | cons m ms ih =>
    rw [canonicalAfter]
    by_cases hdoubles : Doubles x m.char
    · rw [if_pos hdoubles, write_cons]
      exact .double m.visible hdoubles (ih m.char (!paired))
    · rw [if_neg hdoubles, write_cons]
      apply SpacedBehind.gap m.visible hdoubles
      · exact spaceBetween_spaceBetween x m.char m.spaced
      · exact ih m.char false

theorem canonicallySpaced_canonicalSpacing (s : Text) : CanonicallySpaced (canonicalSpacing s) := by
  rw [canonicalSpacing_eq_write]
  cases marks false s with
  | nil => exact .nil
  | cons m ms =>
    rw [canonicalMarks, write_cons]
    exact .cons m.visible (spacedBehind_write m.char false ms)

theorem SpacedBehind.write_eq {x : Char} {paired : Bool} (h : SpacedBehind x paired s) :
    write (canonicalAfter x paired (marks false s)) = s := by
  have hmarks : ∀ {y : Char} (spaced : Bool) (hy : isBlank y = false) (t : Text),
      marks false (spaceIf spaced ++ y :: t) = ⟨spaced, y, hy⟩ :: marks false t := by
    intro y spaced hy t
    cases spaced <;> simp [marks_cons_of_visible _ hy]
  induction h with
  | nil => rfl
  | gap hvisible hsingle hgap hrest ih =>
    rw [hmarks _ hvisible, canonicalAfter, if_neg hsingle, write_cons, ih]
    simp only [Mark.respaced_char, Mark.respaced_spaced, hgap]
  | double hvisible hdoubles hrest ih =>
    rw [hmarks _ hvisible, canonicalAfter, if_pos hdoubles, write_cons, ih]
    rfl

theorem CanonicallySpaced.canonicalSpacing_eq (h : CanonicallySpaced s) :
    canonicalSpacing s = s := by
  rw [canonicalSpacing_eq_write]
  cases h with
  | nil => rfl
  | cons hvisible hrest =>
    rw [marks_cons_of_visible _ hvisible, canonicalMarks, write_cons, hrest.write_eq]
    rfl

/-- Canonical spacing keeps the canonically spaced texts, and no other. -/
theorem canonicalSpacing_eq_self_iff : canonicalSpacing s = s ↔ CanonicallySpaced s := by
  constructor
  · intro h
    rw [← h]
    exact canonicallySpaced_canonicalSpacing s
  · exact CanonicallySpaced.canonicalSpacing_eq

theorem canonicalSpacing_canonicalSpacing (s : Text) :
    canonicalSpacing (canonicalSpacing s) = canonicalSpacing s :=
  (canonicallySpaced_canonicalSpacing s).canonicalSpacing_eq

theorem CanonicallySpaced.eq_nil_iff (h : CanonicallySpaced s) : s = [] ↔ nonblank s = [] := by
  cases h with
  | nil => simp
  | cons hvisible hrest => simp [nonblank_cons_of_visible hvisible]

theorem canonicalSpacing_eq_nil_iff : canonicalSpacing s = [] ↔ nonblank s = [] := by
  rw [← nonblank_canonicalSpacing s]
  exact (canonicallySpaced_canonicalSpacing s).eq_nil_iff

/-- **Canonical spacing is idempotent.**  It leads to a canonically spaced text, which it keeps. -/
theorem canonicalSpacing_idempotent (s : Text) : CanonicallySpaced (canonicalSpacing s) ∧
    canonicalSpacing (canonicalSpacing s) = canonicalSpacing s := by
  have hspaced := canonicallySpaced_canonicalSpacing s
  exact ⟨hspaced, hspaced.canonicalSpacing_eq⟩

/-! ## 3. Settled gaps

A gap is settled when it is as the two characters around it want it.  Settling every gap changes
nothing in canonical spacing, and unlike canonical spacing it can be done part by part. -/

/-- The gap before a character, as the visible character before it wants it; the first character has
no gap. -/
def settledGap : GapRule := fun previous c spaced => previous.any (spaceBetween · c spaced)

/-- The marks of a text that stands behind `previous` and perhaps white space, with settled gaps. -/
def settled (previous : Option Char) (spaced : Bool) (s : Text) : List Mark :=
  respace settledGap previous (marks spaced s)

/-- The last visible character of a text that stands behind `previous`. -/
def lastVisible (previous : Option Char) (s : Text) : Option Char :=
  (nonblank s).getLast?.or previous

theorem canonicalAfter_settled (x : Char) (paired : Bool) (ms : List Mark) :
    canonicalAfter x paired (respace settledGap (some x) ms) = canonicalAfter x paired ms := by
  induction ms generalizing x paired with
  | nil => rfl
  | cons m ms ih =>
    -- within a run of `&` or `*` the old gap does not count, elsewhere it is decided once
    have hgap : settledGap (some x) m.char m.spaced = spaceBetween x m.char m.spaced := rfl
    rw [respace, hgap, canonicalAfter, canonicalAfter]
    by_cases hdoubles : Doubles x m.char
    · simp [hdoubles, ih]
    · simp [hdoubles, ih, spaceBetween_spaceBetween]

theorem canonicalMarks_settled (previous : Option Char) (ms : List Mark) :
    canonicalMarks (respace settledGap previous ms) = canonicalMarks ms := by
  cases ms with
  | nil => rfl
  | cons m ms => simp [respace, canonicalMarks, canonicalAfter_settled]

variable {previous : Option Char} {spaced spaced' : Bool}

theorem canonicalMarks_marks (spaced : Bool) (s : Text) :
    canonicalMarks (marks spaced s) = canonicalMarks (marks false s) := by
  induction s generalizing spaced with
  | nil => rfl
  | cons c s ih =>
    cases hc : isBlank c with
    | true => rw [marks_cons_of_blank _ hc, marks_cons_of_blank _ hc]
    | false => rw [marks_cons_of_visible _ hc, marks_cons_of_visible _ hc]; rfl

/-- Texts with the same settled gaps come to the same canonical spacing. -/
theorem canonicalSpacing_of_settled {s t : Text}
    (h : settled previous spaced s = settled previous spaced' t) :
    canonicalSpacing s = canonicalSpacing t := by
  have hmarks := congrArg canonicalMarks h
  rw [settled, settled, canonicalMarks_settled, canonicalMarks_settled, canonicalMarks_marks,
    canonicalMarks_marks spaced'] at hmarks
  rw [canonicalSpacing_eq_write, canonicalSpacing_eq_write, hmarks]

theorem map_char_respace (rule : GapRule) (previous : Option Char) (ms : List Mark) :
    (respace rule previous ms).map Mark.char = ms.map Mark.char := by
  induction ms generalizing previous with
  | nil => rfl
  | cons m ms ih => rw [respace, List.map_cons, ih, List.map_cons, Mark.respaced_char]

theorem respace_append (rule : GapRule) (previous : Option Char) (ms ns : List Mark) :
    respace rule previous (ms ++ ns) = respace rule previous ms
      ++ respace rule ((ms.map Mark.char).getLast?.or previous) ns := by
  induction ms generalizing previous with
  | nil => rfl
  | cons m ms ih =>
    have hlast : ((m :: ms).map Mark.char).getLast?.or previous
        = (ms.map Mark.char).getLast?.or (some m.char) := by
      rw [List.map_cons, List.getLast?_cons]
      cases (ms.map Mark.char).getLast? <;> rfl
    rw [List.cons_append, respace, ih, hlast, respace, List.cons_append]

theorem settled_append (previous : Option Char) (spaced : Bool) (s t : Text) :
    settled previous spaced (s ++ t) = settled previous spaced s
      ++ settled (lastVisible previous s) (endsSpaced spaced s) t := by
  rw [settled, marks_append, respace_append, map_char_marks]
  rfl

theorem map_char_settled (previous : Option Char) (spaced : Bool) (s : Text) :
    (settled previous spaced s).map Mark.char = nonblank s := by
  rw [settled, map_char_respace, map_char_marks]

theorem settled_eq_nil_iff {s : Text} : settled previous spaced s = [] ↔ nonblank s = [] := by
  rw [← map_char_settled previous spaced s, List.map_eq_nil_iff]

theorem length_settled (previous : Option Char) (spaced : Bool) (s : Text) :
    (settled previous spaced s).length = (nonblank s).length := by
  rw [← map_char_settled previous spaced s, List.length_map]

theorem nonblank_eq_of_settled {s t : Text}
    (h : settled previous spaced s = settled previous spaced' t) : nonblank s = nonblank t := by
  have hchars := congrArg (List.map Mark.char) h
  rwa [map_char_settled, map_char_settled] at hchars

theorem lastVisible_eq_of_settled {s t : Text}
    (h : settled previous spaced s = settled previous spaced' t) :
    lastVisible previous s = lastVisible previous t := by
  rw [lastVisible, lastVisible, nonblank_eq_of_settled h]

theorem settled_append_congr {s s' t t' : Text}
    (hs : settled previous spaced s = settled previous spaced' s')
    (ht : settled (lastVisible previous s') (endsSpaced spaced s) t
      = settled (lastVisible previous s') (endsSpaced spaced' s') t') :
    settled previous spaced (s ++ t) = settled previous spaced' (s' ++ t') := by
  rw [settled_append, settled_append, hs, lastVisible_eq_of_settled hs, ht]

theorem lastVisible_append (previous : Option Char) (s t : Text) :
    lastVisible previous (s ++ t) = lastVisible (lastVisible previous s) t := by
  rw [lastVisible, nonblank_append, List.getLast?_append, Option.or_assoc]
  rfl

theorem lastVisible_of_blank {s : Text} (h : ∀ c ∈ s, isBlank c = true) :
    lastVisible previous s = previous := by
  rw [lastVisible, nonblank_eq_nil h]
  rfl

theorem lastVisible_concat (previous : Option Char) (s : Text) {c : Char} (hc : isBlank c = false) :
    lastVisible previous (s ++ [c]) = some c := by
  rw [lastVisible, nonblank_append, nonblank_singleton_of_not_blank hc, List.getLast?_concat]
  rfl

theorem settled_of_blank {s : Text} (h : ∀ c ∈ s, isBlank c = true) :
    settled previous spaced s = [] := by
  rw [settled, marks_of_blank _ h]
  rfl

theorem settled_cons_of_visible {c : Char} (hc : isBlank c = false) (s : Text) :
    settled previous spaced (c :: s)
      = ⟨settledGap previous c spaced, c, hc⟩ :: settled (some c) false s := by
  rw [settled, marks_cons_of_visible _ hc]
  rfl

theorem settled_cons_congr {c : Char} (hc : isBlank c = false) {s t : Text}
    (hgap : settledGap previous c spaced = settledGap previous c spaced')
    (h : settled (some c) false s = settled (some c) false t) :
    settled previous spaced (c :: s) = settled previous spaced' (c :: t) := by
  rw [settled_cons_of_visible hc, settled_cons_of_visible hc, hgap, h]

theorem settled_space_cons (s : Text) :
    settled previous spaced (' ' :: s) = settled previous true s := by
  rw [settled, settled, marks_space]

/-- White space at the end does not count. -/
theorem settled_append_blanks (s : Text) {blanks : Text} (h : ∀ c ∈ blanks, isBlank c = true) :
    settled previous spaced (s ++ blanks) = settled previous spaced s := by
  rw [settled_append, settled_of_blank h, List.append_nil]

/-- White space in front counts as much as the gap in front. -/
theorem settled_blanks_append {blanks : Text} (h : ∀ c ∈ blanks, isBlank c = true) (s : Text) :
    settled previous spaced (blanks ++ s) = settled previous (spaced || !blanks.isEmpty) s := by
  rw [settled_append, settled_of_blank h, List.nil_append, lastVisible_of_blank h,
    endsSpaced_of_blank h]

/-- Behind the character, or in front of the text, no gap depends on what it is now. -/
def Decides (previous : Option Char) : Prop :=
  ∀ c, settledGap previous c true = settledGap previous c false

theorem decides_none : Decides none := fun _ => rfl

theorem decides_opening : Decides (some '<') := by
  intro c
  simp [settledGap, spaceBetween]

theorem decides_comma : Decides (some ',') := by
  intro c
  simp [settledGap, spaceBetween]

/-- The first gap of a text may change when what stands before it decides the gap. -/
theorem Decides.settled_eq (h : Decides previous) (spaced spaced' : Bool) (s : Text) :
    settled previous spaced s = settled previous spaced' s := by
  induction s generalizing spaced spaced' with
  | nil => rfl
  | cons c s ih =>
    cases hc : isBlank c with
    | true => rw [settled, settled, marks_cons_of_blank _ hc, marks_cons_of_blank _ hc]
    | false =>
      have hgap : settledGap previous c spaced = settledGap previous c spaced' := by
        have := h c
        cases spaced <;> cases spaced' <;> simp [this]
      rw [settled_cons_of_visible hc, settled_cons_of_visible hc, hgap]

theorem spaceBetween_of_doubles {x y : Char} (h : Doubles x y) (spaced : Bool) :
    spaceBetween x y spaced = true := by
  obtain ⟨rfl, rfl | rfl⟩ := h <;> simp [spaceBetween]

theorem respace_canonicalAfter (x : Char) (paired : Bool) (ms : List Mark) :
    respace settledGap (some x) (canonicalAfter x paired ms) = respace settledGap (some x) ms := by
  have hgap : ∀ y spaced, settledGap (some x) y spaced = spaceBetween x y spaced := fun _ _ => rfl
  induction ms generalizing x paired with
  | nil => rfl
  | cons m ms ih =>
    have hrest := ih m.char
    -- between the characters of a pair a space is wanted whether it is there or not
    by_cases hdoubles : Doubles x m.char
    · have hboth := spaceBetween_of_doubles hdoubles
      simp only [canonicalAfter, if_pos hdoubles, respace, Mark.respaced_char,
        Mark.respaced_respaced, hgap, hboth, hrest _ fun _ _ => rfl]
    · simp only [canonicalAfter, if_neg hdoubles, respace, Mark.respaced_char,
        Mark.respaced_spaced, Mark.respaced_respaced, hgap, spaceBetween_spaceBetween,
        hrest _ fun _ _ => rfl]

/-- Canonical spacing leaves every gap as settled as it was. -/
theorem settled_canonicalSpacing (s : Text) :
    settled none false (canonicalSpacing s) = settled none false s := by
  rw [settled, settled, marks_canonicalSpacing]
  cases marks false s with
  | nil => rfl
  | cons m ms =>
    simp only [canonicalMarks, respace, Mark.respaced_char, Mark.respaced_respaced,
      respace_canonicalAfter]
    rfl

theorem canonicalSpacing_append_blanks (s : Text) {blanks : Text}
    (h : ∀ c ∈ blanks, isBlank c = true) :
    canonicalSpacing (s ++ blanks) = canonicalSpacing s :=
  have hsettled : settled none false (s ++ blanks) = settled none false s :=
    settled_append_blanks s h
  canonicalSpacing_of_settled hsettled

theorem canonicalSpacing_blanks_append {blanks : Text} (h : ∀ c ∈ blanks, isBlank c = true)
    (s : Text) : canonicalSpacing (blanks ++ s) = canonicalSpacing s :=
  have hsettled : settled none false (blanks ++ s) = settled none (false || !blanks.isEmpty) s :=
    settled_blanks_append h s
  canonicalSpacing_of_settled hsettled

/-! ## 4. Commas -/

theorem canonicalAfter_append_comma (x : Char) (paired : Bool) (ms : List Mark) {m : Mark}
    (hm : m.char = ',') (ns : List Mark) :
    canonicalAfter x paired (ms ++ m :: ns)
      = canonicalAfter x paired ms ++ m.respaced false :: canonicalAfter ',' false ns := by
  induction ms generalizing x paired with
  | nil =>
    have hsingle : ¬ Doubles x ',' := by
      rintro ⟨rfl, h | h⟩ <;> cases h
    simp [canonicalAfter, hsingle, hm, spaceBetween]
  | cons n ms ih =>
    by_cases hdoubles : Doubles x n.char <;> simp [canonicalAfter, hdoubles, ih]

/-- Behind a comma the canonical marks are those of a text of its own, but for a space in front. -/
theorem exists_write_canonicalAfter_comma (ms : List Mark) :
    ∃ b, write (canonicalAfter ',' false ms) = spaceIf b ++ write (canonicalMarks ms) := by
  cases ms with
  | nil => exact ⟨false, rfl⟩
  | cons m ms =>
    have hsingle : ¬ Doubles ',' m.char := by
      rintro ⟨-, h | h⟩ <;> cases h
    exact ⟨spaceBetween ',' m.char m.spaced, by simp [canonicalAfter, hsingle, canonicalMarks]⟩

/-- Canonical spacing of a list is that of its items, with a comma and perhaps a space between. -/
theorem exists_canonicalSpacing_comma (s t : Text) :
    ∃ b, canonicalSpacing (s ++ ',' :: t)
      = canonicalSpacing s ++ ',' :: (spaceIf b ++ canonicalSpacing t) := by
  have hcomma : isBlank ',' = false := by decide
  -- the comma ends a run, so the marks behind it are those of a text of its own
  obtain ⟨b, hb⟩ := exists_write_canonicalAfter_comma (marks false t)
  refine ⟨b, ?_⟩
  simp only [canonicalSpacing_eq_write, marks_append, marks_cons_of_visible _ hcomma, ← hb]
  cases marks false s with
  | nil => simp [canonicalMarks]
  | cons m ms =>
    rw [List.cons_append, canonicalMarks, canonicalMarks, canonicalAfter_append_comma _ _ _ rfl]
    simp [write_append]

/-! ## 5. Single spaces -/

theorem tidy_canonicalSpacing (s : Text) : Tidy (canonicalSpacing s) := by
  rw [canonicalSpacing_eq_write]
  apply tidy_write
  cases marks false s with
  | nil => simp [canonicalMarks]
  | cons m ms => simp [canonicalMarks]

end TypeSignature
