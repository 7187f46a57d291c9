import Mathlib.Data.List.Chain
import TypeSignature.Proofs.Text.Nonblank

/-!
# Marks — a text as its visible characters and the gaps between them

White space separates; how much of it stands in a gap does not count.  The marks of a text are its
characters that are not white space, each with the answer to one question: does white space stand
directly before it?  On a text whose gaps are single spaces, every rule for single spaces decides
the answers anew and touches nothing else.
-/

namespace TypeSignature.Text

/-- A visible character, and whether white space stands directly before it. -/
@[ext]
structure Mark where
  spaced : Bool
  char : Char
  visible : isBlank char = false

/-- The mark with another answer. -/
def Mark.respaced (m : Mark) (spaced : Bool) : Mark := { m with spaced }

@[simp] theorem Mark.respaced_char (m : Mark) (spaced : Bool) :
    (m.respaced spaced).char = m.char := rfl

@[simp] theorem Mark.respaced_spaced (m : Mark) (spaced : Bool) :
    (m.respaced spaced).spaced = spaced := rfl

@[simp] theorem Mark.respaced_respaced (m : Mark) (b b' : Bool) :
    (m.respaced b).respaced b' = m.respaced b' := rfl

theorem Mark.char_ne_space (m : Mark) : m.char ≠ ' ' := by
  intro h
  have hvisible := m.visible
  rw [h, isBlank_space] at hvisible
  contradiction

/-- The marks of a text; `spaced` says whether white space stands in front of the text. -/
def marks : (spaced : Bool) → Text → List Mark
  | _, [] => []
  | spaced, c :: s =>
    if h : isBlank c = false then ⟨spaced, c, h⟩ :: marks false s else marks true s

/-- Whether a text ends in white space; an empty one ends as what stands in front of it. -/
def endsSpaced : (spaced : Bool) → Text → Bool
  | spaced, [] => spaced
  | _, c :: s => endsSpaced (isBlank c) s

variable {spaced : Bool} {c : Char} {s t : Text} {ms : List Mark}

@[simp] theorem marks_nil (spaced : Bool) : marks spaced [] = [] := rfl

theorem marks_cons_of_visible (spaced : Bool) (h : isBlank c = false) (s : Text) :
    marks spaced (c :: s) = ⟨spaced, c, h⟩ :: marks false s := by
  rw [marks, dif_pos h]

theorem marks_cons_of_blank (spaced : Bool) (h : isBlank c = true) (s : Text) :
    marks spaced (c :: s) = marks true s := by
  rw [marks, dif_neg (by simp [h])]

@[simp] theorem marks_space (spaced : Bool) (s : Text) : marks spaced (' ' :: s) = marks true s :=
  marks_cons_of_blank spaced isBlank_space s

theorem marks_append (spaced : Bool) (s t : Text) :
    marks spaced (s ++ t) = marks spaced s ++ marks (endsSpaced spaced s) t := by
  induction s generalizing spaced with
  | nil => rfl
  | cons c s ih =>
    cases hc : isBlank c with
    | true => rw [List.cons_append, marks_cons_of_blank _ hc, ih, marks_cons_of_blank _ hc,
        endsSpaced, hc]
    | false => rw [List.cons_append, marks_cons_of_visible _ hc, ih, marks_cons_of_visible _ hc,
        endsSpaced, hc, List.cons_append]

theorem endsSpaced_append (spaced : Bool) (s t : Text) :
    endsSpaced spaced (s ++ t) = endsSpaced (endsSpaced spaced s) t := by
  induction s generalizing spaced with
  | nil => rfl
  | cons c s ih => rw [List.cons_append, endsSpaced, ih, endsSpaced]

theorem endsSpaced_concat_of_visible (spaced : Bool) (s : Text) (hc : isBlank c = false) :
    endsSpaced spaced (s ++ [c]) = false := by
  rw [endsSpaced_append, endsSpaced, hc, endsSpaced]

theorem endsSpaced_of_ne_nil (h : s ≠ []) (spaced spaced' : Bool) :
    endsSpaced spaced s = endsSpaced spaced' s := by
  cases s with
  | nil => exact absurd rfl h
  | cons c s => rfl

theorem marks_of_blank (spaced : Bool) (h : ∀ c ∈ s, isBlank c = true) : marks spaced s = [] := by
  induction s generalizing spaced with
  | nil => rfl
  | cons c s ih =>
    obtain ⟨hc, hs⟩ := List.forall_mem_cons.mp h
    rw [marks_cons_of_blank _ hc, ih _ hs]

theorem endsSpaced_of_blank (h : ∀ c ∈ s, isBlank c = true) :
    endsSpaced spaced s = (spaced || !s.isEmpty) := by
  induction s generalizing spaced with
  | nil => simp [endsSpaced]
  | cons c s ih =>
    obtain ⟨hc, hs⟩ := List.forall_mem_cons.mp h
    rw [endsSpaced, ih hs, hc]
    simp

/-- The marks are the characters that are not white space. -/
theorem map_char_marks (spaced : Bool) (s : Text) :
    (marks spaced s).map Mark.char = nonblank s := by
  induction s generalizing spaced with
  | nil => rfl
  | cons c s ih =>
    cases hc : isBlank c with
    | true => rw [marks_cons_of_blank _ hc, ih, nonblank_cons_of_blank hc]
    | false => rw [marks_cons_of_visible _ hc, List.map_cons, ih, nonblank_cons_of_visible hc]

/-! ## 1. Writing marks -/

/-- One space or none. -/
def spaceIf (spaced : Bool) : Text := if spaced then [' '] else []

@[simp] theorem spaceIf_true : spaceIf true = [' '] := rfl

@[simp] theorem spaceIf_false : spaceIf false = [] := rfl

/-- The character of a mark behind its space, if it has one. -/
def Mark.text (m : Mark) : Text := spaceIf m.spaced ++ [m.char]

/-- The text of the given marks, with single spaces in its gaps. -/
def write (ms : List Mark) : Text := ms.flatMap Mark.text

@[simp] theorem write_nil : write [] = [] := rfl

@[simp] theorem write_cons (m : Mark) (ms : List Mark) :
    write (m :: ms) = spaceIf m.spaced ++ m.char :: write ms := by
  simp [write, Mark.text]

theorem write_append (ms ns : List Mark) : write (ms ++ ns) = write ms ++ write ns := by
  simp [write]

theorem marks_write_append (ms : List Mark) (s : Text) :
    marks false (write ms ++ s) = ms ++ marks false s := by
  induction ms with
  | nil => rfl
  | cons m ms ih =>
    obtain ⟨spaced, c, hc⟩ := m
    cases spaced <;> simp [marks_cons_of_visible _ hc, ih]

@[simp] theorem marks_write (ms : List Mark) : marks false (write ms) = ms := by
  have h := marks_write_append ms []
  rwa [List.append_nil, marks_nil, List.append_nil] at h

/-- The text has the given marks, single spaces in its gaps, and at most one space at its end. -/
def Spells (ms : List Mark) (s : Text) : Prop := ∃ tail : Bool, s = write ms ++ spaceIf tail

/-- Once white space is collapsed, every gap is a single space.  A space that has been written
already is the one that the next mark asks for. -/
theorem spells_collapseBlanks (s : Text) : Spells (marks false s) (collapseBlanks s) := by
  suffices h : ∀ previous : Option Char, ∃ tail : Bool,
      spaceIf (previous.any isBlank) ++ mapWithPrevious
        (fun previous c => if isBlank c then (if previous.any isBlank then [] else [' ']) else [c])
        previous s = write (marks (previous.any isBlank) s) ++ spaceIf tail by
    exact h none
  intro previous
  induction s generalizing previous with
  | nil => exact ⟨previous.any isBlank, by simp [mapWithPrevious]⟩
  | cons c s ih =>
    obtain ⟨tail, htail⟩ := ih (some c)
    refine ⟨tail, ?_⟩
    rw [Option.any_some] at htail
    cases hc : isBlank c with
    | true =>
      rw [hc, spaceIf_true] at htail
      rw [marks_cons_of_blank _ hc, ← htail, mapWithPrevious, if_pos hc]
      cases previous.any isBlank <;> rfl
    | false =>
      rw [hc, spaceIf_false, List.nil_append] at htail
      rw [marks_cons_of_visible _ hc, mapWithPrevious, hc, if_neg (by simp), htail]
      simp

/-! ## 2. Rules that look at the gap before a character -/

/-- Whether a space is to stand before a character, from the visible character before it, the
character itself, and whether a space stands there now. -/
abbrev GapRule := Option Char → Char → Bool → Bool

/-- Applies a rule to the gap before each mark. -/
def respace (rule : GapRule) : (previous : Option Char) → List Mark → List Mark
  | _, [] => []
  | previous, m :: ms =>
    m.respaced (rule previous m.char m.spaced) :: respace rule (some m.char) ms

theorem respace_respace (f g : GapRule) (previous : Option Char) (ms : List Mark) :
    respace f previous (respace g previous ms)
      = respace (fun previous c spaced => f previous c (g previous c spaced)) previous ms := by
  induction ms generalizing previous with
  | nil => rfl
  | cons m ms ih => simp only [respace, Mark.respaced_char, Mark.respaced_spaced,
      Mark.respaced_respaced, ih]

/-- A rewriting by the preceding character respaces a text if it does so for each single gap.  The
preceding character in the text is a space when there is a gap, and the visible one otherwise. -/
theorem Spells.mapWithPrevious {f : Option Char → Char → Text} {rule : GapRule}
    (hopen : ∀ previous, ∃ kept, f previous ' ' = spaceIf kept)
    (hspaced : ∀ previous c, isBlank c = false →
      f previous ' ' ++ f (some ' ') c = spaceIf (rule previous c true) ++ [c])
    (hclosed : ∀ previous c, isBlank c = false → previous ≠ some ' ' →
      f previous c = spaceIf (rule previous c false) ++ [c])
    (h : Spells ms s) : Spells (respace rule none ms) (mapWithPrevious f none s) := by
  obtain ⟨tail, rfl⟩ := h
  suffices h : ∀ previous : Option Char, previous ≠ some ' ' → ∃ tail' : Bool,
      Text.mapWithPrevious f previous (write ms ++ spaceIf tail)
        = write (respace rule previous ms) ++ spaceIf tail' by
    exact h none (by simp)
  induction ms with
  | nil =>
    intro previous _
    cases tail with
    | false => exact ⟨false, rfl⟩
    | true =>
      obtain ⟨kept, hkept⟩ := hopen previous
      exact ⟨kept, by simp [Text.mapWithPrevious, hkept, respace]⟩
  | cons m ms ih =>
    intro previous hprevious
    obtain ⟨spaced, c, hc⟩ := m
    have hne : some c ≠ some ' ' := fun h => Mark.char_ne_space ⟨spaced, c, hc⟩ (Option.some.inj h)
    obtain ⟨tail', hrest⟩ := ih (some c) hne
    refine ⟨tail', ?_⟩
    -- with a gap the rewriting sees the space and then the character, without one the character
    cases spaced with
    | true =>
      have hgap := hspaced previous c hc
      simp only [write_cons, spaceIf_true, List.cons_append, List.nil_append,
        Text.mapWithPrevious, hrest, respace, Mark.respaced]
      rw [← List.append_assoc, hgap]
      simp
    | false =>
      have hgap := hclosed previous c hc hprevious
      simp only [write_cons, spaceIf_false, List.nil_append, List.cons_append,
        Text.mapWithPrevious, hrest, respace, Mark.respaced, hgap]
      simp

section

variable (token : Char) (htoken : isBlank token = false) (h : Spells ms s)

include htoken h

theorem Spells.insertSpacesAfter : Spells
    (respace (fun previous _ spaced => spaced || decide (previous = some token)) none ms)
    (insertSpacesAfter token s) := by
  have hne : token ≠ ' ' := Mark.char_ne_space ⟨false, token, htoken⟩
  refine h.mapWithPrevious ?_ ?_ ?_
  · intro previous
    exact ⟨true, by simp⟩
  · intro previous c hc
    simp [Ne.symm hne]
  · intro previous c hc _
    have hspace : c ≠ ' ' := Mark.char_ne_space ⟨false, c, hc⟩
    by_cases hprevious : previous = some token <;> simp [hprevious, hspace]

theorem Spells.insertSpacesBefore : Spells
    (respace (fun previous c spaced =>
      spaced || decide (c = token ∧ previous ≠ none ∧ previous ≠ some token)) none ms)
    (insertSpacesBefore token s) := by
  have hne : token ≠ ' ' := Mark.char_ne_space ⟨false, token, htoken⟩
  refine h.mapWithPrevious ?_ ?_ ?_
  · intro previous
    exact ⟨true, by simp [Ne.symm hne]⟩
  · intro previous c hc
    simp [Ne.symm hne]
  · intro previous c hc hprevious
    by_cases hinsert : c = token ∧ previous ≠ none ∧ previous ≠ some token
    · simp [hinsert, hprevious]
    · have hkept : ¬ (c = token ∧ previous ≠ none ∧ previous ≠ some ' ' ∧
          previous ≠ some token) := fun hall => hinsert ⟨hall.1, hall.2.1, hall.2.2.2⟩
      rw [if_neg hkept, decide_eq_false hinsert]
      rfl

theorem Spells.removeSpacesAfter : Spells
    (respace (fun previous _ spaced => spaced && decide (previous ≠ some token)) none ms)
    (removeSpacesAfter token s) := by
  have hne : token ≠ ' ' := Mark.char_ne_space ⟨false, token, htoken⟩
  refine h.mapWithPrevious ?_ ?_ ?_
  · intro previous
    by_cases hprevious : previous = some token
    · exact ⟨false, by simp [hprevious]⟩
    · exact ⟨true, by simp [hprevious]⟩
  · intro previous c hc
    by_cases hprevious : previous = some token <;> simp [hprevious, Ne.symm hne]
  · intro previous c hc _
    have hspace : c ≠ ' ' := Mark.char_ne_space ⟨false, c, hc⟩
    simp [hspace]

end

theorem Spells.removeSpacesBefore (token : Char) (h : Spells ms s) : Spells
    (respace (fun _ c spaced => spaced && decide (c ≠ token)) none ms)
    (removeSpacesBefore token s) := by
  obtain ⟨tail, rfl⟩ := h
  refine ⟨tail, ?_⟩
  -- the rule ignores what precedes, so the induction is for any preceding character
  generalize (none : Option Char) = previous
  induction ms generalizing previous with
  | nil => cases tail <;> rfl
  | cons m ms ih =>
    obtain ⟨spaced, c, hc⟩ := m
    have hspace : c ≠ ' ' := Mark.char_ne_space ⟨spaced, c, hc⟩
    have hrest := ih (some c)
    rw [Text.removeSpacesBefore] at hrest ⊢
    cases spaced <;> by_cases hc' : c = token <;>
      simp_all [mapWithNext, respace, Mark.respaced]

/-- To replace a space and a token by the token is to remove the space. -/
theorem replace_space_token {token : Char} (htoken : isBlank token = false) (s : Text) :
    s.replace [' ', token] [token] = removeSpacesBefore token s := by
  have hne : token ≠ ' ' := Mark.char_ne_space ⟨false, token, htoken⟩
  show replaceFrom [' ', token] [token] 0 s = mapWithNext _ s
  induction s with
  | nil => rfl
  | cons c s ih =>
    rw [mapWithNext, ← ih]
    by_cases hmatch : c = ' ' ∧ s.head? = some token
    · -- the token behind the space is no occurrence itself, so it is kept either way
      obtain ⟨rfl, hhead⟩ := hmatch
      obtain ⟨s, rfl⟩ := List.head?_eq_some_iff.mp hhead
      have hmatch : List.isPrefixOf [' ', token] (' ' :: token :: s) = true := by
        simp [List.isPrefixOf]
      have hkept : List.isPrefixOf [' ', token] (token :: s) = false := by
        simp [List.isPrefixOf, Ne.symm hne]
      rw [replaceFrom, if_pos hmatch, if_pos ⟨rfl, rfl⟩, replaceFrom, if_neg (by simp [hkept])]
      rfl
    · have hkept : ¬ List.isPrefixOf [' ', token] (c :: s) = true := by
        intro hstarts
        cases s with
        | nil => simp [List.isPrefixOf] at hstarts
        | cons d s =>
          simp only [List.isPrefixOf, Bool.and_eq_true, beq_iff_eq] at hstarts
          exact hmatch ⟨hstarts.1.symm, by rw [hstarts.2.1, List.head?_cons]⟩
      rw [replaceFrom, if_neg hkept, if_neg hmatch]
      rfl

/-! ## 3. Pairs -/

/-- Opens or closes the gap between `x` and `y` wherever it is as `spaced` says.  Pairs are taken
from the left and do not overlap: `unpaired` says that the mark before is an `x` which no pair has
taken. -/
def rejoin (x y : Char) (spaced : Bool) : (unpaired : Bool) → List Mark → List Mark
  | _, [] => []
  | unpaired, m :: ms =>
    if unpaired ∧ m.char = y ∧ m.spaced = spaced then
      m.respaced (!spaced) :: rejoin x y spaced false ms
    else m :: rejoin x y spaced (m.char == x) ms

theorem rejoin_cons_of_not {x y : Char} {spaced unpaired : Bool} {m : Mark}
    (h : ¬ (unpaired = true ∧ m.char = y ∧ m.spaced = spaced)) (ms : List Mark) :
    rejoin x y spaced unpaired (m :: ms) = m :: rejoin x y spaced (m.char == x) ms := by
  rw [rejoin, if_neg h]

theorem replaceFrom_of_ne {x : Char} (old new : Text) (hc : c ≠ x) (s : Text) :
    replaceFrom (x :: old) new 0 (c :: s) = c :: replaceFrom (x :: old) new 0 s := by
  rw [replaceFrom, if_neg (by simp [List.isPrefixOf, Ne.symm hc])]

theorem replaceFrom_spaceIf {x : Char} (hx : x ≠ ' ') (old new : Text) (spaced : Bool) (s : Text) :
    replaceFrom (x :: old) new 0 (spaceIf spaced ++ s)
      = spaceIf spaced ++ replaceFrom (x :: old) new 0 s := by
  cases spaced with
  | false => rfl
  | true => exact replaceFrom_of_ne old new (Ne.symm hx) s

section

variable {x y : Char} (hx : isBlank x = false) (hy : isBlank y = false) (spaced tail : Bool)

include hx hy

/-- Where two characters and the gap between them begin, the first mark is followed by one that has
the second character and the gap. -/
theorem isPrefixOf_pair_iff (c : Char) (ms : List Mark) :
    (x :: spaceIf spaced ++ [y]).isPrefixOf (c :: (write ms ++ spaceIf tail)) = true ↔
      c = x ∧ ∃ n ns, ms = n :: ns ∧ n.char = y ∧ n.spaced = spaced := by
  have hxs : x ≠ ' ' := Mark.char_ne_space ⟨false, x, hx⟩
  have hys : y ≠ ' ' := Mark.char_ne_space ⟨false, y, hy⟩
  cases ms with
  | nil => cases spaced <;> cases tail <;> simp [List.isPrefixOf, hys]
  | cons n ns =>
    have hn := n.char_ne_space
    cases spaced <;> cases h : n.spaced <;>
      simp [List.isPrefixOf, hys, h, Ne.symm hn, @eq_comm _ x c, @eq_comm _ y]

theorem replaceFrom_pair : ∀ (unpaired : Bool) (ms : List Mark),
    (unpaired = true → ∀ m ∈ ms.head?, ¬ (m.char = y ∧ m.spaced = spaced)) →
    replaceFrom (x :: spaceIf spaced ++ [y]) (x :: spaceIf (!spaced) ++ [y]) 0
      (write ms ++ spaceIf tail) = write (rejoin x y spaced unpaired ms) ++ spaceIf tail
  | unpaired, [], _ => by
    have hxs : x ≠ ' ' := Mark.char_ne_space ⟨false, x, hx⟩
    have htail := replaceFrom_spaceIf hxs (spaceIf spaced ++ [y]) (x :: spaceIf (!spaced) ++ [y])
      tail []
    rw [List.append_nil] at htail
    exact htail.trans (List.append_nil _)
  | unpaired, m :: ms, hunpaired => by
    have hxs : x ≠ ' ' := Mark.char_ne_space ⟨false, x, hx⟩
    have hfirst : ¬ (unpaired = true ∧ m.char = y ∧ m.spaced = spaced) :=
      fun h => hunpaired h.1 m rfl h.2
    have hwrite : ∀ n ns, write (n :: ns) ++ spaceIf tail
        = spaceIf n.spaced ++ n.char :: (write ns ++ spaceIf tail) := by simp
    rw [hwrite, rejoin_cons_of_not hfirst, hwrite]
    refine (replaceFrom_spaceIf hxs (spaceIf spaced ++ [y]) _ m.spaced _).trans
      (congrArg (spaceIf m.spaced ++ ·) ?_)
    by_cases hpair : m.char = x ∧ ∃ n ns, ms = n :: ns ∧ n.char = y ∧ n.spaced = spaced
    · -- both marks belong to the occurrence, and the next may begin behind them
      have hprefix := (isPrefixOf_pair_iff hx hy spaced tail m.char ms).mpr hpair
      obtain ⟨hm, n, ns, rfl, hn, hgap⟩ := hpair
      have hrest := replaceFrom_pair false ns (by simp)
      have hlength : (x :: spaceIf spaced ++ [y]).length - 1 = (spaceIf spaced ++ [y]).length := rfl
      have hbehind : (write (n :: ns) ++ spaceIf tail).drop (spaceIf spaced ++ [y]).length
          = write ns ++ spaceIf tail := by
        rw [hwrite, hgap, hn]
        cases spaced <;> rfl
      have hjoined : rejoin x y spaced (m.char == x) (n :: ns)
          = n.respaced (!spaced) :: rejoin x y spaced false ns := by
        rw [rejoin, if_pos ⟨by simp [hm], hn, hgap⟩]
      show replaceFrom (x :: spaceIf spaced ++ [y]) _ 0 (m.char :: _) = _
      rw [replaceFrom, if_pos hprefix, replaceFrom_skip, hlength, hbehind, hrest, hjoined, hwrite,
        hm, Mark.respaced_char, Mark.respaced_spaced, hn]
      simp
    · have hprefix := mt (isPrefixOf_pair_iff hx hy spaced tail m.char ms).mp hpair
      have hrest := replaceFrom_pair (m.char == x) ms (by
        intro hm n hhead hn
        obtain ⟨ns, rfl⟩ := List.head?_eq_some_iff.mp hhead
        exact hpair ⟨eq_of_beq hm, n, ns, rfl, hn⟩)
      show replaceFrom (x :: spaceIf spaced ++ [y]) _ 0 (m.char :: _) = _
      rw [replaceFrom, if_neg hprefix, hrest]

/-- A substitution for two visible characters and the gap between them changes the gap. -/
theorem Spells.replace {ms : List Mark} {s : Text} (h : Spells ms s) :
    Spells (rejoin x y spaced false ms)
      (s.replace (x :: spaceIf spaced ++ [y]) (x :: spaceIf (!spaced) ++ [y])) := by
  obtain ⟨tail, rfl⟩ := h
  exact ⟨tail, replaceFrom_pair hx hy spaced tail false ms (by simp)⟩

end

/-- No gap is changed where a rule has left none of the kind. -/
theorem rejoin_respace {x y : Char} {spaced : Bool} {rule : GapRule}
    (hrule : ∀ b, rule (some x) y b = !spaced) {previous : Option Char} {unpaired : Bool}
    (hunpaired : unpaired = true → previous = some x) (ms : List Mark) :
    rejoin x y spaced unpaired (respace rule previous ms) = respace rule previous ms := by
  induction ms generalizing previous unpaired with
  | nil => rfl
  | cons m ms ih =>
    have hkept : ¬ (unpaired = true ∧ m.char = y ∧ rule previous m.char m.spaced = spaced) := by
      rintro ⟨hu, hy, hgap⟩
      rw [hunpaired hu, hy, hrule] at hgap
      cases spaced <;> cases hgap
    have hnext : (m.char == x) = true → some m.char = some x := fun h =>
      congrArg some (eq_of_beq h)
    rw [respace, rejoin_cons_of_not (m := m.respaced _) hkept, Mark.respaced_char, ih hnext]

/-! ## 4. Trimming -/

theorem dropEndWhile_write (ms : List Mark) : dropEndWhile (· == ' ') (write ms) = write ms := by
  rcases List.eq_nil_or_concat ms with rfl | ⟨ms, m, rfl⟩
  · rfl
  · have hlast : ¬ (m.char == ' ') = true := by simp [m.char_ne_space]
    rw [List.concat_eq_append, write_append, write_cons, write_nil, ← List.append_assoc]
    exact List.rdropWhile_concat_neg _ _ _ hlast

theorem trimSpaces_of_spells_nil {s : Text} (h : Spells [] s) : trimSpaces s = [] := by
  obtain ⟨tail, rfl⟩ := h
  cases tail <;> rfl

theorem trimSpaces_of_spells_cons {m : Mark} {ms : List Mark} {s : Text} (h : Spells (m :: ms) s) :
    trimSpaces s = write (m.respaced false :: ms) := by
  obtain ⟨tail, rfl⟩ := h
  have hhead : ¬ (m.char == ' ') = true := by simp [m.char_ne_space]
  have hfront : (write (m :: ms) ++ spaceIf tail).dropWhile (· == ' ')
      = write (m.respaced false :: ms) ++ spaceIf tail := by
    rw [write_cons, write_cons]
    cases m.spaced <;> simp [hhead]
  have htail : ∀ c ∈ spaceIf tail, (c == ' ') = true := by
    cases tail <;> simp
  show dropEndWhile _ ((write (m :: ms) ++ spaceIf tail).dropWhile _) = _
  rw [hfront, dropEndWhile_append_of_all htail, dropEndWhile_write]

theorem trimSpaces_eq_self {s : Text} (hhead : ∀ c ∈ s.head?, c ≠ ' ')
    (hlast : ∀ c ∈ s.getLast?, c ≠ ' ') : trimSpaces s = s := by
  apply trimWhere_eq_self
  · simpa using hhead
  · simpa using hlast

theorem getLast_trimSpaces_ne (s : Text) : ∀ c ∈ (trimSpaces s).getLast?, c ≠ ' ' := by
  intro c hc
  simpa using getLast_trimWhere (· == ' ') s c hc

theorem head_trimSpaces_ne (s : Text) : ∀ c ∈ (trimSpaces s).head?, c ≠ ' ' := by
  intro c hc
  simpa using head_trimWhere (· == ' ') s c hc

theorem trimSpaces_trimSpaces (s : Text) : trimSpaces (trimSpaces s) = trimSpaces s :=
  trimSpaces_eq_self (head_trimSpaces_ne s) (getLast_trimSpaces_ne s)

/-- No two spaces are adjacent, and none stands at either end. -/
structure Tidy (s : Text) : Prop where
  head : ∀ c ∈ s.head?, c ≠ ' '
  last : ∀ c ∈ s.getLast?, c ≠ ' '
  single : s.IsChain fun c d => c = ' ' → d ≠ ' '

theorem isChain_write (ms : List Mark) : (write ms).IsChain fun c d => c = ' ' → d ≠ ' ' := by
  induction ms with
  | nil => exact .nil
  | cons m ms ih =>
    have hm := m.char_ne_space
    have hbehind : (m.char :: write ms).IsChain fun c d => c = ' ' → d ≠ ' ' :=
      List.isChain_cons.mpr ⟨fun d _ h => absurd h hm, ih⟩
    rw [write_cons]
    cases m.spaced with
    | false => exact hbehind
    | true => exact List.isChain_cons_cons.mpr ⟨fun _ => hm, hbehind⟩

theorem tidy_write {ms : List Mark} (h : ∀ m ∈ ms.head?, m.spaced = false) : Tidy (write ms) where
  head := by
    cases ms with
    | nil => simp
    | cons m ms => simp [h m rfl, m.char_ne_space]
  last := by
    rcases List.eq_nil_or_concat ms with rfl | ⟨ms, m, rfl⟩
    · simp
    · rw [List.concat_eq_append, write_append, write_cons, write_nil, ← List.append_assoc,
        List.getLast?_concat]
      intro c hc
      rw [← Option.some.inj hc]
      exact m.char_ne_space
  single := isChain_write ms

theorem Tidy.trimSpaces_eq {s : Text} (h : Tidy s) : trimSpaces s = s :=
  trimSpaces_eq_self h.head h.last

end TypeSignature.Text
