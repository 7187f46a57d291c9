import TypeSignature.Proofs.Canonical
import TypeSignature.Proofs.EastConst
import TypeSignature.Proofs.Tree.Regrouping

/-!
# Conventional — texts that are spaced as trees are written

When a tree is written, no space stands before an opening bracket, one stands before what follows a
group, and no group opens again.  A text is conventional if it keeps to that as far as canonical
spacing can tell.  Canonical spacing itself, moving `const` and replacing a nested name by a plain
one leave a conventional text conventional.
-/

namespace TypeSignature

open Text

/-- The settled gap before a character is what it would be with a space behind a closing bracket,
and without one before an opening bracket. -/
structure Fits (previous : Option Char) (c : Char) (gap : Bool) : Prop where
  behind : previous = some '>' → gap = settledGap previous c true
  before : c = '<' → gap = settledGap previous c false

/-- Every gap of the marks fits. -/
def AllFit : (previous : Option Char) → List Mark → Prop
  | _, [] => True
  | previous, m :: ms => Fits previous m.char m.spaced ∧ AllFit (some m.char) ms

/-- Every gap of a text that stands behind `previous` and perhaps white space fits once it is
settled. -/
def Fitting (previous : Option Char) (spaced : Bool) (s : Text) : Prop :=
  AllFit previous (settled previous spaced s)

variable {previous : Option Char} {spaced : Bool} {c : Char} {s t : Text}

theorem allFit_append (previous : Option Char) (ms ns : List Mark) : AllFit previous (ms ++ ns) ↔
    AllFit previous ms ∧ AllFit ((ms.map Mark.char).getLast?.or previous) ns := by
  induction ms generalizing previous with
  | nil => simp [AllFit]
  | cons m ms ih =>
    have hlast : ((m :: ms).map Mark.char).getLast?.or previous
        = (ms.map Mark.char).getLast?.or (some m.char) := by
      rw [List.map_cons, List.getLast?_cons]
      cases (ms.map Mark.char).getLast? <;> rfl
    rw [List.cons_append, AllFit, AllFit, ih, hlast, and_assoc]

theorem fitting_append (previous : Option Char) (spaced : Bool) (s t : Text) :
    Fitting previous spaced (s ++ t) ↔ Fitting previous spaced s ∧
      Fitting (lastVisible previous s) (endsSpaced spaced s) t := by
  have hlast : ((settled previous spaced s).map Mark.char).getLast?.or previous
      = lastVisible previous s := by
    rw [map_char_settled]
    rfl
  rw [Fitting, settled_append, allFit_append, hlast]
  rfl

theorem fitting_cons_of_visible (hc : isBlank c = false) (s : Text) :
    Fitting previous spaced (c :: s) ↔
      Fits previous c (settledGap previous c spaced) ∧ Fitting (some c) false s := by
  rw [Fitting, settled_cons_of_visible hc]
  rfl

theorem fitting_cons_of_blank (hc : isBlank c = true) (s : Text) :
    Fitting previous spaced (c :: s) ↔ Fitting previous true s := by
  rw [Fitting, settled, marks_cons_of_blank _ hc]
  rfl

/-- A text that begins where no gap matters fits there if it fits anywhere. -/
theorem Fitting.restart {previous' : Option Char} {spaced' : Bool} (h : Fitting previous spaced s)
    (hdecides : Decides previous') (hne : previous' ≠ some '>') : Fitting previous' spaced' s := by
  -- only the first visible character stands behind what came before
  induction s generalizing spaced spaced' with
  | nil => exact h
  | cons c s ih =>
    cases hc : isBlank c with
    | true =>
      rw [fitting_cons_of_blank hc] at h ⊢
      exact ih h
    | false =>
      rw [fitting_cons_of_visible hc] at h ⊢
      refine ⟨⟨fun hprevious => absurd hprevious hne, fun _ => ?_⟩, h.2⟩
      cases spaced' with
      | true => exact hdecides c
      | false => rfl

/-- A text without brackets fits anywhere but directly behind a closing bracket. -/
theorem fitting_of_plain (hs : Brackets.angle.Plain s)
    (hprevious : previous = some '>' → spaced = true) : Fitting previous spaced s := by
  induction s generalizing previous spaced with
  | nil => trivial
  | cons c s ih =>
    obtain ⟨hc, hs⟩ := List.forall_mem_cons.mp hs
    obtain ⟨hopening, -, hclosing⟩ := Brackets.role_eq_text_iff.mp hc
    cases hblank : isBlank c with
    | true => exact (fitting_cons_of_blank hblank s).mpr (ih hs fun _ => rfl)
    | false =>
      refine (fitting_cons_of_visible hblank s).mpr ⟨⟨fun hbehind => ?_, fun hbefore => ?_⟩, ?_⟩
      · rw [hprevious hbehind]
      · exact absurd hbefore hopening
      · -- the character itself is no closing bracket, so what follows may stand anywhere
        exact ih hs fun h => absurd (Option.some.inj h) hclosing

theorem fits_closing (previous : Option Char) (spaced : Bool) :
    Fits previous '>' (settledGap previous '>' spaced) where
  behind h := by subst h; simp [settledGap, spaceBetween]
  before h := by cases h

theorem fits_comma (previous : Option Char) (spaced : Bool) :
    Fits previous ',' (settledGap previous ',' spaced) where
  behind h := by subst h; simp [settledGap, spaceBetween]
  before h := by cases h

/-! ## 1. Groups that open again -/

theorem reopenings_cons_of_text {b : Brackets} (hc : b.role c = .text) (closed : Bool) (s : Text) :
    b.reopenings closed (c :: s) = b.reopenings closed s := by
  rw [Brackets.reopenings, hc]

theorem reopenings_skeleton (b : Brackets) (closed : Bool) (s : Text) :
    b.reopenings closed (b.skeleton s) = b.reopenings closed s := by
  induction s generalizing closed with
  | nil => rfl
  | cons c s ih =>
    by_cases hc : b.role c = .text
    · rw [reopenings_cons_of_text hc, Brackets.skeleton, List.filter_cons_of_neg (by simp [hc])]
      exact ih closed
    · rw [Brackets.skeleton, List.filter_cons_of_pos (by simp [hc])]
      have hrest : ∀ closed, b.reopenings closed (s.filter fun c => b.role c ≠ .text)
          = b.reopenings closed s := ih
      simp only [Brackets.reopenings, hrest]

theorem reopenings_congr {b : Brackets} (h : b.skeleton s = b.skeleton t) (closed : Bool) :
    b.reopenings closed s = b.reopenings closed t := by
  rw [← reopenings_skeleton b closed s, h, reopenings_skeleton]

theorem reopenings_append_of_plain {b : Brackets} (hs : b.Plain s) (closed : Bool) (t : Text) :
    b.reopenings closed (s ++ t) = b.reopenings closed t :=
  reopenings_congr (by rw [Brackets.skeleton_append, Brackets.skeleton_of_plain hs,
    List.nil_append]) closed

theorem reopenings_le (b : Brackets) (closed : Bool) (s : Text) :
    b.reopenings false s ≤ b.reopenings closed s := by
  induction s with
  | nil => simp [Brackets.reopenings]
  | cons c s ih =>
    cases hc : b.role c with
    | text =>
      rw [reopenings_cons_of_text hc, reopenings_cons_of_text hc]
      exact ih
    | opening =>
      simp only [Brackets.reopenings, hc, Bool.toNat_false]
      omega
    | separator => simp [Brackets.reopenings, hc]
    | closing => simp [Brackets.reopenings, hc]

/-! ## 2. Conventional texts -/

/-- The text could have been written from a tree, but for its gaps in other places. -/
structure Conventional (s : Text) : Prop where
  fitting : Fitting none false s
  closed : Brackets.angle.reopenings false s = 0

theorem conventional_iff_of_settled (h : settled none false s = settled none false t) :
    Conventional s ↔ Conventional t := by
  have hfitting : Fitting none false s ↔ Fitting none false t := by rw [Fitting, h, Fitting]
  have hclosed : Brackets.angle.reopenings false s = Brackets.angle.reopenings false t :=
    reopenings_congr (Brackets.skeleton_eq_of_nonblank Brackets.visible_angle
      (nonblank_eq_of_settled h)) false
  exact ⟨fun hs => ⟨hfitting.mp hs.fitting, hclosed ▸ hs.closed⟩,
    fun ht => ⟨hfitting.mpr ht.fitting, hclosed ▸ ht.closed⟩⟩

theorem conventional_canonicalSpacing : Conventional (canonicalSpacing s) ↔ Conventional s :=
  conventional_iff_of_settled (settled_canonicalSpacing s)

/-- A nested name and a plain one that may stand in its place: the first begins with a character
that keeps a space behind a bracket, and ends with its only group. -/
structure Plainer (old new : Text) : Prop where
  head : ∃ c rest, old = c :: rest ∧ isBlank c = false ∧ settledGap (some '>') c false = false ∧
    settledGap (some '>') c true = true
  group : ∃ init, old = init ++ ['>']
  reopens : ∀ closed s, Brackets.angle.reopenings closed (old ++ s)
    = closed.toNat + Brackets.angle.reopenings true s
  plain : Brackets.angle.Plain new
  last : ∃ init c, new = init ++ [c] ∧ isBlank c = false

/-- Behind a replaced name the text does not know whether a bracket or a plain name came before; it
fits both, since no bracket opens there. -/
theorem fitting_of_replaces {old new : Text} (hplainer : Plainer old new)
    (h : Replaces old new s t) {previous' : Option Char}
    (hprevious : previous' = previous ∨ previous = some '>' ∧ previous' ≠ some '>')
    (hs : Fitting previous spaced s) : Fitting previous' spaced t := by
  have hclosing : isBlank '>' = false := by decide
  induction h generalizing previous previous' spaced with
  | nil => trivial
  | @keep c s t hkeep h ih =>
    cases hc : isBlank c with
    | true =>
      rw [fitting_cons_of_blank hc] at hs ⊢
      exact ih hprevious hs
    | false =>
      rw [fitting_cons_of_visible hc] at hs ⊢
      refine ⟨?_, ih (.inl rfl) hs.2⟩
      rcases hprevious with rfl | ⟨rfl, hne⟩
      · exact hs.1
      · -- an opening bracket behind the group would want a space and no space
        refine ⟨fun hbehind => absurd hbehind hne, fun hbefore => ?_⟩
        subst hbefore
        have hopen := (hs.1.behind rfl).symm.trans (hs.1.before rfl)
        exact absurd hopen (by decide)
  | @swap s t h ih =>
    obtain ⟨c, rest, hold, hc, hclosed, hopen⟩ := hplainer.head
    obtain ⟨init, hgroup⟩ := hplainer.group
    obtain ⟨newInit, d, hnew, hd⟩ := hplainer.last
    rw [fitting_append] at hs ⊢
    have hrest := hs.2
    rw [hgroup, lastVisible_concat _ _ hclosing, endsSpaced_concat_of_visible _ _ hclosing] at hrest
    constructor
    · refine fitting_of_plain hplainer.plain ?_
      rintro rfl
      -- the name that was replaced had a space behind the bracket
      have hsame : previous = some '>' :=
        hprevious.elim Eq.symm fun h => h.1
      have hfirst := hs.1
      rw [hold, fitting_cons_of_visible hc, hsame] at hfirst
      have hgap := hfirst.1.behind rfl
      cases spaced with
      | true => rfl
      | false => rw [hclosed, hopen] at hgap; cases hgap
    · have hdPlain : Brackets.angle.role d = .text :=
        hplainer.plain d (by rw [hnew]; exact List.mem_concat_self)
      have hne : some d ≠ some '>' :=
        fun h => (Brackets.role_eq_text_iff.mp hdPlain).2.2 (Option.some.inj h)
      rw [hnew, lastVisible_concat _ _ hd, endsSpaced_concat_of_visible _ _ hd]
      exact ih (.inr ⟨rfl, hne⟩) hrest

theorem reopenings_of_replaces {old new : Text} (hplainer : Plainer old new)
    (h : Replaces old new s t) (closed : Bool) :
    Brackets.angle.reopenings closed t ≤ Brackets.angle.reopenings closed s := by
  induction h generalizing closed with
  | nil => exact Nat.le_refl _
  | @keep c s t hkeep h ih =>
    cases hc : Brackets.angle.role c with
    | text =>
      rw [reopenings_cons_of_text hc, reopenings_cons_of_text hc]
      exact ih closed
    | opening => simp [Brackets.reopenings, hc, ih]
    | separator => simp [Brackets.reopenings, hc, ih]
    | closing => simp [Brackets.reopenings, hc, ih]
  | @swap s t h ih =>
    rw [reopenings_append_of_plain hplainer.plain, hplainer.reopens]
    -- the group that was replaced is no longer there to be opened again
    cases closed with
    | true => exact Nat.le_trans (ih true) (Nat.le_add_left _ _)
    | false =>
      have hmore := reopenings_le .angle true s
      have hkept := ih false
      rw [Bool.toNat_false, Nat.zero_add]
      exact Nat.le_trans hkept hmore

theorem conventional_substitute {entries : List (Text × Text)}
    (h : ∀ e ∈ entries, Plainer e.1 e.2) (hs : Conventional s) :
    Conventional (substitute entries s) := by
  refine substitute_induction (motive := Conventional) ?_ hs
  intro e he s hs
  obtain ⟨init, hgroup⟩ := (h e he).group
  have hne : e.1 ≠ [] := by simp [hgroup]
  have hreplaces := replaces_replace hne e.2 s
  have hclosed := reopenings_of_replaces (h e he) hreplaces false
  rw [hs.closed] at hclosed
  exact ⟨fitting_of_replaces (h e he) hreplaces (.inl rfl) hs.fitting, Nat.le_zero.mp hclosed⟩

/-! ## 3. Moving `const` -/

theorem fitting_eastConst (h : Fitting none false s) : Fitting none false (eastConst s) := by
  rcases eastConst_cases s with hsame | ⟨m, hm, name, hs, hmoved⟩
  · rwa [hsame]
  · have hfair := fair_of_mem_eastMoves hm
    obtain ⟨ending, hending⟩ := hfair.east_head
    rw [hs, fitting_append, fitting_append] at h
    have hname : Fitting none false name := h.2.1.restart decides_none (by simp)
    -- the ending begins with a space, so it fits also behind a bracket that ends the name
    have heast := hfair.east_plain
    rw [← hending] at heast
    have hspaced : Fitting (lastVisible none name) true ('c' :: ending) :=
      fitting_of_plain (fun c hc => heast c (List.mem_cons_of_mem ' ' hc)) fun _ => rfl
    rw [hmoved, fitting_append, ← hending]
    exact ⟨hname, (fitting_cons_of_blank isBlank_space _).mpr hspaced⟩

theorem fitting_of_mem_join {pieces : List Text} {gap : Text}
    (h : Fitting previous spaced (join gap pieces)) :
    ∀ piece ∈ pieces, Fitting none false piece := by
  induction pieces generalizing previous spaced with
  | nil => simp
  | cons piece pieces ih =>
    cases pieces with
    | nil =>
      intro other hother
      rw [List.mem_singleton.mp hother]
      exact h.restart decides_none (by simp)
    | cons next rest =>
      rw [join_cons_cons, List.append_assoc, fitting_append, fitting_append] at h
      exact List.forall_mem_cons.mpr ⟨h.1.restart decides_none (by simp), ih h.2.2⟩

theorem fitting_join {pieces : List Text} (hdecides : Decides previous)
    (hne : previous ≠ some '>') (h : ∀ piece ∈ pieces, Fitting none false piece) :
    Fitting previous spaced (join [',', ' '] pieces) := by
  have hcomma : isBlank ',' = false := by decide
  induction pieces generalizing previous spaced with
  | nil => trivial
  | cons piece pieces ih =>
    obtain ⟨hpiece, hpieces⟩ := List.forall_mem_cons.mp h
    cases pieces with
    | nil => exact hpiece.restart hdecides hne
    | cons next rest =>
      -- behind a comma no gap is left open
      have hrest : Fitting (some ',') true (join [',', ' '] (next :: rest)) :=
        ih decides_comma (by simp) hpieces
      rw [join_cons_cons, List.append_assoc, fitting_append]
      refine ⟨hpiece.restart hdecides hne, (fitting_cons_of_visible hcomma _).mpr ?_⟩
      exact ⟨fits_comma _ _, (fitting_cons_of_blank isBlank_space _).mpr hrest⟩

theorem fitting_trimSpaces (h : Fitting none false s) : Fitting none false (trimSpaces s) := by
  obtain ⟨head, tail, -, -, hs⟩ := exists_trimSpaces s
  rw [hs, fitting_append, fitting_append] at h
  exact h.2.1.restart decides_none (by simp)

theorem conventional_eastConstList (h : Conventional s) : Conventional (eastConstList s) := by
  -- each piece fits as a text of its own, and goes on to fit when it is trimmed and moved
  have hjoin : join [','] (Brackets.angle.piecesFrom 0 s) = s := Brackets.join_piecesFrom .angle 0 s
  have hpieces : ∀ piece ∈ Brackets.angle.piecesFrom 0 s, Fitting none false piece :=
    fitting_of_mem_join (by rw [hjoin]; exact h.fitting)
  refine ⟨?_, ?_⟩
  · rw [eastConstList_eq_join]
    refine fitting_join decides_none (by simp) ?_
    intro moved hmoved
    obtain ⟨piece, hpiece, rfl⟩ := List.mem_map.mp hmoved
    exact fitting_eastConst (fitting_trimSpaces (hpieces piece hpiece))
  · rw [reopenings_congr (skeleton_eastConstList s), h.closed]

end TypeSignature
