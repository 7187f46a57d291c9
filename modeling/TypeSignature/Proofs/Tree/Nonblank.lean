import TypeSignature.Proofs.Text.Nonblank
import TypeSignature.Proofs.Tree.Reading

/-!
# Nonblank — white space decides nothing when a text is read

White space is passed over, or it goes to the text of the current node.  It moves no node and is
never a fault, so a text and the same text without white space have trees of one shape, with the
same visible characters at each node, or fail for one reason.  Canonical spacing changes white space
only.
-/

namespace TypeSignature.Tree

open Text

/-- Two readings that differ in white space only: trees of one shape whose texts have the same
visible characters, or faults with one reason. -/
inductive SameReading : Except Fault Tree → Except Fault Tree → Prop
  | tree {t u : Tree} (h : t.mapText nonblank = u.mapText nonblank) : SameReading (.ok t) (.ok u)
  | fault {fault fault' : Fault} (h : fault.reason = fault'.reason) :
      SameReading (.error fault) (.error fault')

namespace Scan

variable {b : Brackets} {skipBlanks : Bool} {outer : Nat} {x y : Scan} {s t : Text} {c : Char}

/-- The scan without the white space in its texts, and without the memory that more of it is to be
passed over. -/
def visible (scan : Scan) : Scan := { scan.mapText nonblank with afterStructural := false }

theorem finish_visible (scan : Scan) :
    finish outer scan.visible = (finish outer scan).map (Tree.mapText nonblank) := by
  rw [← finish_mapText]
  exact finish_congr rfl rfl

/-! ## 1. One character -/

theorem mapText_nonblank_addChar (hc : isBlank c = true) (t : Tree) (afterGroup : Bool) :
    (t.addChar afterGroup c).mapText nonblank = t.mapText nonblank := by
  obtain ⟨left, children, right⟩ := t
  cases afterGroup <;> simp [addChar, Tree.mapText, nonblank_singleton_of_blank hc]

theorem exists_step_of_blank (hv : b.Visible) (hc : isBlank c = true) (scan : Scan) :
    ∃ next, scan.step b skipBlanks outer c = .ok next ∧ next.visible = scan.visible := by
  cases hpass : scan.passes skipBlanks c with
  | true => exact ⟨scan, step_of_passes hpass, rfl⟩
  | false =>
    refine ⟨scan.addText c, ?_, ?_⟩
    · rw [step_of_reads hpass, hv.role_of_blank hc]
    · simp [visible, mapText, addText, mapText_nonblank_addChar hc]

theorem step_of_not_blank (hc : isBlank c = false) (scan : Scan) :
    scan.step b skipBlanks outer c
      = step b skipBlanks outer { scan with afterStructural := false } c := by
  have hread : ∀ scan : Scan, scan.passes skipBlanks c = false := by
    intro scan
    simp [passes, hc]
  rw [step_of_reads (hread _), step_of_reads (hread _)]
  cases b.role c <;> rfl

theorem step_visible_congr (hc : isBlank c = false) (h : x.visible = y.visible) :
    (x.step b skipBlanks outer c).map visible = (y.step b skipBlanks outer c).map visible := by
  have hconcat : ∀ s s' : Text, nonblank s = nonblank s' →
      nonblank (s ++ [c]) = nonblank (s' ++ [c]) := by
    intro s s' hs
    rw [nonblank_append, nonblank_append, hs]
  have hstep : (step b skipBlanks outer { x with afterStructural := false } c).map
        (mapText nonblank)
      = (step b skipBlanks outer { y with afterStructural := false } c).map (mapText nonblank) :=
    step_congr skipBlanks outer rfl rfl hconcat h
  have hforget : ∀ scan : Except Fault.Reason Scan, scan.map visible
      = (scan.map (mapText nonblank)).map fun scan => { scan with afterStructural := false } := by
    intro scan
    cases scan <;> rfl
  rw [step_of_not_blank hc x, step_of_not_blank hc y, hforget, hforget, hstep]

/-! ## 2. A whole text -/

theorem outcome_nonblank (hv : b.Visible) (h : x.visible = y.visible) (s : Text) :
    (x.outcome b skipBlanks outer s).map (Tree.mapText nonblank)
      = (y.outcome b skipBlanks outer (nonblank s)).map (Tree.mapText nonblank) := by
  induction s generalizing x y with
  | nil =>
    show (finish outer x).map _ = (finish outer y).map _
    rw [← finish_visible, ← finish_visible, h]
  | cons c s ih =>
    cases hc : isBlank c with
    | true =>
      -- the first text is one character ahead, in a scan that looks the same
      obtain ⟨next, hnext, hsame⟩ : ∃ next, x.step b skipBlanks outer c = .ok next ∧
        next.visible = x.visible := exists_step_of_blank hv hc x
      rw [nonblank_cons_of_blank hc, outcome_cons, hnext]
      exact ih (hsame.trans h)
    | false =>
      rw [nonblank_cons_of_visible hc]
      exact outcome_cons_congr (step_visible_congr hc h) fun _ _ => ih

/-- Reading depends on the visible characters of a text only. -/
theorem sameReading_of_nonblank (hv : b.Visible) (h : nonblank s = nonblank t) (scan : Scan)
    (position position' : Nat) : SameReading (scan.run b skipBlanks outer position s)
      (scan.run b skipBlanks outer position' t) := by
  have houtcome : (scan.outcome b skipBlanks outer s).map (Tree.mapText nonblank)
      = (scan.outcome b skipBlanks outer t).map (Tree.mapText nonblank) := by
    rw [outcome_nonblank hv rfl s, h, ← outcome_nonblank hv rfl t]
  rw [← mapError_run scan position s, ← mapError_run scan position' t] at houtcome
  cases hs : scan.run b skipBlanks outer position s with
  | ok tree =>
    rw [hs] at houtcome
    cases ht : scan.run b skipBlanks outer position' t with
    | ok tree' => rw [ht] at houtcome; exact .tree (Except.ok.inj houtcome)
    | error fault => rw [ht] at houtcome; cases houtcome
  | error fault =>
    rw [hs] at houtcome
    cases ht : scan.run b skipBlanks outer position' t with
    | ok tree => rw [ht] at houtcome; cases houtcome
    | error fault' => rw [ht] at houtcome; exact .fault (Except.error.inj houtcome)

end Scan

/-- **Canonical spacing and reading.**  A list and its canonical spacing are read alike. -/
theorem sameReading_canonicalSpacing (s : Text) :
    SameReading (parseList .angle true (canonicalSpacing s)) (parseList .angle true s) := by
  apply Scan.sameReading_of_nonblank Brackets.visible_angle
  exact nonblank_canonicalSpacing s

end TypeSignature.Tree
