import TypeSignature.Proofs.Tree.Reading

/-!
# Stripping — passing white space over is deleting it beforehand

Reading a text and passing over the white space behind structural characters is the same as reading
the text from which this white space has been deleted, and passing over nothing.  The two scans run
at different places: while the one passes white space over, the other stands still, since its text
has none there.  So the text in front of the second scan is told by that in front of the first and
by what the first remembers of the last character.
-/

namespace TypeSignature

/-- The text without the white space that directly follows a structural character. -/
def Brackets.strip (b : Brackets) : Text → Text
  | [] => []
  | c :: s =>
    if b.role c = .text then c :: b.strip s else c :: (b.strip s).dropWhile Text.isBlank

theorem Brackets.exists_strip_cons (b : Brackets) (c : Char) (s : Text) :
    ∃ rest, b.strip (c :: s) = c :: rest := by
  unfold strip
  split <;> exact ⟨_, rfl⟩

namespace Tree

namespace Scan

variable {b : Brackets} {skipBlanks : Bool} {outer : Nat} {scan next : Scan} {c : Char} {s : Text}

/-- What a scan of the stripped text has in front of it where a scan that passes white space over
has `s`: behind a structural character, white space at once is gone. -/
def ahead (b : Brackets) (scan : Scan) (s : Text) : Text :=
  if scan.afterStructural then (b.strip s).dropWhile Text.isBlank else b.strip s

theorem ahead_nil (b : Brackets) (scan : Scan) : scan.ahead b [] = [] := by
  unfold ahead
  split <;> rfl

theorem ahead_cons_of_passes (hv : b.Visible) (h : scan.passes true c = true) :
    scan.ahead b (c :: s) = scan.ahead b s := by
  have hblank : Text.isBlank c = true := isBlank_of_passes h
  have hafter : scan.afterStructural = true := by
    rw [passes, Bool.true_and, Bool.and_eq_true] at h
    exact h.1
  unfold ahead
  rw [if_pos hafter, if_pos hafter, Brackets.strip, if_pos (hv.role_of_blank hblank),
    List.dropWhile_cons_of_pos hblank]

theorem ahead_cons_of_reads (h : scan.passes true c = false) :
    scan.ahead b (c :: s) = b.strip (c :: s) := by
  unfold ahead
  by_cases hafter : scan.afterStructural = true
  · have hvisible : ¬ Text.isBlank c = true := by
      rw [passes, hafter, Bool.true_and, Bool.true_and] at h
      rw [h]
      exact Bool.false_ne_true
    obtain ⟨rest, hrest⟩ := b.exists_strip_cons c s
    rw [if_pos hafter, hrest, List.dropWhile_cons_of_neg hvisible]
  · rw [if_neg hafter]

/-- The memory of a character that was read is the role that it had. -/
theorem afterStructural_of_move (hread : scan.passes skipBlanks c = false)
    (h : Move b skipBlanks outer scan c next) :
    next.afterStructural = true ↔ b.role c ≠ .text := by
  cases h with
  | pass hpass => rw [hpass] at hread; cases hread
  | opening _ hrole => simp [hrole, openGroup]
  | separator _ hrole => simp [hrole]
  | closing _ hrole => simp [hrole]
  | text _ hrole => simp [hrole, addText]

theorem strip_cons_of_move (hread : scan.passes skipBlanks c = false)
    (h : Move b skipBlanks outer scan c next) : b.strip (c :: s) = c :: next.ahead b s := by
  have hafter := afterStructural_of_move hread h
  unfold Brackets.strip ahead
  by_cases hrole : b.role c = .text
  · rw [if_pos hrole, if_neg (fun hnext => hafter.mp hnext hrole)]
  · rw [if_neg hrole, if_pos (hafter.mpr hrole)]

/-- From one state on, a text and what is ahead of it are answered alike, faults included. -/
theorem outcome_ahead (hv : b.Visible) (scan : Scan) (s : Text) :
    scan.outcome b true outer s = scan.outcome b false outer (scan.ahead b s) := by
  induction s generalizing scan with
  | nil =>
    rw [ahead_nil]
    rfl
  | cons c s ih =>
    cases hpass : scan.passes true c with
    | true =>
      -- the other scan stands still
      rw [outcome_cons, step_of_passes hpass, ahead_cons_of_passes hv hpass]
      exact ih scan
    | false =>
      -- both scans make the same step, and behind it they have corresponding texts
      have hread : scan.passes false c = false := rfl
      have hstep : scan.step b true outer c = scan.step b false outer c := by
        rw [step_of_reads hpass, step_of_reads hread]
      rw [ahead_cons_of_reads hpass, outcome_cons, hstep]
      cases hnext : scan.step b false outer c with
      | error reason =>
        obtain ⟨rest, hrest⟩ := b.exists_strip_cons c s
        rw [hrest, outcome_cons, hnext]
        rfl
      | ok next =>
        rw [strip_cons_of_move hread (step_eq_ok_iff.mp hnext), outcome_cons, hnext]
        exact ih next

end Scan

/-- **Stripping.**  Passing white space over gives the tree that the stripped text has when nothing
is passed over, for one signature and for a list. -/
theorem parse_parseList_strip {b : Brackets} (hv : b.Visible) (s : Text) :
    (∀ t, parse b true s = .ok t ↔ parse b false (b.strip s) = .ok t) ∧
      ∀ t, parseList b true s = .ok t ↔ parseList b false (b.strip s) = .ok t := by
  constructor
  · intro t
    have hahead : Scan.signature.ahead b s = b.strip s := rfl
    rw [parse_eq_ok_iff, parse_eq_ok_iff, Scan.outcome_ahead hv, hahead]
  · intro t
    have hahead : Scan.list.ahead b s = b.strip s := rfl
    rw [parseList_eq_ok_iff, parseList_eq_ok_iff, Scan.outcome_ahead hv, hahead]

/-- A character that would open and separate opens; white space in front of a closing bracket is
text. -/
theorem parse_parseList_strip_coinciding :
    Brackets.Visible ⟨'<', '>', '<'⟩ ∧
      Brackets.strip ⟨'<', '>', '<'⟩ "a<\t b>\n c< d >  ".toList = "a<b>c<d >".toList ∧
      parse ⟨'<', '>', '<'⟩ true "a<\t b>\n c< d >  ".toList
        = .ok ⟨['a'], [leaf ['b'], leaf "d ".toList], ['c']⟩ ∧
      parseList ⟨'<', '>', '<'⟩ true "a<\t b>\n c< d >  ".toList
        = .ok ⟨[], [⟨['a'], [leaf ['b'], leaf "d ".toList], ['c']⟩], []⟩ := by
  have hv : Brackets.Visible ⟨'<', '>', '<'⟩ := ⟨by decide, by decide, by decide⟩
  have hstrip : Brackets.strip ⟨'<', '>', '<'⟩ "a<\t b>\n c< d >  ".toList
      = "a<b>c<d >".toList := by decide
  obtain ⟨hparse, hlist⟩ := parse_parseList_strip hv "a<\t b>\n c< d >  ".toList
  rw [hstrip] at hparse hlist
  exact ⟨hv, hstrip, (hparse _).mpr rfl, (hlist _).mpr rfl⟩

end Tree

end TypeSignature
