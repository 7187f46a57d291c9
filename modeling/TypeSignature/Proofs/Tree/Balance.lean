import TypeSignature.Proofs.Tree.Reading

/-!
# Balance — the texts that have a tree, and the first fault of the others

A scan never counts depth, but the nodes that wait around the current one are as many as brackets
are open.  So the nesting of the text decides what reading it answers: the first stray character is
the fault, and without one the brackets left open at the end are.
-/

namespace TypeSignature

namespace Brackets

/-- Why a character behind `before` is at fault, if it is: outside of all brackets nothing can be
closed, and nothing separated unless the text is a list. -/
def strayReason? (b : Brackets) (inList : Bool) (before : Text) (c : Char) :
    Option Tree.Fault.Reason :=
  if b.nesting before = 0 then
    match b.role c with
    | .closing => some .unexpectedClose
    | .separator => if inList then none else some .separatorOutsideBrackets
    | .opening | .text => none
  else none

/-- No character of the text is stray. -/
def NoStray (b : Brackets) (inList : Bool) (s : Text) : Prop :=
  ∀ before c rest, s = before ++ c :: rest → b.strayReason? inList before c = none

/-- The fault is that of the first stray character, at the byte where this character begins. -/
def FirstStray (b : Brackets) (inList : Bool) (s : Text) (fault : Tree.Fault) : Prop :=
  ∃ before c rest, s = before ++ c :: rest ∧ b.NoStray inList before ∧
    b.strayReason? inList before c = some fault.reason ∧ fault.position = before.byteSize

variable {b : Brackets} {inList : Bool}

theorem noStray_nil : b.NoStray inList [] := by
  intro before c rest h
  simp at h

theorem noStray_concat_iff {s : Text} {c : Char} :
    b.NoStray inList (s ++ [c]) ↔ b.NoStray inList s ∧ b.strayReason? inList s c = none := by
  constructor
  · intro h
    refine ⟨fun before d rest hs => h before d (rest ++ [c]) ?_, h s c [] rfl⟩
    rw [hs, List.append_assoc, List.cons_append]
  · rintro ⟨hs, hc⟩ before d rest h
    -- the character is the last one or lies in `s`
    rcases List.eq_nil_or_concat rest with rfl | ⟨rest, e, rfl⟩
    · obtain ⟨rfl, hd⟩ := List.append_inj' h rfl
      cases hd
      exact hc
    · rw [List.concat_eq_append, ← List.cons_append, ← List.append_assoc] at h
      exact hs before d rest (List.append_inj' h rfl).1

/-- A text with a stray character has a first one. -/
theorem exists_firstStray {s : Text} (h : ¬ b.NoStray inList s) :
    ∃ fault, b.FirstStray inList s fault := by
  induction s using List.reverseRecOn with
  | nil => exact absurd noStray_nil h
  | append_singleton s c ih =>
    by_cases hs : b.NoStray inList s
    · cases hc : b.strayReason? inList s c with
      | none => exact absurd (noStray_concat_iff.mpr ⟨hs, hc⟩) h
      | some reason => exact ⟨⟨Text.byteSize s, reason⟩, s, c, [], rfl, hs, hc, rfl⟩
    · obtain ⟨fault, before, d, rest, rfl, hfirst⟩ := ih hs
      exact ⟨fault, before, d, rest ++ [c], by rw [List.append_assoc, List.cons_append], hfirst⟩

theorem FirstStray.not_noStray {s : Text} {fault : Tree.Fault} (h : b.FirstStray inList s fault) :
    ¬ b.NoStray inList s := by
  obtain ⟨before, c, rest, hs, -, hc, -⟩ := h
  intro hno
  rw [hno before c rest hs] at hc
  cases hc

theorem FirstStray.reason_ne {s : Text} {fault : Tree.Fault} (h : b.FirstStray inList s fault)
    (depth : Nat) : fault.reason ≠ .unterminated depth := by
  obtain ⟨before, c, rest, -, -, hc, -⟩ := h
  intro hreason
  rw [hreason, strayReason?] at hc
  split at hc
  · split at hc
    · cases hc
    · split at hc <;> cases hc
    · cases hc
    · cases hc
  · cases hc

end Brackets

namespace Tree

namespace Scan

variable {b : Brackets} {skipBlanks inList : Bool}

/-- The scan before the text of a list or of one signature. -/
def start (inList : Bool) : Scan := if inList then list else signature

theorem length_ancestors_start (inList : Bool) :
    (start inList).ancestors.length = inList.toNat := by
  cases inList <;> rfl

/-- Reading keeps the waiting nodes in step with the nesting of what was read. -/
theorem length_ancestors_of_read (hb : skipBlanks = true → b.Visible) {last : Scan} {s : Text}
    (h : (start inList).read b skipBlanks inList.toNat s = .ok last) :
    inList.toNat ≤ last.ancestors.length ∧
      (last.ancestors.length : Int) = inList.toNat + b.nesting s := by
  refine read_induction (motive := fun s scan => inList.toNat ≤ scan.ancestors.length ∧
    (scan.ancestors.length : Int) = inList.toNat + b.nesting s) ?_ ?_ h
  · rw [length_ancestors_start]
    simp
  · rintro s scan c next ⟨hle, hlen⟩ hmove
    rw [Brackets.nesting_append, Brackets.nesting_singleton]
    -- each move changes the stack by one node exactly when it reads a bracket
    cases hmove with
    | pass hpass =>
      rw [role_of_passes hb hpass]
      exact ⟨hle, by simpa using hlen⟩
    | opening _ hrole =>
      rw [hrole]
      simp only [openGroup, List.length_cons]
      omega
    | separator _ hrole hscan =>
      rw [hrole]
      simp only [hscan, List.length_cons] at hle hlen ⊢
      omega
    | closing _ hrole hscan houter =>
      rw [hrole]
      simp only [hscan, List.length_cons] at hlen ⊢
      omega
    | text _ hrole =>
      rw [hrole]
      exact ⟨hle, by simpa [addText] using hlen⟩

/-- With as many waiting nodes as open brackets, a step fails exactly at a stray character. -/
theorem step_eq_error_of_stray (hb : skipBlanks = true → b.Visible) {scan : Scan} {before : Text}
    {c : Char} {reason : Fault.Reason}
    (hlen : (scan.ancestors.length : Int) = inList.toNat + b.nesting before)
    (h : b.strayReason? inList before c = some reason) :
    scan.step b skipBlanks inList.toNat c = .error reason := by
  rw [Brackets.strayReason?] at h
  split at h
  · rename_i hzero
    have hlen : scan.ancestors.length = inList.toNat := by omega
    split at h
    · rename_i hrole
      cases h
      rw [step_of_reads (passes_eq_false hb (by simp [hrole])), hrole]
      -- the nodes that wait are at most the root of the list, which no bracket closes
      show scan.closeGroup _ = _
      rw [closeGroup]
      split
      · rfl
      · rename_i hscan
        rw [hscan, List.length_cons] at hlen
        rw [if_pos (by omega)]
    · rename_i hrole
      split at h
      · cases h
      · rename_i hsingle
        cases h
        have hscan : scan.ancestors = [] := by
          rw [← List.length_eq_zero_iff, hlen]
          simp [hsingle]
        rw [step_of_reads (passes_eq_false hb (by simp [hrole])), hrole]
        show scan.nextSibling = _
        rw [nextSibling, hscan]
    · cases h
    · cases h
  · cases h

theorem exists_move_of_not_stray (skipBlanks : Bool) {scan : Scan} {before : Text} {c : Char}
    (hle : inList.toNat ≤ scan.ancestors.length)
    (hlen : (scan.ancestors.length : Int) = inList.toNat + b.nesting before)
    (h : b.strayReason? inList before c = none) :
    ∃ next, Move b skipBlanks inList.toNat scan c next := by
  cases hpass : scan.passes skipBlanks c with
  | true => exact ⟨_, .pass hpass⟩
  | false =>
    rw [Brackets.strayReason?] at h
    cases hrole : b.role c with
    | opening => exact ⟨_, .opening hpass hrole⟩
    | text => exact ⟨_, .text hpass hrole⟩
    | separator =>
      cases hscan : scan.ancestors with
      | cons parent rest => exact ⟨_, .separator hpass hrole hscan⟩
      | nil =>
        -- nothing waits, so the text is no list and its nesting is zero
        rw [hscan, List.length_nil] at hle hlen
        have hsingle : inList = false := by cases inList <;> simp_all
        rw [if_pos (by omega), hrole] at h
        simp [hsingle] at h
    | closing =>
      have hopen : b.nesting before ≠ 0 := by
        intro hzero
        rw [if_pos hzero, hrole] at h
        cases h
      cases hscan : scan.ancestors with
      | nil => rw [hscan, List.length_nil] at hle hlen; omega
      | cons parent rest =>
        rw [hscan, List.length_cons] at hle hlen
        exact ⟨_, .closing hpass hrole hscan (by omega)⟩

theorem exists_read_of_noStray (hb : skipBlanks = true → b.Visible) {s : Text}
    (h : b.NoStray inList s) :
    ∃ last, (start inList).read b skipBlanks inList.toNat s = .ok last := by
  induction s using List.reverseRecOn with
  | nil => exact ⟨_, rfl⟩
  | append_singleton s c ih =>
    obtain ⟨hs, hc⟩ := Brackets.noStray_concat_iff.mp h
    obtain ⟨mid, hmid⟩ := ih hs
    obtain ⟨hle, hlen⟩ := length_ancestors_of_read hb hmid
    obtain ⟨next, hmove⟩ := exists_move_of_not_stray skipBlanks hle hlen hc
    exact ⟨next, read_concat_eq_ok_iff.mpr ⟨mid, hmid, hmove⟩⟩

/-- Reading from the start, with the first byte counted as byte 0. -/
def answer (b : Brackets) (skipBlanks inList : Bool) (s : Text) : Except Fault Tree :=
  (start inList).run b skipBlanks inList.toNat 0 s

theorem answer_of_firstStray (hb : skipBlanks = true → b.Visible) {s : Text} {fault : Fault}
    (h : b.FirstStray inList s fault) : answer b skipBlanks inList s = .error fault := by
  obtain ⟨before, c, rest, rfl, hbefore, hc, hposition⟩ := h
  obtain ⟨mid, hmid⟩ := exists_read_of_noStray hb hbefore
  have hlen := (length_ancestors_of_read hb hmid).2
  rw [answer, run_append_of_read hmid, run, step_eq_error_of_stray hb hlen hc, Nat.zero_add,
    ← hposition]

theorem answer_of_noStray (hb : skipBlanks = true → b.Visible) {s : Text}
    (h : b.NoStray inList s) :
    ∃ last, 0 ≤ b.nesting s ∧ answer b skipBlanks inList s
      = if 0 < b.nesting s then .error ⟨s.byteSize, .unterminated (b.nesting s).toNat⟩
        else .ok (toTree last) := by
  obtain ⟨last, hlast⟩ := exists_read_of_noStray hb h
  obtain ⟨hle, hlen⟩ := length_ancestors_of_read hb hlast
  refine ⟨last, by omega, ?_⟩
  have hrun := run_append_of_read hlast 0 []
  rw [List.append_nil, Nat.zero_add] at hrun
  rw [answer, hrun, run, finish]
  by_cases hopen : 0 < b.nesting s
  · have hdepth : last.ancestors.length - inList.toNat = (b.nesting s).toNat := by omega
    rw [if_pos (by omega), if_pos hopen, hdepth]
    rfl
  · rw [if_neg (by omega), if_neg hopen]
    rfl

end Scan

/-- The answer to a text follows from its nesting: the first stray character if there is one, else
the brackets left open at the end if there are any, else a tree. -/
structure DecidedByNesting (b : Brackets) (inList : Bool) (s : Text)
    (answer : Except Fault Tree) : Prop where
  stray : ∀ fault : Fault, (∀ depth, fault.reason ≠ .unterminated depth) →
    (answer = .error fault ↔ b.FirstStray inList s fault)
  unterminated : ∀ position depth, answer = .error ⟨position, .unterminated depth⟩ ↔
    b.NoStray inList s ∧ 0 < depth ∧ b.nesting s = depth ∧ position = s.byteSize
  tree : (∃ t, answer = .ok t) ↔ b.NoStray inList s ∧ ¬ 0 < b.nesting s

theorem Scan.decidedByNesting {b : Brackets} {skipBlanks : Bool}
    (hb : skipBlanks = true → b.Visible) (inList : Bool) (s : Text) :
    DecidedByNesting b inList s (Scan.answer b skipBlanks inList s) := by
  by_cases hno : b.NoStray inList s
  · -- the text is read to its end, where only open brackets can be at fault
    obtain ⟨last, hnonneg, hanswer⟩ := Scan.answer_of_noStray hb hno
    have hfirst : ∀ fault, ¬ b.FirstStray inList s fault := fun fault h => h.not_noStray hno
    rw [hanswer]
    by_cases hopen : 0 < b.nesting s
    · rw [if_pos hopen]
      refine ⟨fun fault hreason => ?_, fun position depth => ?_, ?_⟩
      · refine iff_of_false (fun h => ?_) (hfirst fault)
        cases h
        exact hreason _ rfl
      · simp only [Except.error.injEq, Fault.mk.injEq, Fault.Reason.unterminated.injEq]
        constructor
        · rintro ⟨rfl, rfl⟩
          exact ⟨hno, by omega, by omega, rfl⟩
        · rintro ⟨-, -, hdepth, rfl⟩
          exact ⟨rfl, by omega⟩
      · simp [hopen]
    · rw [if_neg hopen]
      refine ⟨fun fault _ => iff_of_false (by simp) (hfirst fault), fun position depth => ?_, ?_⟩
      · refine iff_of_false (by simp) ?_
        rintro ⟨-, hpos, hdepth, -⟩
        omega
      · simp [hno, hopen]
  · -- the answer is the fault of the first stray character
    obtain ⟨first, hfirst⟩ := Brackets.exists_firstStray hno
    rw [Scan.answer_of_firstStray hb hfirst]
    refine ⟨fun fault _ => ?_, fun position depth => ?_, by simp [hno]⟩
    · constructor
      · intro h
        cases h
        exact hfirst
      · intro h
        -- two first stray characters are answered alike
        rw [← Scan.answer_of_firstStray hb hfirst, Scan.answer_of_firstStray hb h]
    · refine iff_of_false (fun h => ?_) (fun h => hno h.1)
      cases h
      exact hfirst.reason_ne depth rfl

/-- **Exact faults.**  One signature and a list of signatures are both answered by nesting alone;
only the separator outside of all brackets tells them apart. -/
theorem parse_parseList_decidedByNesting {b : Brackets} {skipBlanks : Bool}
    (hb : skipBlanks = true → b.Visible) (s : Text) :
    DecidedByNesting b false s (parse b skipBlanks s) ∧
      DecidedByNesting b true s (parseList b skipBlanks s) :=
  ⟨Scan.decidedByNesting hb false s, Scan.decidedByNesting hb true s⟩

/-- A comma behind a two-byte character and a closed group is the first stray character of a
signature; the list goes on to the bracket that it leaves open. -/
theorem parse_parseList_decidedByNesting_comma :
    (true = true → Brackets.angle.Visible) ∧
    DecidedByNesting .angle false "é<a>,b<".toList (parse .angle true "é<a>,b<".toList) ∧
      DecidedByNesting .angle true "é<a>,b<".toList (parseList .angle true "é<a>,b<".toList) :=
  ⟨fun _ => Brackets.visible_angle,
    parse_parseList_decidedByNesting (fun _ => Brackets.visible_angle) "é<a>,b<".toList⟩

end Tree

end TypeSignature
