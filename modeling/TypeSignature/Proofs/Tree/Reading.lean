import Mathlib.Data.List.Induction
import TypeSignature.Proofs.Brackets
import TypeSignature.Tree.Parse

/-!
# Reading — what one step of a scan can do, and what a whole scan keeps

`Scan.run` keeps count of the bytes it has read, which only a fault needs.  `Scan.read` is the same
reading without the count, a fold of `Scan.step` over the text.  `Move` says all that a step which
succeeds can do; a property of scans that every move keeps holds after reading (`read_induction`).
-/

namespace TypeSignature

/-- The text does not begin with white space. -/
def Text.Flush (s : Text) : Prop := ∀ c ∈ s.head?, isBlank c = false

theorem Text.flush_nil : Text.Flush [] := by
  intro c hc
  simp at hc

theorem Text.Flush.concat {s : Text} {c : Char} (hs : Flush s)
    (hc : s = [] → isBlank c = false) : Flush (s ++ [c]) := by
  intro d hd
  cases s with
  | nil =>
    simp only [List.nil_append, List.head?_cons, Option.mem_some_iff] at hd
    rw [← hd]
    exact hc rfl
  | cons e s => exact hs d hd

theorem Text.flush_dropWhile (s : Text) : Flush (s.dropWhile isBlank) := by
  intro c hc
  have h := List.head?_dropWhile_not isBlank s
  rw [Option.mem_def.mp hc] at h
  simpa using h

namespace Tree

namespace Scan

variable {b : Brackets} {skipBlanks : Bool} {outer : Nat}

/-- Whether a character is passed over as white space behind a structural character. -/
def passes (skipBlanks : Bool) (scan : Scan) (c : Char) : Bool :=
  skipBlanks && scan.afterStructural && Text.isBlank c

/-- What the scan is after a character that is no fault. -/
inductive Move (b : Brackets) (skipBlanks : Bool) (outer : Nat) (scan : Scan) (c : Char) :
    Scan → Prop
  | pass (hpass : scan.passes skipBlanks c = true) : Move b skipBlanks outer scan c scan
  | opening (hread : scan.passes skipBlanks c = false) (hrole : b.role c = .opening) :
      Move b skipBlanks outer scan c scan.openGroup
  | separator (hread : scan.passes skipBlanks c = false) (hrole : b.role c = .separator)
      {parent : Tree} {rest : List Tree} (hscan : scan.ancestors = parent :: rest) :
      Move b skipBlanks outer scan c
        { current := empty, ancestors := parent.addChild scan.current :: rest,
          afterStructural := true }
  | closing (hread : scan.passes skipBlanks c = false) (hrole : b.role c = .closing)
      {parent : Tree} {rest : List Tree} (hscan : scan.ancestors = parent :: rest)
      (houter : outer ≤ rest.length) :
      Move b skipBlanks outer scan c
        { current := parent.addChild scan.current, ancestors := rest, afterGroup := true,
          afterStructural := true }
  | text (hread : scan.passes skipBlanks c = false) (hrole : b.role c = .text) :
      Move b skipBlanks outer scan c (scan.addText c)

/-! ## 1. One step -/

theorem passes_eq_false (hb : skipBlanks = true → b.Visible) {scan : Scan} {c : Char}
    (hc : b.role c ≠ .text) : scan.passes skipBlanks c = false := by
  cases hskip : skipBlanks with
  | false => rfl
  | true => simp [passes, (hb hskip).not_blank hc]

theorem isBlank_of_passes {scan : Scan} {c : Char} (h : scan.passes skipBlanks c = true) :
    Text.isBlank c = true := by
  rw [passes, Bool.and_eq_true] at h
  exact h.2

theorem role_of_passes (hb : skipBlanks = true → b.Visible) {scan : Scan} {c : Char}
    (h : scan.passes skipBlanks c = true) : b.role c = .text := by
  by_contra hc
  rw [passes_eq_false hb hc] at h
  cases h

theorem step_of_passes {scan : Scan} {c : Char} (h : scan.passes skipBlanks c = true) :
    scan.step b skipBlanks outer c = .ok scan := by
  rw [passes] at h
  rw [step, if_pos h]

theorem step_of_reads {scan : Scan} {c : Char} (h : scan.passes skipBlanks c = false) :
    scan.step b skipBlanks outer c = match b.role c with
      | .opening => .ok scan.openGroup
      | .separator => scan.nextSibling
      | .closing => scan.closeGroup outer
      | .text => .ok (scan.addText c) := by
  have hskip : ¬ (skipBlanks && scan.afterStructural && Text.isBlank c) = true := by
    rw [passes] at h
    simp [h]
  unfold step
  exact if_neg hskip

/-- A step succeeds exactly by one of the moves. -/
theorem step_eq_ok_iff {scan next : Scan} {c : Char} :
    scan.step b skipBlanks outer c = .ok next ↔ Move b skipBlanks outer scan c next := by
  constructor
  · intro h
    cases hpass : scan.passes skipBlanks c with
    | true =>
      rw [step_of_passes hpass] at h
      cases h
      exact .pass hpass
    | false =>
      rw [step_of_reads hpass] at h
      -- one case for each role; a separator or a closing bracket may be at fault instead
      split at h
      · rename_i hrole
        cases h
        exact .opening hpass hrole
      · rename_i hrole
        rw [nextSibling] at h
        split at h
        · cases h
        · rename_i hscan
          cases h
          exact .separator hpass hrole hscan
      · rename_i hrole
        rw [closeGroup] at h
        split at h
        · cases h
        · rename_i hscan
          split at h
          · cases h
          · rename_i houter
            cases h
            exact .closing hpass hrole hscan (Nat.le_of_not_lt houter)
      · rename_i hrole
        cases h
        exact .text hpass hrole
  · intro h
    cases h with
    | pass hpass => exact step_of_passes hpass
    | opening hread hrole => rw [step_of_reads hread, hrole]
    | separator hread hrole hscan => rw [step_of_reads hread, hrole]; simp [nextSibling, hscan]
    | closing hread hrole hscan houter =>
      rw [step_of_reads hread, hrole]
      simp [closeGroup, hscan, Nat.not_lt.mpr houter]
    | text hread hrole => rw [step_of_reads hread, hrole]

/-! ## 2. A whole text -/

/-- Reads a text, and forgets where a fault was found. -/
def read (b : Brackets) (skipBlanks : Bool) (outer : Nat) (scan : Scan) (s : Text) :
    Except Fault.Reason Scan :=
  s.foldlM (step b skipBlanks outer) scan

/-- The tree of the text that begins in the given state, or why there is none. -/
def outcome (b : Brackets) (skipBlanks : Bool) (outer : Nat) (scan : Scan) (s : Text) :
    Except Fault.Reason Tree :=
  (scan.read b skipBlanks outer s).bind (finish outer)

@[simp] theorem read_nil (scan : Scan) : scan.read b skipBlanks outer [] = .ok scan := rfl

theorem read_cons (scan : Scan) (c : Char) (s : Text) :
    scan.read b skipBlanks outer (c :: s)
      = (scan.step b skipBlanks outer c).bind (read b skipBlanks outer · s) := rfl

theorem read_append (scan : Scan) (s t : Text) :
    scan.read b skipBlanks outer (s ++ t)
      = (scan.read b skipBlanks outer s).bind (read b skipBlanks outer · t) :=
  List.foldlM_append

theorem read_cons_of_move {scan next : Scan} {c : Char} (h : Move b skipBlanks outer scan c next)
    (s : Text) : scan.read b skipBlanks outer (c :: s) = next.read b skipBlanks outer s := by
  rw [read_cons, step_eq_ok_iff.mpr h]
  rfl

theorem read_cons_eq_ok_iff {scan last : Scan} {c : Char} {s : Text} :
    scan.read b skipBlanks outer (c :: s) = .ok last
      ↔ ∃ next, Move b skipBlanks outer scan c next ∧
        next.read b skipBlanks outer s = .ok last := by
  rw [read_cons]
  cases hstep : scan.step b skipBlanks outer c with
  | error reason => simp [Except.bind, ← step_eq_ok_iff, hstep]
  | ok next => simp [Except.bind, ← step_eq_ok_iff, hstep]

theorem read_append_of_read {scan next : Scan} {s : Text}
    (h : scan.read b skipBlanks outer s = .ok next) (t : Text) :
    scan.read b skipBlanks outer (s ++ t) = next.read b skipBlanks outer t := by
  rw [read_append, h]
  rfl

theorem outcome_append_of_read {scan next : Scan} {s : Text}
    (h : scan.read b skipBlanks outer s = .ok next) (t : Text) :
    scan.outcome b skipBlanks outer (s ++ t) = next.outcome b skipBlanks outer t := by
  rw [outcome, outcome, read_append_of_read h]

theorem outcome_cons (scan : Scan) (c : Char) (s : Text) :
    scan.outcome b skipBlanks outer (c :: s)
      = (scan.step b skipBlanks outer c).bind (outcome b skipBlanks outer · s) := by
  rw [outcome, read_cons]
  cases scan.step b skipBlanks outer c <;> rfl

theorem outcome_eq_ok_iff {scan : Scan} {s : Text} {t : Tree} :
    scan.outcome b skipBlanks outer s = .ok t
      ↔ ∃ last, scan.read b skipBlanks outer s = .ok last ∧ last.finish outer = .ok t := by
  rw [outcome]
  cases scan.read b skipBlanks outer s with
  | error reason => simp [Except.bind]
  | ok last => simp [Except.bind]

theorem read_concat_eq_ok_iff {scan last : Scan} {s : Text} {c : Char} :
    scan.read b skipBlanks outer (s ++ [c]) = .ok last
      ↔ ∃ mid, scan.read b skipBlanks outer s = .ok mid ∧ Move b skipBlanks outer mid c last := by
  rw [read_append]
  cases scan.read b skipBlanks outer s with
  | error reason => simp [Except.bind]
  | ok mid =>
    rw [Except.bind, read_cons]
    cases hstep : mid.step b skipBlanks outer c with
    | error reason =>
      simp only [Except.bind, Except.ok.injEq, exists_eq_left', ← step_eq_ok_iff, hstep]
    | ok next =>
      simp only [Except.bind, read_nil, Except.ok.injEq, exists_eq_left', ← step_eq_ok_iff, hstep]

/-- What holds at the beginning and is kept by every move holds after reading. -/
theorem read_induction {motive : Text → Scan → Prop} {start last : Scan} {s : Text}
    (nil : motive [] start)
    (move : ∀ s scan c next, motive s scan → Move b skipBlanks outer scan c next →
      motive (s ++ [c]) next)
    (h : start.read b skipBlanks outer s = .ok last) : motive s last := by
  -- from the end of the text, where the last move was made
  induction s using List.reverseRecOn generalizing last with
  | nil =>
    cases h
    exact nil
  | append_singleton s c ih =>
    obtain ⟨mid, hmid, hmove⟩ := read_concat_eq_ok_iff.mp h
    exact move s mid c last (ih hmid) hmove

/-- Behind a part that was read, `run` goes on with the bytes of that part counted. -/
theorem run_append_of_read {scan next : Scan} {s : Text}
    (h : scan.read b skipBlanks outer s = .ok next) (position : Nat) (t : Text) :
    scan.run b skipBlanks outer position (s ++ t)
      = next.run b skipBlanks outer (position + s.byteSize) t := by
  induction s generalizing scan position with
  | nil =>
    cases h
    rfl
  | cons c s ih =>
    rw [read_cons] at h
    rw [List.cons_append, run]
    cases hstep : scan.step b skipBlanks outer c with
    | error reason => rw [hstep] at h; cases h
    | ok mid =>
      rw [hstep] at h
      simp only [ih h, Text.byteSize_cons, Nat.add_assoc]

/-- Apart from the position of a fault, `run` answers what `outcome` does. -/
theorem mapError_run (scan : Scan) (position : Nat) (s : Text) :
    (scan.run b skipBlanks outer position s).mapError Fault.reason
      = scan.outcome b skipBlanks outer s := by
  induction s generalizing scan position with
  | nil =>
    show (Except.mapError _ ((scan.finish outer).mapError _)) = scan.finish outer
    cases scan.finish outer <;> rfl
  | cons c s ih =>
    rw [run, outcome_cons]
    cases scan.step b skipBlanks outer c with
    | error reason => rfl
    | ok next => exact ih next _

theorem run_eq_ok_iff {scan : Scan} {position : Nat} {s : Text} {t : Tree} :
    scan.run b skipBlanks outer position s = .ok t ↔ scan.outcome b skipBlanks outer s = .ok t := by
  rw [← mapError_run scan position s]
  cases scan.run b skipBlanks outer position s <;> simp [Except.mapError]

/-! ## 3. Plain text -/

theorem foldl_addChar_left (s left : Text) (children : List Tree) (right : Text) :
    s.foldl (addChar · false) ⟨left, children, right⟩ = ⟨left ++ s, children, right⟩ := by
  induction s generalizing left with
  | nil => simp
  | cons c s ih => rw [List.foldl_cons, addChar, if_neg (by simp), ih, List.append_assoc]; rfl

theorem foldl_addChar_right (s left : Text) (children : List Tree) (right : Text) :
    s.foldl (addChar · true) ⟨left, children, right⟩ = ⟨left, children, right ++ s⟩ := by
  induction s generalizing right with
  | nil => simp
  | cons c s ih => rw [List.foldl_cons, addChar, if_pos rfl, ih, List.append_assoc]; rfl

/-- A text that needs no skipping goes to the current node as it is. -/
theorem read_text (skipBlanks : Bool) (outer : Nat) (current : Tree) (ancestors : List Tree)
    (afterGroup afterStructural : Bool) {s : Text} (hs : b.Plain s)
    (hflush : afterStructural = true → s.Flush) :
    read b skipBlanks outer { current, ancestors, afterGroup, afterStructural } s = .ok
      { current := s.foldl (addChar · afterGroup) current, ancestors, afterGroup,
        afterStructural := afterStructural && s.isEmpty } := by
  induction s generalizing current afterStructural with
  | nil => simp
  | cons c s ih =>
    obtain ⟨hc, hs⟩ := List.forall_mem_cons.mp hs
    -- white space is read as text unless it comes first, where there is none
    have hread : passes skipBlanks { current, ancestors, afterGroup, afterStructural } c
        = false := by
      cases afterStructural with
      | false => simp [passes]
      | true => simp [passes, hflush rfl c rfl]
    have hrest := ih (current.addChar afterGroup c) false hs (by simp)
    rw [read_cons_of_move (.text hread hc), addText, hrest]
    simp

/-- White space behind a structural character is passed over. -/
theorem read_blanks {scan : Scan} (hafter : scan.afterStructural = true) {s : Text}
    (hs : ∀ c ∈ s, Text.isBlank c = true) : scan.read b true outer s = .ok scan := by
  induction s with
  | nil => rfl
  | cons c s ih =>
    obtain ⟨hc, hs⟩ := List.forall_mem_cons.mp hs
    rw [read_cons_of_move (.pass (by simp [passes, hafter, hc])), ih hs]

/-- Where no white space comes first, it makes no difference whether it would be passed over. -/
theorem outcome_of_flush {s : Text} (hs : s.Flush) (scan : Scan) (afterStructural : Bool) :
    outcome b true outer { scan with afterStructural } s = scan.outcome b true outer s := by
  cases s with
  | nil => rfl
  | cons c s =>
    have hc : Text.isBlank c = false := hs c rfl
    have hread : ∀ scan : Scan, scan.passes true c = false := fun scan => by simp [passes, hc]
    rw [outcome_cons, outcome_cons, step_of_reads (hread _), step_of_reads (hread _)]
    cases b.role c <;> rfl

/-! ## 4. Scans that look alike -/

/-- Rewrites every text of every node on the stack. -/
def mapText (f : Text → Text) (scan : Scan) : Scan :=
  { scan with
    current := scan.current.mapText f
    ancestors := scan.ancestors.map (Tree.mapText f) }

theorem mapText_addChild (f : Text → Text) (t child : Tree) :
    (t.addChild child).mapText f = (t.mapText f).addChild (child.mapText f) := by
  obtain ⟨left, children, right⟩ := t
  simp [addChild, Tree.mapText, mapTextIn_eq_map]

theorem toTree_mapText (f : Text → Text) (scan : Scan) :
    (scan.mapText f).toTree = scan.toTree.mapText f := by
  obtain ⟨current, ancestors, afterGroup, afterStructural⟩ := scan
  simp only [toTree, mapText]
  induction ancestors generalizing current with
  | nil => rfl
  | cons parent rest ih =>
    rw [List.map_cons, List.foldl_cons, List.foldl_cons, ← mapText_addChild, ih]

theorem finish_mapText (f : Text → Text) (scan : Scan) :
    finish outer (scan.mapText f) = (finish outer scan).map (Tree.mapText f) := by
  rw [finish, finish, toTree_mapText]
  simp only [mapText, List.length_map]
  split <;> rfl

theorem finish_congr {x y : Scan} (hcurrent : x.current = y.current)
    (hancestors : x.ancestors = y.ancestors) : finish outer x = finish outer y := by
  rw [finish, finish, toTree, toTree, hcurrent, hancestors]

section

variable {f : Text → Text} {x y : Scan} {c c' : Char}

theorem mapText_addChar_congr (hf : ∀ s s' : Text, f s = f s' → f (s ++ [c]) = f (s' ++ [c']))
    {t u : Tree} (h : t.mapText f = u.mapText f) (afterGroup : Bool) :
    (t.addChar afterGroup c).mapText f = (u.addChar afterGroup c').mapText f := by
  obtain ⟨left, children, right⟩ := t
  obtain ⟨left', children', right'⟩ := u
  simp only [Tree.mapText, Tree.mk.injEq] at h
  obtain ⟨hleft, hchildren, hright⟩ := h
  cases afterGroup with
  | true => simp [addChar, Tree.mapText, hleft, hchildren, hf _ _ hright]
  | false => simp [addChar, Tree.mapText, hright, hchildren, hf _ _ hleft]

/-- Scans that look alike through `f` look alike after characters of one role, if `f` forgets
nothing that a further character could bring back. -/
theorem step_congr (skipBlanks : Bool) (outer : Nat) (hrole : b.role c' = b.role c)
    (hblank : Text.isBlank c' = Text.isBlank c)
    (hf : ∀ s s' : Text, f s = f s' → f (s ++ [c]) = f (s' ++ [c']))
    (h : x.mapText f = y.mapText f) : (x.step b skipBlanks outer c).map (mapText f)
      = (y.step b skipBlanks outer c').map (mapText f) := by
  obtain ⟨current, ancestors, afterGroup, afterStructural⟩ := x
  obtain ⟨current', ancestors', afterGroup', afterStructural'⟩ := y
  simp only [mapText, mk.injEq] at h
  -- the flags agree, so both scans pass the character over or both read it
  obtain ⟨hcurrent, hancestors, rfl, rfl⟩ := h
  have hpasses : passes skipBlanks ⟨current', ancestors', afterGroup, afterStructural⟩ c'
      = passes skipBlanks ⟨current, ancestors, afterGroup, afterStructural⟩ c := by
    rw [passes, passes, hblank]
  cases hpass : passes skipBlanks ⟨current, ancestors, afterGroup, afterStructural⟩ c with
  | true =>
    rw [step_of_passes hpass, step_of_passes (hpasses.trans hpass)]
    simp [Except.map, mapText, hcurrent, hancestors]
  | false =>
    rw [step_of_reads hpass, step_of_reads (hpasses.trans hpass), hrole]
    cases b.role c with
    | opening => simp [Except.map, openGroup, mapText, hcurrent, hancestors]
    | text => simp [Except.map, addText, mapText, hancestors, mapText_addChar_congr hf hcurrent]
    | separator =>
      cases ancestors with
      | nil =>
        rw [List.map_nil, eq_comm, List.map_eq_nil_iff] at hancestors
        rw [hancestors]
        rfl
      | cons parent rest =>
        obtain ⟨parent', rest', rfl, hparent, hrest⟩ := List.map_eq_cons_iff.mp hancestors.symm
        simp [nextSibling, Except.map, mapText, mapText_addChild, hcurrent, hparent, hrest]
    | closing =>
      cases ancestors with
      | nil =>
        rw [List.map_nil, eq_comm, List.map_eq_nil_iff] at hancestors
        rw [hancestors]
        rfl
      | cons parent rest =>
        obtain ⟨parent', rest', rfl, hparent, hrest⟩ := List.map_eq_cons_iff.mp hancestors.symm
        -- the fault of a closing bracket depends on the number of ancestors only
        have hlength : rest'.length = rest.length := by
          rw [← List.length_map (f := Tree.mapText f), hrest, List.length_map]
        simp only [closeGroup, hlength]
        split
        · rfl
        · simp [Except.map, mapText, mapText_addChild, hcurrent, hparent, hrest]

/-- Two texts are answered alike when their first characters lead to scans that look alike through
`g`, or are faults for the same reason, and the rests are answered alike from there. -/
theorem outcome_cons_congr {α β : Type} {g : Scan → α} {k : Tree → β} {s s' : Text}
    (hstep : (x.step b skipBlanks outer c).map g = (y.step b skipBlanks outer c').map g)
    (hrest : ∀ next next' : Scan, g next = g next' →
      (next.outcome b skipBlanks outer s).map k = (next'.outcome b skipBlanks outer s').map k) :
    (x.outcome b skipBlanks outer (c :: s)).map k
      = (y.outcome b skipBlanks outer (c' :: s')).map k := by
  rw [outcome_cons, outcome_cons]
  cases hx : x.step b skipBlanks outer c with
  | error reason =>
    rw [hx] at hstep
    cases hy : y.step b skipBlanks outer c' with
    | error reason' =>
      rw [hy] at hstep
      cases hstep
      rfl
    | ok next' => rw [hy] at hstep; cases hstep
  | ok next =>
    rw [hx] at hstep
    cases hy : y.step b skipBlanks outer c' with
    | error reason' => rw [hy] at hstep; cases hstep
    | ok next' =>
      rw [hy] at hstep
      exact hrest next next' (Except.ok.inj hstep)

/-- Characters may be exchanged for others of the same role that `f` does not tell apart. -/
theorem outcome_congr {g : Char → Char} (hrole : ∀ c, b.role (g c) = b.role c)
    (hblank : ∀ c, Text.isBlank (g c) = Text.isBlank c)
    (hf : ∀ c, ∀ s s' : Text, f s = f s' → f (s ++ [c]) = f (s' ++ [g c]))
    (h : x.mapText f = y.mapText f) (s : Text) :
    (x.outcome b skipBlanks outer s).map (Tree.mapText f)
      = (y.outcome b skipBlanks outer (s.map g)).map (Tree.mapText f) := by
  induction s generalizing x y with
  | nil =>
    show (finish outer x).map _ = (finish outer y).map _
    rw [← finish_mapText, ← finish_mapText, h]
  | cons c s ih =>
    have hstep := step_congr skipBlanks outer (hrole c) (hblank c) (hf c) h
    exact outcome_cons_congr hstep fun _ _ => ih

end

end Scan

theorem parse_eq_ok_iff {b : Brackets} {skipBlanks : Bool} {s : Text} {t : Tree} :
    parse b skipBlanks s = .ok t ↔ Scan.signature.outcome b skipBlanks 0 s = .ok t :=
  Scan.run_eq_ok_iff

theorem parseList_eq_ok_iff {b : Brackets} {skipBlanks : Bool} {s : Text} {t : Tree} :
    parseList b skipBlanks s = .ok t ↔ Scan.list.outcome b skipBlanks 1 s = .ok t :=
  Scan.run_eq_ok_iff

end Tree

end TypeSignature
