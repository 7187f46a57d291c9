import TypeSignature.Proofs.Text.Replacing
import TypeSignature.Proofs.Tree.Balance
import TypeSignature.Proofs.Tree.Ink
import TypeSignature.Proofs.Tree.Texts

/-!
# Acceptance — the count of open brackets decides whether a text is read

`levelAfter` counts the open brackets behind a text and stops at a stray character.  A text is read
exactly when the count goes from zero to zero.  The count can be taken part by part, so what a part
is replaced by matters only as far as it counts.
-/

namespace TypeSignature

open Text

namespace Brackets

/-- The number of open brackets behind a character, unless it is stray where `depth` are open. -/
def levelStep (b : Brackets) (inList : Bool) (depth : Nat) (c : Char) : Option Nat :=
  match b.role c with
  | .opening => some (depth + 1)
  | .separator => if inList = true ∨ 0 < depth then some depth else none
  | .closing => if 0 < depth then some (depth - 1) else none
  | .text => some depth

/-- The number of open brackets behind a text that begins where `depth` are open, unless one of its
characters is stray. -/
def levelAfter (b : Brackets) (inList : Bool) (depth : Nat) (s : Text) : Option Nat :=
  s.foldlM (b.levelStep inList) depth

variable {b : Brackets} {inList : Bool} {depth level : Nat} {c : Char} {s t : Text}

@[simp] theorem levelAfter_nil (b : Brackets) (inList : Bool) (depth : Nat) :
    b.levelAfter inList depth [] = some depth := rfl

theorem levelAfter_cons (b : Brackets) (inList : Bool) (depth : Nat) (c : Char) (s : Text) :
    b.levelAfter inList depth (c :: s)
      = (b.levelStep inList depth c).bind (b.levelAfter inList · s) := rfl

theorem levelAfter_cons_eq_some_iff : b.levelAfter inList depth (c :: s) = some level ↔
    ∃ next, b.levelStep inList depth c = some next ∧ b.levelAfter inList next s = some level := by
  rw [levelAfter_cons, Option.bind_eq_some_iff]

theorem levelAfter_append (b : Brackets) (inList : Bool) (depth : Nat) (s t : Text) :
    b.levelAfter inList depth (s ++ t)
      = (b.levelAfter inList depth s).bind (b.levelAfter inList · t) :=
  List.foldlM_append

theorem levelAfter_append_of_level (h : b.levelAfter inList depth s = some level) (t : Text) :
    b.levelAfter inList depth (s ++ t) = b.levelAfter inList level t := by
  rw [levelAfter_append, h]
  rfl

theorem levelAfter_cons_of_step (h : b.levelStep inList depth c = some level) (s : Text) :
    b.levelAfter inList depth (c :: s) = b.levelAfter inList level s := by
  rw [levelAfter_cons, h]
  rfl

/-! ## 1. What the count depends on -/

/-- The structural characters of a text. -/
def skeleton (b : Brackets) (s : Text) : Text := s.filter fun c => b.role c ≠ .text

theorem skeleton_append (b : Brackets) (s t : Text) :
    b.skeleton (s ++ t) = b.skeleton s ++ b.skeleton t :=
  List.filter_append ..

theorem skeleton_of_plain (hs : b.Plain s) : b.skeleton s = [] := by
  rw [skeleton, List.filter_eq_nil_iff]
  intro c hc
  simp [hs c hc]

theorem skeleton_nonblank (hv : b.Visible) (s : Text) : b.skeleton s.nonblank = b.skeleton s := by
  rw [skeleton, nonblank, List.filter_filter]
  apply List.filter_congr
  intro c _
  by_cases hc : b.role c = .text
  · simp [hc]
  · simp [hc, hv.not_blank hc]

theorem skeleton_eq_of_nonblank (hv : b.Visible) (h : s.nonblank = t.nonblank) :
    b.skeleton s = b.skeleton t := by
  rw [← skeleton_nonblank hv s, h, skeleton_nonblank hv]

/-- A count that a character of a text leaves as it is depends on the structural characters only. -/
theorem foldlM_skeleton {step : Nat → Char → Option Nat}
    (hstep : ∀ depth c, b.role c = .text → step depth c = some depth) (depth : Nat) (s : Text) :
    (b.skeleton s).foldlM step depth = s.foldlM step depth := by
  induction s generalizing depth with
  | nil => rfl
  | cons c s ih =>
    by_cases hc : b.role c = .text
    · rw [skeleton, List.filter_cons_of_neg (by simp [hc]), List.foldlM_cons, hstep depth c hc]
      exact ih depth
    · rw [skeleton, List.filter_cons_of_pos (by simp [hc]), List.foldlM_cons, List.foldlM_cons]
      exact congrArg _ (funext ih)

theorem levelAfter_skeleton (b : Brackets) (inList : Bool) (depth : Nat) (s : Text) :
    b.levelAfter inList depth (b.skeleton s) = b.levelAfter inList depth s := by
  apply foldlM_skeleton
  intro depth c hc
  rw [levelStep, hc]

theorem levelAfter_congr (h : b.skeleton s = b.skeleton t) (inList : Bool) (depth : Nat) :
    b.levelAfter inList depth s = b.levelAfter inList depth t := by
  rw [← levelAfter_skeleton b inList depth s, h, levelAfter_skeleton]

theorem levelAfter_of_plain (inList : Bool) (depth : Nat) (hs : b.Plain s) :
    b.levelAfter inList depth s = some depth := by
  rw [← levelAfter_skeleton, skeleton_of_plain hs, levelAfter_nil]

/-- White space does not count. -/
theorem levelAfter_nonblank (hv : b.Visible) (inList : Bool) (depth : Nat) (s : Text) :
    b.levelAfter inList depth s.nonblank = b.levelAfter inList depth s :=
  levelAfter_congr (skeleton_nonblank hv s) inList depth

theorem levelStep_add {next : Nat} (h : b.levelStep inList depth c = some next) (more : Nat) :
    b.levelStep inList (depth + more) c = some (next + more) := by
  rw [levelStep] at h ⊢
  cases hrole : b.role c with
  | opening =>
    simp only [hrole, Option.some.injEq] at h ⊢
    omega
  | separator =>
    simp only [hrole] at h ⊢
    split at h
    · rename_i hinside
      cases h
      rw [if_pos (hinside.imp_right fun h => by omega)]
    · cases h
  | closing =>
    simp only [hrole] at h ⊢
    split at h
    · cases h
      rw [if_pos (by omega), Option.some.injEq]
      omega
    · cases h
  | text =>
    simp only [hrole, Option.some.injEq] at h ⊢
    omega

/-- Inside of further brackets a text counts as it does outside. -/
theorem levelAfter_add (h : b.levelAfter inList depth s = some level) (more : Nat) :
    b.levelAfter inList (depth + more) s = some (level + more) := by
  induction s generalizing depth with
  | nil =>
    cases h
    rfl
  | cons c s ih =>
    obtain ⟨next, hstep, hrest⟩ := levelAfter_cons_eq_some_iff.mp h
    rw [levelAfter_cons_of_step (levelStep_add hstep more), ih hrest]

theorem levelAfter_self (h : b.levelAfter inList 0 s = some 0) (depth : Nat) :
    b.levelAfter inList depth s = some depth := by
  have hadd := levelAfter_add h depth
  rwa [Nat.zero_add] at hadd

/-- A substitution between texts that count for nothing counts for nothing. -/
theorem levelAfter_of_replaces {old new : Text} (hold : b.levelAfter inList 0 old = some 0)
    (hnew : b.levelAfter inList 0 new = some 0) (h : Replaces old new s t) (depth : Nat) :
    b.levelAfter inList depth t = b.levelAfter inList depth s := by
  induction h generalizing depth with
  | nil => rfl
  | keep hkeep h ih =>
    rw [levelAfter_cons, levelAfter_cons]
    simp only [ih]
  | swap h ih =>
    -- behind either text the count is what it was in front
    rw [levelAfter_append_of_level (levelAfter_self hnew depth),
      levelAfter_append_of_level (levelAfter_self hold depth), ih]

theorem levelAfter_substitute {entries : List (Text × Text)}
    (h : ∀ e ∈ entries, b.levelAfter inList 0 e.1 = some 0 ∧ b.levelAfter inList 0 e.2 = some 0)
    (depth : Nat) (s : Text) :
    b.levelAfter inList depth (substitute entries s) = b.levelAfter inList depth s := by
  refine substitute_induction (motive := fun t =>
    b.levelAfter inList depth t = b.levelAfter inList depth s) ?_ rfl
  intro e he t ht
  obtain ⟨hold, hnew⟩ := h e he
  -- the empty text is never found
  by_cases hnil : e.1 = []
  · rwa [hnil, replace_empty]
  · rw [levelAfter_of_replaces hold hnew (replaces_replace hnil e.2 t), ht]

/-! ## 2. The count and the stray characters -/

theorem levelAfter_concat (b : Brackets) (inList : Bool) (depth : Nat) (s : Text) (c : Char) :
    b.levelAfter inList depth (s ++ [c])
      = (b.levelAfter inList depth s).bind (b.levelStep inList · c) := by
  rw [levelAfter_append]
  cases b.levelAfter inList depth s with
  | none => rfl
  | some level =>
    show b.levelAfter inList level [c] = b.levelStep inList level c
    rw [levelAfter_cons]
    cases b.levelStep inList level c <;> rfl

theorem nesting_of_levelStep {next : Nat} (h : b.levelStep inList depth c = some next) :
    (next : Int) = depth + b.nesting [c] := by
  rw [levelStep] at h
  rw [nesting_singleton]
  cases hrole : b.role c <;> grind

theorem nesting_of_levelAfter (h : b.levelAfter inList depth s = some level) :
    (level : Int) = depth + b.nesting s := by
  induction s generalizing depth with
  | nil =>
    cases h
    simp
  | cons c s ih =>
    obtain ⟨next, hstep, hrest⟩ := levelAfter_cons_eq_some_iff.mp h
    have hnext := nesting_of_levelStep hstep
    have hlevel := ih hrest
    rw [← List.singleton_append, nesting_append]
    omega

theorem strayReason?_eq_none_iff {before : Text} (h : b.nesting before = depth) :
    b.strayReason? inList before c = none ↔ ∃ next, b.levelStep inList depth c = some next := by
  rw [strayReason?, levelStep, h]
  cases b.role c <;> cases inList <;> by_cases hdepth : depth = 0 <;> simp [hdepth] <;> omega

/-- The count stops exactly at a stray character. -/
theorem noStray_iff_exists_level :
    b.NoStray inList s ↔ ∃ level, b.levelAfter inList 0 s = some level := by
  -- from the end, since all that stands before a character decides whether it is stray
  induction s using List.reverseRecOn with
  | nil => exact iff_of_true noStray_nil ⟨0, rfl⟩
  | append_singleton s c ih =>
    rw [noStray_concat_iff, ih, levelAfter_concat]
    constructor
    · rintro ⟨⟨level, hlevel⟩, hstray⟩
      have hnesting : b.nesting s = level := by
        have := nesting_of_levelAfter hlevel
        omega
      obtain ⟨next, hnext⟩ := (strayReason?_eq_none_iff hnesting).mp hstray
      exact ⟨next, by rw [hlevel]; exact hnext⟩
    · rintro ⟨next, hnext⟩
      obtain ⟨level, hlevel, hstep⟩ := Option.bind_eq_some_iff.mp hnext
      have hnesting : b.nesting s = level := by
        have := nesting_of_levelAfter hlevel
        omega
      exact ⟨⟨level, hlevel⟩, (strayReason?_eq_none_iff hnesting).mpr ⟨next, hstep⟩⟩

theorem levelAfter_zero_iff :
    b.levelAfter inList 0 s = some 0 ↔ b.NoStray inList s ∧ ¬ 0 < b.nesting s := by
  rw [noStray_iff_exists_level]
  constructor
  · intro h
    have hnesting := nesting_of_levelAfter h
    exact ⟨⟨0, h⟩, by omega⟩
  · rintro ⟨⟨level, hlevel⟩, hnesting⟩
    have hzero := nesting_of_levelAfter hlevel
    rwa [show level = 0 by omega] at hlevel

end Brackets

namespace Tree

variable {b : Brackets} {skipBlanks : Bool}

/-! ## 3. Texts that are read, and the texts of trees -/

/-- A signature is read exactly when the count goes from zero to zero. -/
theorem exists_parse_iff (hb : skipBlanks = true → b.Visible) {s : Text} :
    (∃ t, parse b skipBlanks s = .ok t) ↔ b.levelAfter false 0 s = some 0 := by
  rw [Brackets.levelAfter_zero_iff]
  exact (Scan.decidedByNesting hb false s).tree

theorem exists_parseList_iff (hb : skipBlanks = true → b.Visible) {s : Text} :
    (∃ root, parseList b skipBlanks s = .ok root) ↔ b.levelAfter true 0 s = some 0 := by
  rw [Brackets.levelAfter_zero_iff]
  exact (Scan.decidedByNesting hb true s).tree

mutual

theorem levelAfter_ink (hv : b.Visible) (hd : b.Distinct) (inList : Bool) (depth : Nat) :
    ∀ {t : Tree}, t.Texts b.Plain →
    b.levelAfter inList depth (ink b t) = some depth
  | ⟨left, [], right⟩, ht => by
    have hplain : b.Plain (left ++ right) :=
      fun c hc => (List.mem_append.mp hc).elim (ht.1 c) (ht.2.2 c)
    have hcount := Brackets.levelAfter_of_plain inList depth hplain
    rw [ink_leaf, ← nonblank_append, Brackets.levelAfter_nonblank hv, hcount]
  | ⟨left, child :: children, right⟩, ht => by
    have hleft := Brackets.levelAfter_of_plain inList depth ht.1
    have hright := Brackets.levelAfter_of_plain inList depth ht.2.2
    rw [← Brackets.levelAfter_nonblank hv] at hleft hright
    -- the row counts inside of one more bracket, where separators may stand
    have hrow := levelAfter_inkRow hv hd inList (depth + 1) ht.2.1 (.inr (Nat.succ_pos depth))
    have hopening : b.levelStep inList depth b.opening = some (depth + 1) := by
      rw [Brackets.levelStep, b.role_opening]
    have hclosing : b.levelStep inList (depth + 1) b.closing = some depth := by
      simp [Brackets.levelStep, hd.role_closing]
    rw [ink_group b left right (List.cons_ne_nil child children), List.append_assoc,
      Brackets.levelAfter_append_of_level hleft, List.append_assoc, List.cons_append,
      Brackets.levelAfter_cons_of_step hopening,
      Brackets.levelAfter_append_of_level hrow, List.singleton_append,
      Brackets.levelAfter_cons_of_step hclosing, hright]

/-- A row of siblings counts for nothing where separators may stand. -/
theorem levelAfter_inkRow (hv : b.Visible) (hd : b.Distinct) (inList : Bool) (depth : Nat) :
    ∀ {ts : List Tree}, TextsIn b.Plain ts → (inList = true ∨ 0 < depth) →
    b.levelAfter inList depth (inkRow b ts) = some depth
  | [], _, _ => rfl
  | t :: ts, hts, hinside => by
    rw [inkRow, Brackets.levelAfter_append_of_level (levelAfter_ink hv hd inList depth hts.1),
      levelAfter_inkFurther hv hd inList depth hts.2 hinside]

theorem levelAfter_inkFurther (hv : b.Visible) (hd : b.Distinct) (inList : Bool) (depth : Nat) :
    ∀ {ts : List Tree}, TextsIn b.Plain ts → (inList = true ∨ 0 < depth) →
    b.levelAfter inList depth (inkFurther b ts) = some depth
  | [], _, _ => rfl
  | t :: ts, hts, hinside => by
    have hseparator : b.levelStep inList depth b.separator = some depth := by
      simp [Brackets.levelStep, hd.role_separator, hinside]
    rw [inkFurther, List.cons_append, Brackets.levelAfter_cons_of_step hseparator,
      Brackets.levelAfter_append_of_level (levelAfter_ink hv hd inList depth hts.1),
      levelAfter_inkFurther hv hd inList depth hts.2 hinside]

end

section

variable (hv : b.Visible) (hd : b.Distinct) {o : Layout} (ho : ∀ c ∈ o.indentUnit, isBlank c = true)

include hv hd ho

/-- What is written of a list whose texts are plain is read as a list. -/
theorem levelAfter_renderItems {root : Tree} (h : root.Texts b.Plain) :
    b.levelAfter true 0 (root.renderItems b o) = some 0 := by
  have hrow := levelAfter_inkRow hv hd true 0 (texts_iff.mp h).2.1 (.inl rfl)
  rwa [← nonblank_renderItems hv ho, Brackets.levelAfter_nonblank hv] at hrow

theorem levelAfter_render {t : Tree} (h : t.Texts b.Plain) :
    b.levelAfter false 0 (t.render b o) = some 0 := by
  have hnode := levelAfter_ink hv hd false 0 h
  rwa [← nonblank_renderAt hv ho 0, Brackets.levelAfter_nonblank hv] at hnode

end

end Tree

end TypeSignature
