import TypeSignature.Proofs.Brackets
import TypeSignature.Proofs.Text.Nonblank
import TypeSignature.Tree.Render

/-!
# Spacing — the white space of a layout

A layout that indents by white space writes nothing but white space besides the texts of a tree and
the structural characters: in front of a line, around a left or right text, and on either side of a
bracket or behind a separator.
-/

namespace TypeSignature

open Text

/-- The second text is the first with white space around it. -/
def Text.Pads (s padded : Text) : Prop := ∃ before after : Text,
  (∀ c ∈ before, isBlank c = true) ∧ (∀ c ∈ after, isBlank c = true) ∧
    padded = before ++ (s ++ after)

namespace Text

variable {s t gap : Text}

theorem Pads.trimBlanks_eq (h : Pads s t) : trimBlanks t = trimBlanks s := by
  obtain ⟨before, after, hbefore, hafter, rfl⟩ := h
  unfold trimBlanks
  rw [trimWhere_of_all_append hbefore, trimWhere_append_of_all hafter]

theorem Pads.nonblank_eq (h : Pads s t) : nonblank t = nonblank s := by
  obtain ⟨before, after, hbefore, hafter, rfl⟩ := h
  rw [nonblank_append, nonblank_append, nonblank_eq_nil hbefore, nonblank_eq_nil hafter,
    List.nil_append, List.append_nil]

theorem Pads.blanks_append (h : Pads s t) (hgap : ∀ c ∈ gap, isBlank c = true) :
    Pads s (gap ++ t) := by
  obtain ⟨before, after, hbefore, hafter, rfl⟩ := h
  refine ⟨gap ++ before, after, ?_, hafter, by simp⟩
  exact List.forall_mem_append.mpr ⟨hgap, hbefore⟩

theorem Pads.append_blanks (h : Pads s t) (hgap : ∀ c ∈ gap, isBlank c = true) :
    Pads s (t ++ gap) := by
  obtain ⟨before, after, hbefore, hafter, rfl⟩ := h
  refine ⟨before, after ++ gap, hbefore, ?_, by simp⟩
  exact List.forall_mem_append.mpr ⟨hafter, hgap⟩

theorem Pads.plain {b : Brackets} (h : Pads s t) (hv : b.Visible) (hs : b.Plain s) :
    b.Plain t := by
  obtain ⟨before, after, hbefore, hafter, rfl⟩ := h
  exact List.forall_mem_append.mpr ⟨hv.plain_of_blank hbefore,
    List.forall_mem_append.mpr ⟨hs, hv.plain_of_blank hafter⟩⟩

end Text

/-! ## 1. The parts of a layout -/

namespace Layout

theorem exists_betweenSiblings (b : Brackets) (o : Layout) :
    ∃ gap : Text, (∀ c ∈ gap, isBlank c = true) ∧ o.betweenSiblings b = b.separator :: gap := by
  unfold betweenSiblings
  split
  · exact ⟨[], by simp, rfl⟩
  · exact ⟨[' '], List.forall_mem_singleton.mpr isBlank_space, rfl⟩
  · exact ⟨['\n'], List.forall_mem_singleton.mpr (by decide), rfl⟩

theorem pads_leftText (o : Layout) (left : Text) : Pads left (o.leftText left) := by
  unfold leftText
  split
  · exact ⟨[], [' '], by simp, List.forall_mem_singleton.mpr isBlank_space, rfl⟩
  · exact ⟨[], [], by simp, by simp, by simp⟩

theorem pads_rightText (o : Layout) (right : Text) : Pads right (o.rightText right) := by
  unfold rightText
  split
  · exact ⟨[' '], [], List.forall_mem_singleton.mpr isBlank_space, by simp, by simp⟩
  · exact ⟨[], [], by simp, by simp, by simp⟩

section

variable {o : Layout} (ho : ∀ c ∈ o.indentUnit, isBlank c = true)

include ho

theorem isBlank_of_mem_lineStart (level : Nat) : ∀ c ∈ o.lineStart level, isBlank c = true := by
  intro c hc
  obtain ⟨unit, hunit, hc⟩ := List.mem_flatten.mp hc
  rw [List.eq_of_mem_replicate hunit] at hc
  exact ho c hc

theorem isBlank_of_mem_indent (level : Nat) :
    ∀ c ∈ (if o.indents then o.lineStart level else []), isBlank c = true := by
  split
  · exact isBlank_of_mem_lineStart ho level
  · simp

theorem isBlank_of_mem_newLine (level : Nat) :
    ∀ c ∈ '\n' :: o.lineStart level, isBlank c = true :=
  List.forall_mem_cons.mpr ⟨by decide, isBlank_of_mem_lineStart ho level⟩

theorem exists_beforeGroup (b : Brackets) (level : Nat) : ∃ before after : Text,
    (∀ c ∈ before, isBlank c = true) ∧ (∀ c ∈ after, isBlank c = true) ∧
      o.beforeGroup b level = before ++ b.opening :: after := by
  have hbreak : ∀ c ∈ ['\n'], isBlank c = true := List.forall_mem_singleton.mpr (by decide)
  unfold beforeGroup
  split
  · exact ⟨[], [], by simp, by simp, rfl⟩
  · exact ⟨'\n' :: o.lineStart level, ['\n'], isBlank_of_mem_newLine ho level, hbreak, rfl⟩
  · exact ⟨[], ['\n'], by simp, hbreak, rfl⟩

theorem exists_afterGroup (b : Brackets) (level : Nat) : ∃ gap : Text,
    (∀ c ∈ gap, isBlank c = true) ∧ o.afterGroup b level = gap ++ [b.closing] := by
  unfold afterGroup
  split
  · exact ⟨'\n' :: o.lineStart level, isBlank_of_mem_newLine ho level, rfl⟩
  · exact ⟨[], by simp, rfl⟩

end

end Layout

/-! ## 2. A node -/

namespace Tree

variable {b : Brackets} {o : Layout} (ho : ∀ c ∈ o.indentUnit, isBlank c = true)

include ho

theorem pads_renderAt_leaf (level : Nat) (left : Text) :
    Pads left (renderAt b o level ⟨left, [], []⟩) := by
  have hleft := (o.pads_leftText left).blanks_append (o.isBlank_of_mem_indent ho level)
  simpa [renderAt, Layout.rightText] using hleft

/-- The layout of a node with children, its structural characters apart from its white space. -/
theorem exists_renderAt_of_group (level : Nat) (left right : Text) (child : Tree)
    (children : List Tree) : ∃ leftPadded rightPadded opened closed : Text,
      Pads left leftPadded ∧ Pads right rightPadded ∧ (∀ c ∈ opened, isBlank c = true) ∧
      (∀ c ∈ closed, isBlank c = true) ∧
      renderAt b o level ⟨left, child :: children, right⟩ = leftPadded ++ b.opening ::
        ((opened ++ renderAt b o (level + 1) child) ++
          ((renderFurther b o (level + 1) children ++ closed) ++ b.closing :: rightPadded)) := by
  obtain ⟨before, opened, hbefore, hopened, hopening⟩ := o.exists_beforeGroup ho b level
  obtain ⟨closed, hclosed, hclosing⟩ := o.exists_afterGroup ho b level
  have hleft := (o.pads_leftText left).blanks_append (o.isBlank_of_mem_indent ho level)
  refine ⟨_, _, opened, closed, hleft.append_blanks hbefore, o.pads_rightText right, hopened,
    hclosed, ?_⟩
  rw [renderAt, renderRow, hopening, hclosing]
  simp

end Tree

end TypeSignature
