import TypeSignature.Proofs.Acceptance

/-!
# Pieces — where a text is cut

The splitter counts open brackets and ignores a closing bracket without a partner, so it cuts texts
that are not balanced as well.  `uncutAfter` is its count behind a text in which it makes no cut.
Texts that are not cut, with a count of zero behind each but the last, are the pieces of what they
are joined to.
-/

namespace TypeSignature.Brackets

open Text

/-- The number of open brackets behind a character, unless the text is cut there. -/
def uncutStep (b : Brackets) (depth : Nat) (c : Char) : Option Nat :=
  if b.role c = .separator ∧ depth = 0 then none else some (b.depthAfter depth c)

/-- The number of open brackets behind a text that begins where `depth` are open, unless it is cut
somewhere. -/
def uncutAfter (b : Brackets) (depth : Nat) (s : Text) : Option Nat := s.foldlM b.uncutStep depth

variable {b : Brackets} {depth level : Nat} {c : Char} {s t gap : Text} {pieces : List Text}

@[simp] theorem uncutAfter_nil (b : Brackets) (depth : Nat) :
    b.uncutAfter depth [] = some depth := rfl

theorem uncutAfter_cons (hc : ¬ (b.role c = .separator ∧ depth = 0)) (s : Text) :
    b.uncutAfter depth (c :: s) = b.uncutAfter (b.depthAfter depth c) s := by
  rw [uncutAfter, List.foldlM_cons, uncutStep, if_neg hc]
  rfl

theorem not_cut_of_uncutAfter (h : b.uncutAfter depth (c :: s) = some level) :
    ¬ (b.role c = .separator ∧ depth = 0) := by
  intro hc
  rw [uncutAfter, List.foldlM_cons, uncutStep, if_pos hc] at h
  cases h

/-! ## 1. What the count depends on -/

theorem depthAfter_of_text (hc : b.role c = .text) (depth : Nat) : b.depthAfter depth c = depth := by
  obtain ⟨hopening, -, hclosing⟩ := role_eq_text_iff.mp hc
  rw [depthAfter, if_neg hopening, if_neg hclosing]

theorem uncutAfter_skeleton (b : Brackets) (depth : Nat) (s : Text) :
    b.uncutAfter depth (b.skeleton s) = b.uncutAfter depth s := by
  apply foldlM_skeleton
  intro depth c hc
  rw [uncutStep, if_neg (by simp [hc]), depthAfter_of_text hc]

theorem uncutAfter_congr (h : b.skeleton s = b.skeleton t) (depth : Nat) :
    b.uncutAfter depth s = b.uncutAfter depth t := by
  rw [← uncutAfter_skeleton b depth s, h, uncutAfter_skeleton]

theorem uncutAfter_of_plain (hs : b.Plain s) (depth : Nat) : b.uncutAfter depth s = some depth := by
  rw [← uncutAfter_skeleton, skeleton_of_plain hs, uncutAfter_nil]

/-- What counts as a part of one signature is not cut. -/
theorem Distinct.uncutAfter_of_level (hd : b.Distinct)
    (h : b.levelAfter false depth s = some level) : b.uncutAfter depth s = some level := by
  induction s generalizing depth with
  | nil => exact h
  | cons c s ih =>
    obtain ⟨next, hstep, hrest⟩ := levelAfter_cons_eq_some_iff.mp h
    have hcut : ¬ (b.role c = .separator ∧ depth = 0) := by
      rintro ⟨hrole, hdepth⟩
      simp [levelStep, hrole, hdepth] at hstep
    have hnext : b.depthAfter depth c = next := by
      rw [levelStep] at hstep
      rw [hd.depthAfter_eq]
      cases hrole : b.role c <;> grind
    rw [uncutAfter_cons hcut, hnext, ih hrest]

/-! ## 2. Cutting -/

theorem foldr_consFirst (s piece : Text) (pieces : List Text) :
    s.foldr consFirst (piece :: pieces) = (s ++ piece) :: pieces := by
  induction s with
  | nil => rfl
  | cons c s ih => rw [List.foldr_cons, ih, List.cons_append, consFirst]

section

variable (hd : b.Distinct)

include hd

/-- A text that is not cut belongs to the first piece. -/
theorem Distinct.piecesFrom_append (h : b.uncutAfter depth s = some level) (t : Text) :
    b.piecesFrom depth (s ++ t) = s.foldr consFirst (b.piecesFrom level t) := by
  induction s generalizing depth with
  | nil =>
    cases h
    rfl
  | cons c s ih =>
    have hcut := not_cut_of_uncutAfter h
    rw [uncutAfter_cons hcut] at h
    rw [List.cons_append, hd.piecesFrom_of_not_cut hcut, ih h, List.foldr_cons]

theorem Distinct.piecesFrom_of_uncut (h : b.uncutAfter depth s = some level) :
    b.piecesFrom depth s = [s] := by
  have hpieces := hd.piecesFrom_append h []
  rwa [List.append_nil, piecesFrom, foldr_consFirst, List.append_nil] at hpieces

theorem Distinct.split_of_uncut (h : b.uncutAfter 0 s = some level) :
    b.split s = [trimSpaces s] := by
  rw [split, hd.piecesFrom_of_uncut h, List.map_singleton]

/-- Spaces behind the separator are trimmed, unless they are brackets or separators themselves. -/
theorem Distinct.split_append_separator (h : b.uncutAfter 0 s = some 0) (hplain : b.Plain gap)
    (hgap : ∀ c ∈ gap, c = ' ') (t : Text) :
    b.split (s ++ b.separator :: (gap ++ t)) = trimSpaces s :: b.split t := by
  have htrim : ∀ piece : Text, trimSpaces (gap ++ piece) = trimSpaces piece := by
    intro piece
    have hspaces : ∀ c ∈ gap, (c == ' ') = true := fun c hc => by simp [hgap c hc]
    exact trimWhere_of_all_append hspaces
  -- the piece ends at the separator, and the spaces begin the next one
  obtain ⟨piece, pieces, hpieces⟩ := List.exists_cons_of_ne_nil (b.piecesFrom_ne_nil 0 t)
  rw [split, hd.piecesFrom_append h, hd.piecesFrom_of_cut hd.role_separator,
    hd.piecesFrom_append (uncutAfter_of_plain hplain 0), split, hpieces, foldr_consFirst,
    foldr_consFirst, List.append_nil, List.map_cons, List.map_cons, htrim, List.map_cons]

end

/-! ## 3. Joining -/

/-- The texts are not cut when `depth` brackets are open in front of them, and none is open behind
any but the last. -/
inductive Pieces (b : Brackets) : (depth : Nat) → List Text → Prop
  | last {depth level : Nat} {s : Text} (h : b.uncutAfter depth s = some level) :
      Pieces b depth [s]
  | more {depth : Nat} {s : Text} {rest : List Text} (h : b.uncutAfter depth s = some 0)
      (hrest : Pieces b 0 rest) : Pieces b depth (s :: rest)

theorem Pieces.ne_nil (h : Pieces b depth pieces) : pieces ≠ [] := by
  cases h with
  | last => simp
  | more => simp

theorem Pieces.consFirst (h : Pieces b (b.depthAfter depth c) pieces)
    (hc : ¬ (b.role c = .separator ∧ depth = 0)) : Pieces b depth (consFirst c pieces) := by
  cases h with
  | last h => exact .last ((uncutAfter_cons hc _).trans h)
  | more h hrest => exact .more ((uncutAfter_cons hc _).trans h) hrest

/-- The pieces of a text are pieces. -/
theorem Distinct.pieces_piecesFrom (hd : b.Distinct) (depth : Nat) (s : Text) :
    Pieces b depth (b.piecesFrom depth s) := by
  induction s generalizing depth with
  | nil => exact .last rfl
  | cons c s ih =>
    by_cases hc : b.role c = .separator ∧ depth = 0
    · obtain ⟨hrole, rfl⟩ := hc
      rw [hd.piecesFrom_of_cut hrole]
      exact .more rfl (ih 0)
    · rw [hd.piecesFrom_of_not_cut hc]
      exact (ih _).consFirst hc

theorem Pieces.map {f : Text → Text} (hf : ∀ s, b.skeleton (f s) = b.skeleton s)
    (h : Pieces b depth pieces) : Pieces b depth (pieces.map f) := by
  induction h with
  | last h => exact .last ((uncutAfter_congr (hf _) _).trans h)
  | more h _ ih => exact .more ((uncutAfter_congr (hf _) _).trans h) ih

theorem Distinct.pieces_of_level (hd : b.Distinct) (hne : pieces ≠ [])
    (h : ∀ piece ∈ pieces, b.levelAfter false 0 piece = some 0) : Pieces b 0 pieces := by
  induction pieces with
  | nil => exact absurd rfl hne
  | cons piece pieces ih =>
    obtain ⟨hpiece, hpieces⟩ := List.forall_mem_cons.mp h
    cases pieces with
    | nil => exact .last (hd.uncutAfter_of_level hpiece)
    | cons next rest =>
      exact .more (hd.uncutAfter_of_level hpiece) (ih (List.cons_ne_nil next rest) hpieces)

theorem join_cons_of_ne_nil (between s : Text) (h : pieces ≠ []) :
    join between (s :: pieces) = s ++ (between ++ join between pieces) := by
  obtain ⟨next, rest, rfl⟩ := List.exists_cons_of_ne_nil h
  rw [join_cons_cons, List.append_assoc]

/-- Joined by the separator and spaces, the pieces are found again. -/
theorem Pieces.split_join (h : Pieces b 0 pieces) (hd : b.Distinct) (hplain : b.Plain gap)
    (hgap : ∀ c ∈ gap, c = ' ') :
    b.split (join (b.separator :: gap) pieces) = pieces.map trimSpaces := by
  induction pieces with
  | nil => cases h
  | cons piece pieces ih =>
    cases h with
    | last hpiece => exact hd.split_of_uncut hpiece
    | more hpiece hpieces =>
      rw [join_cons_of_ne_nil _ _ hpieces.ne_nil, List.cons_append,
        hd.split_append_separator hpiece hplain hgap, ih hpieces, List.map_cons]

/-! ## 4. Where the pieces lie -/

theorem infix_join_of_mem (between : Text) (h : s ∈ pieces) : s <:+: join between pieces := by
  induction pieces with
  | nil => cases h
  | cons piece pieces ih =>
    rcases List.mem_cons.mp h with rfl | h
    · cases pieces with
      | nil => exact List.infix_rfl
      | cons next rest =>
        rw [join_cons_cons, List.append_assoc]
        exact (List.prefix_append _ _).isInfix
    · rw [join_cons_of_ne_nil _ _ (List.ne_nil_of_mem h), ← List.append_assoc]
      exact (ih h).trans (List.suffix_append _ _).isInfix

theorem exists_join_of_mem_tail (between : Text) {pieces : List Text} (h : s ∈ pieces.tail) :
    ∃ u v, join between pieces = u ++ (between ++ (s ++ v)) ∧ (v = [] ∨ between <+: v) := by
  induction pieces with
  | nil => cases h
  | cons piece pieces ih =>
    cases pieces with
    | nil => cases h
    | cons next rest =>
      rcases List.mem_cons.mp h with rfl | hrest
      · refine ⟨piece, ?_⟩
        rw [join_cons_cons, List.append_assoc]
        cases rest with
        | nil => exact ⟨[], by rw [List.append_nil]; rfl, .inl rfl⟩
        | cons other rest =>
          refine ⟨between ++ join between (other :: rest), ?_, .inr (List.prefix_append _ _)⟩
          rw [join_cons_cons, List.append_assoc]
      · obtain ⟨u, v, hjoin, hv⟩ := ih hrest
        refine ⟨piece ++ (between ++ u), v, ?_, hv⟩
        rw [join_cons_cons, hjoin]
        simp

theorem infix_of_mem_split (h : s ∈ b.split t) : s <:+: t := by
  obtain ⟨piece, hpiece, rfl⟩ := List.mem_map.mp h
  have hjoin := infix_join_of_mem [b.separator] hpiece
  rw [join_piecesFrom] at hjoin
  obtain ⟨head, tail, -, -, htrim⟩ := exists_trimSpaces piece
  exact List.IsInfix.trans ⟨head, tail, by rw [List.append_assoc, ← htrim]⟩ hjoin

end TypeSignature.Brackets
