import Mathlib.Data.List.Forall2
import TypeSignature.Proofs.Pieces
import TypeSignature.Proofs.Text.Marks

/-!
# Splitting — the pieces say all about a text but the spaces around them

A text is its pieces with spaces around each, joined by the separator, and there is one piece more
than there are separators where the running count of open brackets is zero.  Joined by the separator
and a space, the pieces are found again, since none of them is cut and the count is zero behind each
but the last.  None of this asks for brackets that match.
-/

namespace TypeSignature.Brackets

open Text

/-- The count of open brackets behind a text in front of which it is `depth`: openings less
closings, cut off at zero after every character. -/
def runningDepth (b : Brackets) (depth : Int) (s : Text) : Int :=
  s.foldl (fun depth c => max 0 (depth + b.nesting [c])) depth

/-- How many separators of a text stand where no bracket is open. -/
def outerSeparators (b : Brackets) (depth : Int) (s : Text) : Nat :=
  (List.range s.length).countP fun i =>
    s[i]? = some b.separator ∧ b.runningDepth depth (s.take i) = 0

/-- The second text is the first with spaces in front of it and behind it. -/
def Padded (s t : Text) : Prop :=
  ∃ before behind : Nat, t = List.replicate before ' ' ++ (s ++ List.replicate behind ' ')

variable {b : Brackets}

/-! ## 1. Nothing is lost -/

theorem padded_trimSpaces (s : Text) : Padded (trimSpaces s) s := by
  obtain ⟨head, tail, hhead, htail, hs⟩ := exists_trimWhere (· == ' ') s
  have hspaces : ∀ t : Text, (∀ c ∈ t, (c == ' ') = true) → t = List.replicate t.length ' ' := by
    intro t ht
    rw [List.eq_replicate_iff]
    exact ⟨rfl, fun c hc => eq_of_beq (ht c hc)⟩
  refine ⟨head.length, tail.length, ?_⟩
  rw [← hspaces head hhead, ← hspaces tail htail]
  exact hs

theorem forall₂_padded_map (pieces : List Text) :
    List.Forall₂ Padded (pieces.map trimSpaces) pieces := by
  rw [List.forall₂_map_left_iff, List.forall₂_same]
  intro piece _
  exact padded_trimSpaces piece

/-! ## 2. The number of pieces -/

theorem length_consFirst (c : Char) {pieces : List Text} (h : pieces ≠ []) :
    (consFirst c pieces).length = pieces.length := by
  cases pieces with
  | nil => exact absurd rfl h
  | cons piece pieces => rfl

theorem Distinct.runningDepth_cons (hd : b.Distinct) (depth : Nat) (c : Char) (s : Text) :
    b.runningDepth depth (c :: s) = b.runningDepth (b.depthAfter depth c) s := by
  have hstep : max 0 ((depth : Int) + b.nesting [c]) = (b.depthAfter depth c : Nat) := by
    rw [hd.depthAfter_eq, nesting_singleton]
    cases b.role c <;> simp only <;> omega
  rw [runningDepth, List.foldl_cons, hstep, runningDepth]

theorem Distinct.outerSeparators_cons (hd : b.Distinct) (depth : Nat) (c : Char) (s : Text) :
    b.outerSeparators depth (c :: s)
      = b.outerSeparators (b.depthAfter depth c) s
        + if b.role c = .separator ∧ depth = 0 then 1 else 0 := by
  have hfirst : (c = b.separator ∧ (depth : Int) = 0) ↔ (b.role c = .separator ∧ depth = 0) := by
    rw [Int.natCast_eq_zero]
    refine and_congr_left fun _ => ⟨?_, eq_separator_of_role⟩
    rintro rfl
    exact hd.role_separator
  rw [outerSeparators, List.length_cons, List.range_succ_eq_map, List.countP_cons, List.countP_map]
  congr 1
  · -- behind the first character every place is one further on
    unfold outerSeparators
    congr 1
    funext i
    rw [Function.comp_apply, List.getElem?_cons_succ, List.take_succ_cons, hd.runningDepth_cons]
  · simp only [List.getElem?_cons_zero, List.take_zero, Option.some_inj, runningDepth,
      List.foldl_nil, decide_eq_true_eq, hfirst]

theorem Distinct.length_piecesFrom (hd : b.Distinct) (depth : Nat) (s : Text) :
    (b.piecesFrom depth s).length = b.outerSeparators depth s + 1 := by
  induction s generalizing depth with
  | nil => rfl
  | cons c s ih =>
    rw [hd.outerSeparators_cons]
    by_cases hc : b.role c = .separator ∧ depth = 0
    · obtain ⟨hrole, rfl⟩ := hc
      have hdepth : b.depthAfter 0 c = 0 := by rw [hd.depthAfter_eq, hrole]
      rw [hd.piecesFrom_of_cut hrole, List.length_cons, ih, hdepth, if_pos ⟨hrole, rfl⟩]
    · rw [hd.piecesFrom_of_not_cut hc, length_consFirst c (b.piecesFrom_ne_nil _ s), ih, if_neg hc]

/-! ## 3. Splitting again -/

theorem skeleton_trimSpaces (hspace : b.role ' ' = .text) (s : Text) :
    b.skeleton (trimSpaces s) = b.skeleton s := by
  obtain ⟨before, behind, hs⟩ := padded_trimSpaces s
  have hplain : ∀ n : Nat, b.Plain (List.replicate n ' ') := by
    intro n c hc
    rw [List.eq_of_mem_replicate hc]
    exact hspace
  conv_rhs => rw [hs]
  rw [skeleton_append, skeleton_append, skeleton_of_plain (hplain before),
    skeleton_of_plain (hplain behind), List.nil_append, List.append_nil]

theorem Distinct.pieces_split (hd : b.Distinct) (hspace : b.role ' ' = .text) (s : Text) :
    Pieces b 0 (b.split s) :=
  (hd.pieces_piecesFrom 0 s).map (skeleton_trimSpaces hspace)

theorem map_trimSpaces_split (b : Brackets) (s : Text) :
    (b.split s).map trimSpaces = b.split s := by
  rw [split, List.map_map]
  exact List.map_congr_left fun piece _ => trimSpaces_trimSpaces piece

/-- **Splitting.**  With three different brackets, none of them a space, nothing of a text is lost
but spaces around its pieces, every separator outside of brackets counts, and the pieces stay what
they are when they are joined and split again. -/
theorem Distinct.split_exact (hd : b.Distinct) (hspace : b.role ' ' = .text) (s : Text) :
    (∃ padded, List.Forall₂ Padded (b.split s) padded ∧ join [b.separator] padded = s) ∧
    (b.split s).length = b.outerSeparators 0 s + 1 ∧
    b.split (join [b.separator, ' '] (b.split s)) = b.split s := by
  refine ⟨⟨b.piecesFrom 0 s, forall₂_padded_map _, b.join_piecesFrom 0 s⟩, ?_, ?_⟩
  · rw [split, List.length_map]
    exact hd.length_piecesFrom 0 s
  · have hplain : b.Plain [' '] := List.forall_mem_singleton.mpr hspace
    rw [(hd.pieces_split hspace s).split_join hd hplain (by simp), map_trimSpaces_split]

/-- The brackets need not match: the second `>` closes nothing, and behind the last `<` no
separator is outside. -/
theorem Distinct.split_exact_unbalanced :
    angle.Distinct ∧ angle.role ' ' = .text ∧
    angle.split " a<b, c>> ,d > , ,<e, f ".toList
      = ["a<b, c>>".toList, "d >".toList, [], "<e, f".toList] ∧
    angle.outerSeparators 0 " a<b, c>> ,d > , ,<e, f ".toList = 3 ∧
    angle.split "a<b, c>>, d >, , <e, f".toList
      = ["a<b, c>>".toList, "d >".toList, [], "<e, f".toList] := by
  have hsplit : angle.split " a<b, c>> ,d > , ,<e, f ".toList
      = ["a<b, c>>".toList, "d >".toList, [], "<e, f".toList] := by decide
  obtain ⟨-, hlength, hagain⟩ :=
    distinct_angle.split_exact (by decide) " a<b, c>> ,d > , ,<e, f ".toList
  rw [hsplit] at hlength hagain
  exact ⟨distinct_angle, by decide, hsplit, (Nat.succ.inj hlength).symm, hagain⟩

end TypeSignature.Brackets
