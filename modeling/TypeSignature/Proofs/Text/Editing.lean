import TypeSignature.Proofs.Text.Positions
import TypeSignature.Proofs.Text.Replacing

/-!
# Editing — substitution in the text that is searched

A substitution can be made in place: find the next occurrence at or behind a position, put the new
text there, and move the position behind it.  Each round searches nothing but the end of the text as
it was, so the rounds replace the occurrences that are leftmost in the text and do not overlap, come
to an end, and leave what `Text.replace` gives.
-/

namespace TypeSignature.Text

/-- A text that is being edited, and the byte position from which it is searched. -/
structure Edit where
  text : Text
  position : Nat

namespace Edit

/-- One round: the next occurrence of `old` is replaced by `new`, and the position moves behind it.
When there is no further occurrence the outcome is `some none`.  It would be `none` if the text were
to be cut outside of its bounds or inside of a character. -/
def round (old new : Text) (e : Edit) : Option (Option Edit) := do
  let (_, ahead) ← e.text.cutAt? e.position
  match ahead.find? old with
  | none => return none
  | some distance =>
    let start := e.position + distance
    let (front, _) ← e.text.cutAt? start
    let (_, behind) ← e.text.cutAt? (start + byteSize old)
    return some ⟨front ++ (new ++ behind), start + byteSize new⟩

/-- The rounds from a state on: the states in which the text is searched, the last of which finds
nothing more, and the text that is left. -/
inductive Runs (old new : Text) : Edit → List Edit → Text → Prop
  | stop {e : Edit} (h : e.round old new = some none) : Runs old new e [e] e.text
  | go {e next : Edit} {states : List Edit} {t : Text} (h : e.round old new = some (some next))
      (hrest : Runs old new next states t) : Runs old new e (e :: states) t

/-- The state in which the first text is written and the second one not read. -/
def between (written ahead : Text) : Edit := ⟨written ++ ahead, byteSize written⟩

end Edit

/-- The texts in order, with `joint` behind each but the last. -/
def linked (joint : Text) (front : List Text) (last : Text) : Text :=
  front.flatMap (· ++ joint) ++ last

/-- The text is cut at the occurrences of `old`, the leftmost first: in each piece but the last,
with `old` put behind it again, `old` occurs only there, and in the last it does not occur. -/
structure LeftmostCut (old s : Text) (front : List Text) (last : Text) : Prop where
  linked_eq : linked old front last = s
  only_at_end : ∀ piece ∈ front, OnlyAtEnd old piece
  absent : ¬ old <:+: last

variable {old new s t last last' : Text} {front front' : List Text}

theorem linked_cons (joint piece : Text) (front : List Text) (last : Text) :
    linked joint (piece :: front) last = piece ++ (joint ++ linked joint front last) := by
  simp [linked]

/-! ## 1. A text is cut in one way -/

theorem OnlyAtEnd.eq_of_append_eq {u u' : Text} (h : OnlyAtEnd old u) (h' : OnlyAtEnd old u')
    (heq : u ++ (old ++ t) = u' ++ (old ++ s)) : u = u' := by
  rcases List.append_eq_append_iff.mp heq with ⟨v, rfl, hrest⟩ | ⟨v, rfl, hrest⟩
  · rw [h'.eq_nil ⟨t, hrest⟩, List.append_nil]
  · rw [h.eq_nil ⟨s, hrest⟩, List.append_nil]

theorem infix_linked_cons (old piece : Text) (front : List Text) (last : Text) :
    old <:+: linked old (piece :: front) last :=
  ⟨piece, linked old front last, by rw [linked_cons, List.append_assoc]⟩

theorem LeftmostCut.unique (h : LeftmostCut old s front last)
    (h' : LeftmostCut old s front' last') : front' = front ∧ last' = last := by
  obtain ⟨rfl, hends, habsent⟩ := h
  obtain ⟨heq, hends', habsent'⟩ := h'
  induction front generalizing front' with
  | nil =>
    cases front' with
    | nil => exact ⟨rfl, heq⟩
    | cons piece' front' =>
      -- the only piece would hold `old`
      have hin := infix_linked_cons old piece' front' last'
      rw [heq] at hin
      exact absurd hin habsent
  | cons piece front ih =>
    cases front' with
    | nil =>
      have hin := infix_linked_cons old piece front last
      rw [← heq] at hin
      exact absurd hin habsent'
    | cons piece' front' =>
      obtain ⟨hpiece, hfront⟩ := List.forall_mem_cons.mp hends
      obtain ⟨hpiece', hfront'⟩ := List.forall_mem_cons.mp hends'
      -- the first pieces end at the same occurrence, and the rest is cut in one way
      rw [linked_cons, linked_cons] at heq
      obtain rfl : piece' = piece := hpiece'.eq_of_append_eq hpiece heq
      have hrest := List.append_cancel_left (List.append_cancel_left heq)
      obtain ⟨rfl, rfl⟩ := ih hfront hrest hfront'
      exact ⟨rfl, rfl⟩

/-! ## 2. A substitution cuts -/

theorem OnlyAtEnd.cons {c : Char} {u : Text} (h : OnlyAtEnd old u)
    (hkeep : ¬ old <+: c :: (u ++ old)) : OnlyAtEnd old (c :: u) := by
  intro before behind hu
  cases before with
  | nil => exact absurd ⟨behind, hu.symm⟩ hkeep
  | cons d before =>
    rw [List.cons_append, List.cons_append, List.cons.injEq] at hu
    exact h before behind hu.2

theorem Replaces.exists_leftmostCut (hold : old ≠ []) (h : Replaces old new s t) :
    ∃ front last, LeftmostCut old s front last ∧ linked new front last = t := by
  induction h with
  | nil => exact ⟨[], [], ⟨rfl, by simp, by simpa using hold⟩, rfl⟩
  | @keep c s t hkeep _ ih =>
    obtain ⟨front, last, ⟨rfl, hends, habsent⟩, rfl⟩ := ih
    -- the character goes in front of the first piece
    cases front with
    | nil =>
      refine ⟨[], c :: last, ⟨rfl, hends, ?_⟩, rfl⟩
      intro hin
      exact (List.infix_cons_iff.mp hin).elim hkeep habsent
    | cons piece front =>
      obtain ⟨hpiece, hfront⟩ := List.forall_mem_cons.mp hends
      have hkeep' : ¬ old <+: c :: (piece ++ old) := by
        intro hpre
        apply hkeep
        rw [linked_cons, ← List.append_assoc, ← List.cons_append]
        exact hpre.trans (List.prefix_append _ _)
      refine ⟨(c :: piece) :: front, last, ⟨?_, ?_, habsent⟩, ?_⟩
      · rw [linked_cons, linked_cons, List.cons_append]
      · exact List.forall_mem_cons.mpr ⟨hpiece.cons hkeep', hfront⟩
      · rw [linked_cons, linked_cons, List.cons_append]
  | swap _ ih =>
    obtain ⟨front, last, ⟨rfl, hends, habsent⟩, rfl⟩ := ih
    refine ⟨[] :: front, last, ⟨?_, ?_, habsent⟩, ?_⟩
    · rw [linked_cons, List.nil_append]
    · exact List.forall_mem_cons.mpr ⟨onlyAtEnd_nil old, hends⟩
    · rw [linked_cons, List.nil_append]

/-! ## 3. The rounds -/

namespace Edit

theorem cutAt?_between (written ahead : Text) :
    (between written ahead).text.cutAt? (between written ahead).position = some (written, ahead) :=
  cutAt?_byteSize written ahead

theorem round_of_absent (h : ¬ old <:+: last) (new written : Text) :
    (between written last).round old new = some none := by
  rw [round, cutAt?_between]
  simp only [Option.bind_eq_bind, Option.bind_some, find?_of_absent h]
  rfl

theorem round_of_onlyAtEnd {piece : Text} (h : OnlyAtEnd old piece) (new written rest : Text) :
    (between written (piece ++ (old ++ rest))).round old new
      = some (some (between (written ++ (piece ++ new)) rest)) := by
  have hfront : (written ++ (piece ++ (old ++ rest))).cutAt? (byteSize written + byteSize piece)
      = some (written ++ piece, old ++ rest) := by
    rw [cutAt?_eq_some_iff]
    exact ⟨(List.append_assoc ..).symm, byteSize_append ..⟩
  have hbehind : (written ++ (piece ++ (old ++ rest))).cutAt?
      (byteSize written + byteSize piece + byteSize old)
      = some (written ++ (piece ++ old), rest) := by
    rw [cutAt?_eq_some_iff, byteSize_append, byteSize_append, Nat.add_assoc]
    simp
  rw [round, cutAt?_between]
  simp only [Option.bind_eq_bind, Option.bind_some, h.find?_eq rest]
  simp only [between, hfront, hbehind, Option.bind_some]
  simp only [byteSize_append, List.append_assoc, Nat.add_assoc]
  rfl

/-- Once `n` occurrences are replaced, what is written ends with the `n`-th, and what is ahead is as
it was. -/
theorem runs_between (hends : ∀ piece ∈ front, OnlyAtEnd old piece) (habsent : ¬ old <:+: last)
    (new written : Text) :
    Runs old new (between written (linked old front last))
      ((List.range (front.length + 1)).map fun n =>
        between (written ++ linked new (front.take n) []) (linked old (front.drop n) last))
      (written ++ linked new front last) := by
  induction front generalizing written with
  | nil =>
    have hstop : Runs old new (between written last) [between written last] (written ++ last) :=
      Runs.stop (round_of_absent habsent new written)
    simpa [linked] using hstop
  | cons piece front ih =>
    obtain ⟨hpiece, hfront⟩ := List.forall_mem_cons.mp hends
    have hround := round_of_onlyAtEnd hpiece new written (linked old front last)
    rw [← linked_cons] at hround
    have hgo := Runs.go hround (ih hfront (written ++ (piece ++ new)))
    rw [List.length_cons, List.range_succ_eq_map, List.map_cons, List.map_map]
    simp only [Function.comp_def, List.take_succ_cons, List.drop_succ_cons, linked_cons,
      List.append_assoc, List.take_zero, List.drop_zero] at hgo ⊢
    simpa [linked] using hgo

end Edit

/-- What is left behind the first pieces is an end of the text. -/
theorem linked_drop_suffix (joint : Text) (front : List Text) (last : Text) (n : Nat) :
    linked joint (front.drop n) last <:+ linked joint front last := by
  refine ⟨(front.take n).flatMap (· ++ joint), ?_⟩
  rw [linked, linked, ← List.append_assoc, ← List.flatMap_append, List.take_append_drop]

/-- **Substitution.**  A text is cut at the leftmost occurrences in one way only, and substitution
puts the new text where it was cut.  Made in place, it ends after one round for each occurrence and
one more.  The round after `n` substitutions stands behind all that these have written, and it
searches an end of the text as it was. -/
theorem exists_leftmostCut_replace (hold : old ≠ []) (new s : Text) :
    ∃ front last, LeftmostCut old s front last ∧
      (∀ front' last', LeftmostCut old s front' last' → front' = front ∧ last' = last) ∧
      s.replace old new = linked new front last ∧
      Edit.Runs old new ⟨s, 0⟩
        ((List.range (front.length + 1)).map fun n =>
          Edit.between (linked new (front.take n) []) (linked old (front.drop n) last))
        (s.replace old new) ∧
      ∀ n, linked old (front.drop n) last <:+ s := by
  obtain ⟨front, last, hcut, hreplace⟩ := (replaces_replace hold new s).exists_leftmostCut hold
  refine ⟨front, last, hcut, fun _ _ h' => hcut.unique h', hreplace.symm, ?_, ?_⟩
  · have hruns := Edit.runs_between hcut.only_at_end hcut.absent new []
    rw [hcut.linked_eq, List.nil_append, hreplace] at hruns
    exact hruns
  · intro n
    have hsuffix := linked_drop_suffix old front last n
    rwa [hcut.linked_eq] at hsuffix

/-- The new text holds the old one, twice and across its ends; it is not replaced again. -/
theorem exists_leftmostCut_replace_overlapping :
    "aa".toList ≠ [] ∧
    ∃ front last, LeftmostCut "aa".toList "baaaaab".toList front last ∧
      linked "aaxa".toList front last = "baaxaaaxaab".toList := by
  have hne : "aa".toList ≠ [] := by decide
  obtain ⟨front, last, hcut, -, hreplace, -⟩ :=
    exists_leftmostCut_replace hne "aaxa".toList "baaaaab".toList
  refine ⟨hne, front, last, hcut, ?_⟩
  rw [← hreplace]
  decide

end TypeSignature.Text
