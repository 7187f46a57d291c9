import Mathlib.Data.List.DropRight
import TypeSignature.Text.Trim

/-!
# Trimming — what is cut off the ends does not count

A text is what trimming leaves of it, between a head and a tail that were cut off.  Whoever trims
by a weaker test afterwards does not see that a stricter one was used before.
-/

namespace TypeSignature.Text

variable {p q : Char → Bool}

/-- The tail that `dropEndWhile` cuts off. -/
theorem dropEndWhile_append_tail (p : Char → Bool) (s : Text) :
    dropEndWhile p s ++ s.rtakeWhile p = s :=
  List.rdropWhile_append_rtakeWhile ..

theorem dropEndWhile_append_of_all {s t : Text} (h : ∀ c ∈ t, p c = true) :
    dropEndWhile p (s ++ t) = dropEndWhile p s := by
  have hreverse : ∀ c ∈ t.reverse, p c = true := fun c hc => h c (List.mem_reverse.mp hc)
  rw [dropEndWhile, List.reverse_append, List.dropWhile_append_of_pos hreverse, dropEndWhile]

theorem dropEndWhile_append (p : Char → Bool) (s t : Text) : dropEndWhile p (s ++ t)
    = if (dropEndWhile p t).isEmpty then dropEndWhile p s else s ++ dropEndWhile p t := by
  rw [dropEndWhile, List.reverse_append, List.dropWhile_append, dropEndWhile, dropEndWhile]
  simp only [List.isEmpty_reverse]
  split
  · rfl
  · rw [List.reverse_append, List.reverse_reverse]

theorem mem_of_mem_dropEndWhile {s : Text} {c : Char} (h : c ∈ dropEndWhile p s) : c ∈ s := by
  rw [← dropEndWhile_append_tail p s]
  exact List.mem_append_left _ h

theorem dropWhile_dropWhile_of_imp (h : ∀ c, p c = true → q c = true) (s : Text) :
    (s.dropWhile p).dropWhile q = s.dropWhile q := by
  have hhead : ∀ c ∈ s.takeWhile p, q c = true := fun c hc => h c (List.mem_takeWhile_imp hc)
  have happend : (s.takeWhile p ++ s.dropWhile p).dropWhile q = (s.dropWhile p).dropWhile q :=
    List.dropWhile_append_of_pos hhead
  rw [← happend, List.takeWhile_append_dropWhile]

/-- What is cut off the front is the same for texts that agree there. -/
theorem dropWhile_append_congr {s s' : Text} (h : s.dropWhile p = s'.dropWhile p) (t : Text) :
    (s ++ t).dropWhile p = (s' ++ t).dropWhile p := by
  rw [List.dropWhile_append, List.dropWhile_append, h]

theorem trimWhere_dropWhile (p : Char → Bool) (s : Text) :
    trimWhere p (s.dropWhile p) = trimWhere p s := by
  rw [trimWhere, trimWhere, dropWhile_dropWhile_of_imp fun _ h => h]

theorem trimWhere_append_of_all {s t : Text} (h : ∀ c ∈ t, p c = true) :
    trimWhere p (s ++ t) = trimWhere p s := by
  rw [trimWhere, trimWhere, List.dropWhile_append]
  split
  · -- nothing of `s` is left, and nothing of `t` either
    rename_i hs
    rw [List.isEmpty_iff] at hs
    rw [hs, List.dropWhile_eq_nil_iff.mpr h]
  · exact dropEndWhile_append_of_all h

theorem trimWhere_of_all_append {s t : Text} (h : ∀ c ∈ s, p c = true) :
    trimWhere p (s ++ t) = trimWhere p t := by
  rw [trimWhere, List.dropWhile_append_of_pos h, trimWhere]

theorem isBlank_of_eq_space {c : Char} (h : (c == ' ') = true) : isBlank c = true := by
  rw [eq_of_beq h]
  exact isBlank_space

theorem isBlank_of_mem_space : ∀ c ∈ [' '], isBlank c = true :=
  List.forall_mem_singleton.mpr isBlank_space

/-- What trimming cuts off both ends. -/
theorem exists_trimWhere (p : Char → Bool) (s : Text) : ∃ head tail : Text,
    (∀ c ∈ head, p c = true) ∧ (∀ c ∈ tail, p c = true) ∧ s = head ++ (trimWhere p s ++ tail) := by
  refine ⟨s.takeWhile p, (s.dropWhile p).rtakeWhile p, fun c hc => List.mem_takeWhile_imp hc,
    fun c hc => List.mem_rtakeWhile_imp hc, ?_⟩
  rw [trimWhere, dropEndWhile_append_tail, List.takeWhile_append_dropWhile]

theorem dropWhile_congr {s : Text} (h : ∀ c ∈ s, p c = q c) : s.dropWhile p = s.dropWhile q := by
  induction s with
  | nil => rfl
  | cons c s ih =>
    obtain ⟨hc, hs⟩ := List.forall_mem_cons.mp h
    rw [List.dropWhile_cons, List.dropWhile_cons, hc, ih hs]

theorem trimWhere_congr {s : Text} (h : ∀ c ∈ s, p c = q c) : trimWhere p s = trimWhere q s := by
  have hback : ∀ c ∈ (s.dropWhile q).reverse, p c = q c := by
    intro c hc
    exact h c ((List.dropWhile_suffix q).subset (List.mem_reverse.mp hc))
  rw [trimWhere, trimWhere, dropWhile_congr h, dropEndWhile, dropEndWhile, dropWhile_congr hback]

theorem trimWhere_eq_self {s : Text} (hhead : ∀ c ∈ s.head?, p c = false)
    (hlast : ∀ c ∈ s.getLast?, p c = false) : trimWhere p s = s := by
  have hfront : s.dropWhile p = s := by
    cases s with
    | nil => rfl
    | cons c s => rw [List.dropWhile_cons_of_neg (by simpa using hhead c rfl)]
  have hback : dropEndWhile p s = s := by
    rcases List.eq_nil_or_concat s with rfl | ⟨s, c, rfl⟩
    · rfl
    · rw [List.concat_eq_append]
      refine List.rdropWhile_concat_neg _ _ _ ?_
      simpa using hlast c (by rw [List.concat_eq_append, List.getLast?_concat]; rfl)
  rw [trimWhere, hfront, hback]

theorem getLast_trimWhere (p : Char → Bool) (s : Text) :
    ∀ c ∈ (trimWhere p s).getLast?, p c = false := by
  intro c hc
  have hne : trimWhere p s ≠ [] := by
    intro hnil
    rw [hnil] at hc
    simp at hc
  rw [List.getLast?_eq_some_getLast hne] at hc
  have hkept := List.rdropWhile_last_not p (s.dropWhile p) hne
  rw [← Option.some.inj hc]
  exact Bool.eq_false_iff.mpr hkept

theorem head_trimWhere (p : Char → Bool) (s : Text) :
    ∀ c ∈ (trimWhere p s).head?, p c = false := by
  have hfront := List.head?_dropWhile_not p s
  -- nothing is cut off at the end, unless nothing else is left
  have hsplit := dropEndWhile_append_tail p (s.dropWhile p)
  intro c hc
  have hhead : (s.dropWhile p).head? = some c := by
    rw [← hsplit, List.head?_append]
    exact congrArg (Option.or · _) (Option.mem_def.mp hc)
  rw [hhead] at hfront
  simpa using hfront

theorem exists_trimSpaces (s : Text) : ∃ head tail : Text, (∀ c ∈ head, isBlank c = true) ∧
    (∀ c ∈ tail, isBlank c = true) ∧ s = head ++ (trimSpaces s ++ tail) := by
  obtain ⟨head, tail, hhead, htail, hs⟩ := exists_trimWhere (· == ' ') s
  exact ⟨head, tail, fun c hc => isBlank_of_eq_space (hhead c hc),
    fun c hc => isBlank_of_eq_space (htail c hc), hs⟩

theorem trimBlanks_trimBlanks (s : Text) : trimBlanks (trimBlanks s) = trimBlanks s :=
  trimWhere_eq_self (head_trimWhere isBlank s) (getLast_trimWhere isBlank s)

theorem trimBlanks_of_visible {s : Text} (h : ∀ c ∈ s, isBlank c = false) : trimBlanks s = s :=
  trimWhere_eq_self (fun c hc => h c (List.mem_of_mem_head? hc))
    fun c hc => h c (List.mem_of_mem_getLast? hc)

theorem trimBlanks_trimSpaces (s : Text) : trimBlanks (trimSpaces s) = trimBlanks s := by
  obtain ⟨head, tail, hhead, htail, hs⟩ := exists_trimSpaces s
  calc trimBlanks (trimSpaces s)
      = trimBlanks (trimSpaces s ++ tail) := (trimWhere_append_of_all htail).symm
    _ = trimBlanks (head ++ (trimSpaces s ++ tail)) := (trimWhere_of_all_append hhead).symm
    _ = trimBlanks s := by rw [← hs]

theorem mem_of_mem_trimSpaces {s : Text} {c : Char} (h : c ∈ trimSpaces s) : c ∈ s := by
  obtain ⟨head, tail, -, -, hs⟩ := exists_trimSpaces s
  rw [hs]
  exact List.mem_append_right _ (List.mem_append_left _ h)

/-! ## 1. White space in front, spaces behind -/

/-- The text without the white space in front of it and the spaces behind it. -/
def clip (s : Text) : Text := dropEndWhile (· == ' ') (s.dropWhile isBlank)

theorem clip_dropWhile (s : Text) : clip (s.dropWhile isBlank) = clip s := by
  rw [clip, dropWhile_dropWhile_of_imp fun _ h => h, clip]

theorem clip_append_spaces (s : Text) {spaces : Text} (h : ∀ c ∈ spaces, (c == ' ') = true) :
    clip (s ++ spaces) = clip s := by
  rw [clip, clip, List.dropWhile_append]
  split
  · -- nothing of `s` is left, and nothing of the spaces either
    rename_i hs
    rw [List.isEmpty_iff] at hs
    rw [hs, List.dropWhile_eq_nil_iff.mpr fun c hc => isBlank_of_eq_space (h c hc)]
  · exact dropEndWhile_append_of_all h

/-- Clipping goes on where trimming spaces stops in front. -/
theorem exists_trimSpaces_eq_append_clip (s : Text) :
    ∃ blanks : Text, (∀ c ∈ blanks, isBlank c = true) ∧ trimSpaces s = blanks ++ clip s := by
  have hfront : (s.dropWhile (· == ' ')).dropWhile isBlank = s.dropWhile isBlank :=
    dropWhile_dropWhile_of_imp (fun _ => isBlank_of_eq_space) s
  have hblanks : ∀ c ∈ (s.dropWhile (· == ' ')).takeWhile isBlank, isBlank c = true :=
    fun c hc => List.mem_takeWhile_imp hc
  -- behind the spaces that are trimmed stands the rest of the white space
  have hs : trimSpaces s = dropEndWhile (· == ' ')
      ((s.dropWhile (· == ' ')).takeWhile isBlank ++ s.dropWhile isBlank) := by
    rw [← hfront, List.takeWhile_append_dropWhile]
    rfl
  rw [hs, dropEndWhile_append]
  split
  · rename_i hclip
    refine ⟨dropEndWhile (· == ' ') _, fun c hc => hblanks c (mem_of_mem_dropEndWhile hc), ?_⟩
    rw [clip, List.isEmpty_iff.mp hclip, List.append_nil]
  · exact ⟨_, hblanks, rfl⟩

theorem trimBlanks_clip (s : Text) : trimBlanks (clip s) = trimBlanks s := by
  have htail : ∀ c ∈ (s.dropWhile isBlank).rtakeWhile (· == ' '), isBlank c = true :=
    fun c hc => isBlank_of_eq_space (List.mem_rtakeWhile_imp (p := (· == ' ')) hc)
  calc trimBlanks (clip s)
      = trimBlanks (clip s ++ (s.dropWhile isBlank).rtakeWhile (· == ' ')) :=
        (trimWhere_append_of_all htail).symm
    _ = trimBlanks (s.dropWhile isBlank) := congrArg trimBlanks (dropEndWhile_append_tail _ _)
    _ = trimBlanks s := trimWhere_dropWhile isBlank s

end TypeSignature.Text
