import TypeSignature.Proofs.Text.Nonblank
import TypeSignature.Text.Replace

/-!
# Replacing — what a substitution does to a text

A substitution keeps characters and swaps occurrences, one after the other.  When what is written is
shorter than what it stands for, white space apart, a substitution that finds an occurrence makes
the text shorter for good; so a text that comes back from a row of substitutions as long as it was
had nothing to substitute.
-/

namespace TypeSignature.Text

/-- The second text is the first with `new` for each occurrence of `old`, leftmost first. -/
inductive Replaces (old new : Text) : Text → Text → Prop
  | nil : Replaces old new [] []
  | keep {c : Char} {s t : Text} (hkeep : ¬ old <+: c :: s) (h : Replaces old new s t) :
      Replaces old new (c :: s) (c :: t)
  | swap {s t : Text} (h : Replaces old new s t) : Replaces old new (old ++ s) (new ++ t)

theorem replaces_replace {old : Text} (hold : old ≠ []) (new s : Text) :
    Replaces old new s (s.replace old new) := by
  have hreplace : s.replace old new = replaceFrom old new 0 s := by
    rw [replace, if_neg (by simp [hold])]
  rw [hreplace]
  -- behind an occurrence the text is shorter by all of `old`
  induction hn : s.length using Nat.strong_induction_on generalizing s with
  | h n ih =>
    cases s with
    | nil => exact .nil
    | cons c s =>
      by_cases hpre : old <+: c :: s
      · obtain ⟨rest, hrest⟩ := hpre
        obtain ⟨d, tail, rfl⟩ := List.exists_cons_of_ne_nil hold
        have hprefix : (d :: tail).isPrefixOf (c :: s) = true :=
          List.isPrefixOf_iff_prefix.mpr ⟨rest, hrest⟩
        have hdrop : s.drop tail.length = rest := by
          rw [List.cons_append, List.cons.injEq] at hrest
          rw [← hrest.2, List.drop_left]
        have hlength : rest.length < n := by
          have := congrArg List.length hrest
          rw [List.length_append, List.length_cons] at this
          omega
        have hrec := ih rest.length hlength rest (by rw [replace, if_neg (by simp)]) rfl
        rw [replaceFrom, if_pos hprefix, replaceFrom_skip, List.length_cons, Nat.add_sub_cancel,
          hdrop, ← hrest]
        exact .swap hrec
      · have hlength : s.length < n := by
          rw [List.length_cons] at hn
          omega
        have hrec := ih s.length hlength s (by rw [replace, if_neg (by simp [hold])]) rfl
        rw [replaceFrom, if_neg (by rwa [List.isPrefixOf_iff_prefix])]
        exact .keep hpre hrec

variable {old new s t : Text}

theorem Replaces.eq_of_absent (h : Replaces old new s t) (hnone : ¬ old <:+: s) : t = s := by
  induction h with
  | nil => rfl
  | keep hkeep h ih => rw [ih fun hin => hnone (hin.trans (List.infix_cons (List.infix_refl _)))]
  | swap h ih => exact absurd (List.prefix_append _ _).isInfix hnone

theorem Replaces.mem (h : Replaces old new s t) {c : Char} (hc : c ∈ t) : c ∈ s ∨ c ∈ new := by
  induction h with
  | nil => exact .inl hc
  | keep hkeep h ih =>
    rcases List.mem_cons.mp hc with rfl | hc
    · exact .inl List.mem_cons_self
    · exact (ih hc).imp_left (List.mem_cons_of_mem _)
  | swap h ih =>
    rcases List.mem_append.mp hc with hc | hc
    · exact .inr hc
    · exact (ih hc).imp_left (List.mem_append_right _)

/-- A substitution by less ink finds nothing or leaves less ink. -/
theorem Replaces.absent_or_lt (hless : (nonblank new).length < (nonblank old).length)
    (h : Replaces old new s t) :
    ¬ old <:+: s ∧ t = s ∨ (nonblank t).length < (nonblank s).length := by
  have hold : old ≠ [] := by
    rintro rfl
    simp at hless
  induction h with
  | nil => exact .inl ⟨by simpa using hold, rfl⟩
  | @keep c s t hkeep h ih =>
    have hlength : ∀ s : Text, (nonblank (c :: s)).length
        = (nonblank [c]).length + (nonblank s).length := by
      intro s
      rw [nonblank_cons, List.length_append]
    rcases ih with ⟨hnone, rfl⟩ | hlt
    · exact .inl ⟨fun hin => (List.infix_cons_iff.mp hin).elim hkeep hnone, rfl⟩
    · right
      rw [hlength s, hlength t]
      omega
  | @swap s t h ih =>
    right
    rw [nonblank_append, nonblank_append, List.length_append, List.length_append]
    rcases ih with ⟨-, rfl⟩ | hlt <;> omega

/-! ## 1. Rows of substitutions -/

/-- Makes substitutions one after the other. -/
def substitute (entries : List (Text × Text)) (s : Text) : Text :=
  entries.foldl (fun s e => s.replace e.1 e.2) s

/-- What each substitution keeps, all of them keep. -/
theorem substitute_induction {motive : Text → Prop} {entries : List (Text × Text)}
    (step : ∀ e ∈ entries, ∀ s, motive s → motive (s.replace e.1 e.2)) {s : Text} (h : motive s) :
    motive (substitute entries s) := by
  induction entries generalizing s with
  | nil => exact h
  | cons e entries ih =>
    obtain ⟨he, hentries⟩ := List.forall_mem_cons.mp step
    exact ih hentries (he s h)

theorem replace_of_absent (h : ¬ old <:+: s) (new : Text) : s.replace old new = s := by
  cases old with
  | nil => exact replace_empty s new
  | cons c old => exact (replaces_replace (List.cons_ne_nil c old) new s).eq_of_absent h

theorem mem_of_mem_replace {c : Char} (hc : c ∈ s.replace old new) : c ∈ s ∨ c ∈ new := by
  by_cases hold : old = []
  · rw [hold, replace_empty] at hc
    exact .inl hc
  · exact (replaces_replace hold new s).mem hc

theorem substitute_of_absent {entries : List (Text × Text)} {s : Text}
    (h : ∀ e ∈ entries, ¬ e.1 <:+: s) : substitute entries s = s := by
  induction entries with
  | nil => rfl
  | cons e entries ih =>
    obtain ⟨he, hentries⟩ := List.forall_mem_cons.mp h
    show substitute entries (s.replace e.1 e.2) = s
    rw [replace_of_absent he, ih hentries]

/-- Substitutions by less ink find nothing at all or leave less ink. -/
theorem absent_or_substitute_lt {entries : List (Text × Text)}
    (hless : ∀ e ∈ entries, (nonblank e.2).length < (nonblank e.1).length) (s : Text) :
    (∀ e ∈ entries, ¬ e.1 <:+: s) ∧ substitute entries s = s ∨
      (nonblank (substitute entries s)).length < (nonblank s).length := by
  induction entries generalizing s with
  | nil => exact .inl ⟨by simp, rfl⟩
  | cons e entries ih =>
    obtain ⟨he, hentries⟩ := List.forall_mem_cons.mp hless
    have hold : e.1 ≠ [] := by
      intro hnil
      simp [hnil] at he
    have hrest := ih hentries (s.replace e.1 e.2)
    show (∀ e ∈ _, _) ∧ substitute entries (s.replace e.1 e.2) = s ∨
      (nonblank (substitute entries (s.replace e.1 e.2))).length < _
    -- the first substitution finds nothing and leaves the text to the others, or makes it shorter
    rcases (replaces_replace hold e.2 s).absent_or_lt he with ⟨hnone, hsame⟩ | hlt
    · rw [hsame] at hrest ⊢
      exact hrest.imp_left fun h => ⟨List.forall_mem_cons.mpr ⟨hnone, h.1⟩, h.2⟩
    · right
      rcases hrest with ⟨-, hsame⟩ | hlt'
      · rwa [hsame]
      · exact Nat.lt_trans hlt' hlt

end TypeSignature.Text
