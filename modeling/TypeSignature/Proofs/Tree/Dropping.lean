import TypeSignature.Proofs.Tree.Canonical
import TypeSignature.Proofs.Tree.Ink

/-!
# Dropping — a removed node takes ink with it

Removing nodes from a tree either finds nothing to remove or makes what is written of the tree
shorter, white space apart.  A row of siblings is measured with one separator for each sibling, so
that removing one costs at least that; the row's brackets take the place of the last one.
-/

namespace TypeSignature.Tree

open Text

/-- The length of the ink of a row of siblings, with a separator behind each of them. -/
def rowWeight (b : Brackets) : List Tree → Nat
  | [] => 0
  | t :: ts => (ink b t).length + 1 + rowWeight b ts

variable {b : Brackets} {keep : Tree → Bool}

theorem length_inkRow (b : Brackets) (t : Tree) (ts : List Tree) :
    (inkRow b (t :: ts)).length + 1 = rowWeight b (t :: ts) := by
  have hfurther : (inkFurther b ts).length = rowWeight b ts := by
    induction ts with
    | nil => rfl
    | cons u ts ih =>
      rw [inkFurther, rowWeight, ← ih]
      simp only [List.length_append, List.length_cons]
  rw [inkRow, rowWeight, List.length_append, hfurther]
  omega

theorem length_ink (b : Brackets) (left right : Text) (ts : List Tree) :
    (ink b ⟨left, ts, right⟩).length = left.nonblank.length + right.nonblank.length +
      if ts.isEmpty then 0 else rowWeight b ts + 1 := by
  cases ts with
  | nil =>
    rw [ink_leaf, List.length_append]
    rfl
  | cons t ts =>
    rw [ink_group b left right (List.cons_ne_nil t ts), List.isEmpty_cons, if_neg (by simp),
      ← length_inkRow]
    simp only [List.length_append, List.length_cons, List.length_nil]
    omega

mutual

theorem filter_of_kept : ∀ {t : Tree}, (∀ u ∈ t.descendants, keep u = true) → t.filter keep = t
  | ⟨left, children, right⟩, h => by rw [filter, filterIn_of_kept h]

theorem filterIn_of_kept : ∀ {ts : List Tree}, (∀ u ∈ preorderIn ts, keep u = true) →
    filterIn keep ts = ts
  | [], _ => rfl
  | t :: ts, h => by
    rw [preorderIn, preorder_eq, List.cons_append, List.forall_mem_cons,
      List.forall_mem_append] at h
    rw [filterIn, if_pos h.1, filter_of_kept h.2.1, filterIn_of_kept h.2.2]

end

mutual

/-- What is left below a filtered tree was kept, and filtered itself. -/
theorem exists_of_mem_descendants_filter : ∀ {t u : Tree}, u ∈ (t.filter keep).descendants →
    ∃ v ∈ t.descendants, keep v = true ∧ v.filter keep = u
  | ⟨_, _, _⟩, _, hu => exists_of_mem_preorderIn_filterIn hu

theorem exists_of_mem_preorderIn_filterIn : ∀ {ts : List Tree} {u : Tree},
    u ∈ preorderIn (filterIn keep ts) → ∃ v ∈ preorderIn ts, keep v = true ∧ v.filter keep = u
  | t :: ts, u, hu => by
    have hin : ∀ v ∈ preorderIn ts, v ∈ preorderIn (t :: ts) := fun v hv =>
      List.mem_append_right _ hv
    have hbelow : ∀ v ∈ t.descendants, v ∈ preorderIn (t :: ts) := by
      intro v hv
      rw [preorderIn, preorder_eq]
      exact List.mem_append_left _ (List.mem_cons_of_mem _ hv)
    rw [filterIn] at hu
    by_cases ht : keep t = true
    · rw [if_pos ht, preorderIn, preorder_eq, List.mem_append, List.mem_cons] at hu
      rcases hu with (rfl | hu) | hu
      · refine ⟨t, ?_, ht, rfl⟩
        rw [preorderIn, preorder_eq]
        exact List.mem_append_left _ List.mem_cons_self
      · obtain ⟨v, hv, hkept⟩ := exists_of_mem_descendants_filter hu
        exact ⟨v, hbelow v hv, hkept⟩
      · obtain ⟨v, hv, hkept⟩ := exists_of_mem_preorderIn_filterIn hu
        exact ⟨v, hin v hv, hkept⟩
    · rw [if_neg ht] at hu
      obtain ⟨v, hv, hkept⟩ := exists_of_mem_preorderIn_filterIn hu
      exact ⟨v, hin v hv, hkept⟩

end

section

variable {keep' : Tree → Bool}

mutual

theorem filter_mapText {f : Text → Text} (h : ∀ u, keep (u.mapText f) = keep' u) : ∀ t : Tree,
    (t.mapText f).filter keep = (t.filter keep').mapText f
  | ⟨left, children, right⟩ => by
    rw [mapText, filter, filterIn_mapTextIn h children]
    rfl

theorem filterIn_mapTextIn {f : Text → Text} (h : ∀ u, keep (u.mapText f) = keep' u) :
    ∀ ts : List Tree, filterIn keep (mapTextIn f ts) = mapTextIn f (filterIn keep' ts)
  | [] => rfl
  | t :: ts => by
    rw [mapTextIn, filterIn, filterIn, h, filterIn_mapTextIn h ts, filter_mapText h t]
    by_cases ht : keep' t = true
    · rw [if_pos ht, if_pos ht]
      rfl
    · rw [if_neg ht, if_neg ht]

end

mutual

/-- Where a test does not see that nodes were removed, removing by it is part of one removal. -/
theorem filter_filter_and (hsame : ∀ u, keep' (u.filter keep) = keep' u) : ∀ t : Tree,
    (t.filter keep).filter keep' = t.filter fun u => keep u && keep' u
  | ⟨left, children, right⟩ => by
    rw [filter, filter, filter, filterIn_filterIn_and hsame children]

theorem filterIn_filterIn_and (hsame : ∀ u, keep' (u.filter keep) = keep' u) : ∀ ts : List Tree,
    filterIn keep' (filterIn keep ts) = filterIn (fun u => keep u && keep' u) ts
  | [] => rfl
  | t :: ts => by
    have hnode := filter_filter_and hsame t
    have hrow := filterIn_filterIn_and hsame ts
    rw [filterIn, filterIn]
    by_cases ht : keep t = true
    · rw [if_pos ht, filterIn, hsame, hnode, hrow, ht, Bool.true_and]
    · rw [if_neg ht, if_neg (by simp [ht]), hrow]

end

/-- A stricter test does not see that nodes were removed before. -/
theorem filter_filter (hsub : ∀ u, keep' u = true → keep u = true)
    (hsame : ∀ u, keep' (u.filter keep) = keep' u) (t : Tree) :
    (t.filter keep).filter keep' = t.filter keep' := by
  have htest : (fun u => keep u && keep' u) = keep' := by
    funext u
    cases hu : keep' u with
    | false => rw [Bool.and_false]
    | true => rw [hsub u hu, Bool.and_true]
  rw [filter_filter_and hsame, htest]

end

mutual

theorem kept_or_ink_lt (b : Brackets) (keep : Tree → Bool) : ∀ t : Tree,
    (∀ u ∈ t.descendants, keep u = true) ∨ (ink b (t.filter keep)).length < (ink b t).length
  | ⟨left, children, right⟩ => by
    rcases kept_or_rowWeight_lt b keep children with hkept | hlt
    · exact .inl hkept
    · right
      have hchildren : children.isEmpty = false := by
        cases children with
        | nil => simp [rowWeight, filterIn] at hlt
        | cons => rfl
      have hall := length_ink b left right children
      rw [hchildren, if_neg (by simp)] at hall
      rw [filter, length_ink, hall]
      split <;> omega

theorem kept_or_rowWeight_lt (b : Brackets) (keep : Tree → Bool) : ∀ ts : List Tree,
    (∀ u ∈ preorderIn ts, keep u = true) ∨ rowWeight b (filterIn keep ts) < rowWeight b ts
  | [] => .inl (by simp [preorderIn])
  | t :: ts => by
    have hnode := kept_or_ink_lt b keep t
    have hrow := kept_or_rowWeight_lt b keep ts
    have hnodeLe : (ink b (t.filter keep)).length ≤ (ink b t).length :=
      hnode.elim (fun h => by rw [filter_of_kept h]) Nat.le_of_lt
    have hrowLe : rowWeight b (filterIn keep ts) ≤ rowWeight b ts :=
      hrow.elim (fun h => by rw [filterIn_of_kept h]) Nat.le_of_lt
    cases hkeep : keep t with
    | false =>
      right
      rw [filterIn, hkeep, if_neg (by simp), rowWeight]
      omega
    | true =>
      rw [filterIn, hkeep, if_pos rfl, rowWeight, rowWeight]
      -- something is removed below the node, or among its siblings, or nowhere
      rcases hnode with hbelow | hlt
      · rcases hrow with hsiblings | hlt
        · left
          rw [preorderIn, preorder_eq, List.cons_append, List.forall_mem_cons,
            List.forall_mem_append]
          exact ⟨hkeep, hbelow, hsiblings⟩
        · right
          omega
      · right
        omega

end

/-- The weight has one separator more than the ink, unless nothing is left of the row. -/
theorem length_inkRow_lt {ts us : List Tree} (hlt : rowWeight b us < rowWeight b ts)
    (hne : us ≠ []) : (inkRow b us).length < (inkRow b ts).length := by
  obtain ⟨u, us, rfl⟩ := List.exists_cons_of_ne_nil hne
  cases ts with
  | nil => simp [rowWeight] at hlt
  | cons t ts =>
    have hrow := length_inkRow b t ts
    have hleft := length_inkRow b u us
    omega

/-- In a list, what is removed must have ink of its own, since the last item has no separator. -/
theorem kept_or_inkRow_lt (hkeep : ∀ t, keep t = false → ink b t ≠ []) (ts : List Tree) :
    (∀ u ∈ preorderIn ts, keep u = true) ∨
      (inkRow b (filterIn keep ts)).length < (inkRow b ts).length := by
  rcases kept_or_rowWeight_lt b keep ts with hkept | hlt
  · exact .inl hkept
  · right
    by_cases hrest : filterIn keep ts = []
    · cases ts with
      | nil => simp [rowWeight, filterIn] at hlt
      | cons t ts =>
        -- the first item is removed with its ink
        have hremoved : keep t = false := by
          cases ht : keep t with
          | false => rfl
          | true => simp [filterIn, ht] at hrest
        have hink := List.length_pos_iff.mpr (hkeep t hremoved)
        rw [hrest, inkRow, inkRow, List.length_append, List.length_nil]
        omega
    · exact length_inkRow_lt hlt hrest

/-- When ink is all that counts, removing nodes makes a difference unless there was no ink. -/
theorem inkRow_filterIn_eq_iff (b : Brackets) (keep : Tree → Bool) (ts : List Tree) :
    inkRow b (filterIn keep ts) = inkRow b ts ↔
      inkRow b ts = [] ∨ ∀ u ∈ preorderIn ts, keep u = true := by
  rcases kept_or_rowWeight_lt b keep ts with hkept | hlt
  · rw [filterIn_of_kept hkept]
    exact iff_of_true rfl (.inr hkept)
  · have hkept : ¬ ∀ u ∈ preorderIn ts, keep u = true := by
      intro hkept
      rw [filterIn_of_kept hkept] at hlt
      exact Nat.lt_irrefl _ hlt
    by_cases hrest : filterIn keep ts = []
    · rw [hrest]
      constructor
      · exact fun hnil => .inl hnil.symm
      · rintro (hnil | hall)
        · exact hnil.symm
        · exact absurd hall hkept
    · have hink := length_inkRow_lt hlt hrest
      constructor
      · intro hsame
        rw [hsame] at hink
        exact absurd hink (Nat.lt_irrefl _)
      · rintro (hnil | hall)
        · rw [hnil] at hink
          exact absurd hink (Nat.not_lt_zero _)
        · exact absurd hall hkept

mutual

theorem preorder_mapText (f : Text → Text) : ∀ t : Tree,
    (t.mapText f).preorder = t.preorder.map (mapText f)
  | ⟨left, children, right⟩ => by
    rw [mapText, preorder, preorder, preorderIn_mapTextIn f children, List.map_cons, mapText]

theorem preorderIn_mapTextIn (f : Text → Text) : ∀ ts : List Tree,
    preorderIn (mapTextIn f ts) = (preorderIn ts).map (mapText f)
  | [] => rfl
  | t :: ts => by
    rw [mapTextIn, preorderIn, preorderIn, preorder_mapText f t, preorderIn_mapTextIn f ts,
      List.map_append]

end

end TypeSignature.Tree
