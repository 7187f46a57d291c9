import TypeSignature.Proofs.Tree.Addresses

/-!
# Filtering — which nodes are left, and where

A node is left in a filtered tree when it and all nodes above it, the root apart, were kept as they
stood in the tree that was given.  Its index among its siblings is then the number of kept siblings
before it, and so its new address is known: `place?` sends the nodes that are left to the nodes of
the filtered tree, one to one, and keeps texts, parents and the order of siblings.
-/

namespace TypeSignature.Tree

/-- Where the node at an address stands once refused nodes are removed, if it is left. -/
def place? (keep : Tree → Bool) : Tree → List Nat → Option (List Nat)
  | _, [] => some []
  | t, i :: path =>
    t.children[i]?.bind fun child =>
      if keep child then
        (child.place? keep path).map fun rest => (t.children.take i).countP keep :: rest
      else none

/-- `pruned` holds the nodes of `t` that `keep` leaves and nothing else, each where `place?` says. -/
structure ExactPruning (keep : Tree → Bool) (t pruned : Tree)
    (place? : List Nat → Option (List Nat)) : Prop where
  root : place? [] = some []
  left_iff : ∀ path u, t.nodeAt? path = some u → ((∃ path', place? path = some path') ↔
    ∀ before v, before ≠ [] → before <+: path → t.nodeAt? before = some v → keep v = true)
  texts : ∀ path path', place? path = some path' → ∃ u v, t.nodeAt? path = some u ∧
    pruned.nodeAt? path' = some v ∧ v.left = u.left ∧ v.right = u.right
  parent : ∀ path i path', place? (path ++ [i]) = some path' →
    ∃ above j, place? path = some above ∧ path' = above ++ [j]
  order : ∀ path i i' above j j', place? (path ++ [i]) = some (above ++ [j]) →
    place? (path ++ [i']) = some (above ++ [j']) → i < i' → j < j'
  injective : ∀ path₁ path₂ path', place? path₁ = some path' → place? path₂ = some path' →
    path₁ = path₂
  nothing_else : ∀ path' v, pruned.nodeAt? path' = some v → ∃ path, place? path = some path'

/-! ## 1. The kept members of a row -/

section

variable {α : Type} {p : α → Bool} {as : List α} {a a' : α} {i i' k : Nat}

theorem getElem?_filter_countP (h : as[i]? = some a) (ha : p a = true) :
    (as.filter p)[(as.take i).countP p]? = some a := by
  induction as generalizing i with
  | nil => cases h
  | cons b as ih =>
    cases i with
    | zero =>
      cases h
      rw [List.filter_cons_of_pos ha]
      rfl
    | succ i =>
      have hrest := ih h
      rw [List.take_succ_cons, List.countP_cons]
      by_cases hb : p b = true
      · rw [List.filter_cons_of_pos hb, if_pos hb, List.getElem?_cons_succ]
        exact hrest
      · rw [List.filter_cons_of_neg hb, if_neg hb]
        exact hrest

theorem exists_getElem?_of_filter (h : (as.filter p)[k]? = some a) :
    ∃ i, as[i]? = some a ∧ p a = true ∧ (as.take i).countP p = k := by
  induction as generalizing k with
  | nil => cases h
  | cons b as ih =>
    by_cases hb : p b = true
    · rw [List.filter_cons_of_pos hb] at h
      cases k with
      | zero =>
        cases h
        exact ⟨0, rfl, hb, rfl⟩
      | succ k =>
        obtain ⟨i, hi, ha, hcount⟩ := ih h
        refine ⟨i + 1, hi, ha, ?_⟩
        rw [List.take_succ_cons, List.countP_cons, if_pos hb, hcount]
    · rw [List.filter_cons_of_neg hb] at h
      obtain ⟨i, hi, ha, hcount⟩ := ih h
      refine ⟨i + 1, hi, ha, ?_⟩
      rw [List.take_succ_cons, List.countP_cons, if_neg hb, hcount, Nat.add_zero]

theorem countP_take_lt (h : as[i]? = some a) (ha : p a = true) (hlt : i < i') :
    (as.take i).countP p < (as.take i').countP p := by
  induction as generalizing i i' with
  | nil => cases h
  | cons b as ih =>
    obtain ⟨i', rfl⟩ := Nat.exists_eq_add_of_lt hlt
    cases i with
    | zero =>
      cases h
      rw [List.take_zero, List.take_succ_cons, List.countP_nil, List.countP_cons, if_pos ha]
      omega
    | succ i =>
      have hlt' : i < i + i' + 1 := by omega
      have hrest := ih h hlt'
      have hindex : i + 1 + i' = i + i' + 1 := by omega
      rw [hindex, List.take_succ_cons, List.take_succ_cons, List.countP_cons, List.countP_cons]
      omega

theorem eq_of_countP_take_eq (h : as[i]? = some a) (ha : p a = true) (h' : as[i']? = some a')
    (ha' : p a' = true) (hcount : (as.take i).countP p = (as.take i').countP p) : i = i' := by
  rcases Nat.lt_trichotomy i i' with hlt | heq | hlt
  · have := countP_take_lt h ha hlt
    omega
  · exact heq
  · have := countP_take_lt h' ha' hlt
    omega

end

/-! ## 2. The place of a node -/

variable {keep : Tree → Bool} {t u : Tree} {i i' : Nat} {path path' : List Nat}

theorem place?_nil (keep : Tree → Bool) (t : Tree) : t.place? keep [] = some [] := by
  cases t
  rfl

theorem place?_cons_eq_some_iff : t.place? keep (i :: path) = some path' ↔
    ∃ child rest, t.children[i]? = some child ∧ keep child = true ∧
      child.place? keep path = some rest ∧ (t.children.take i).countP keep :: rest = path' := by
  rw [place?, Option.bind_eq_some_iff]
  constructor
  · rintro ⟨child, hchild, h⟩
    by_cases hkeep : keep child = true
    · rw [if_pos hkeep, Option.map_eq_some_iff] at h
      obtain ⟨rest, hrest, hpath⟩ := h
      exact ⟨child, rest, hchild, hkeep, hrest, hpath⟩
    · rw [if_neg hkeep] at h
      cases h
  · rintro ⟨child, rest, hchild, hkeep, hrest, hpath⟩
    refine ⟨child, hchild, ?_⟩
    rw [if_pos hkeep, hrest, ← hpath]
    rfl

theorem place?_concat_eq_some_iff : t.place? keep (path ++ [i]) = some path' ↔
    ∃ u above child, t.nodeAt? path = some u ∧ t.place? keep path = some above ∧
      u.children[i]? = some child ∧ keep child = true ∧
      above ++ [(u.children.take i).countP keep] = path' := by
  induction path generalizing t path' with
  | nil =>
    rw [List.nil_append, place?_cons_eq_some_iff]
    constructor
    · rintro ⟨child, rest, hchild, hkeep, hrest, rfl⟩
      rw [place?_nil] at hrest
      cases hrest
      exact ⟨t, [], child, rfl, place?_nil keep t, hchild, hkeep, rfl⟩
    · rintro ⟨u, above, child, hu, habove, hchild, hkeep, rfl⟩
      rw [place?_nil] at habove
      cases hu
      cases habove
      exact ⟨child, [], hchild, hkeep, place?_nil keep child, rfl⟩
  | cons j path ih =>
    rw [List.cons_append, place?_cons_eq_some_iff]
    simp only [ih, place?_cons_eq_some_iff, nodeAt?_cons_eq_some_iff]
    constructor
    · rintro ⟨first, _, hfirst, hkeepFirst, ⟨u, above, child, hu, habove, hchild, hkeep, rfl⟩, rfl⟩
      exact ⟨u, _, child, ⟨first, hfirst, hu⟩, ⟨first, above, hfirst, hkeepFirst, habove, rfl⟩,
        hchild, hkeep, rfl⟩
    · rintro ⟨u, _, child, ⟨first, hfirst, hu⟩, ⟨first', above, hfirst', hkeepFirst, habove, rfl⟩,
        hchild, hkeep, rfl⟩
      rw [hfirst] at hfirst'
      cases hfirst'
      exact ⟨first, _, hfirst, hkeepFirst, ⟨u, above, child, hu, habove, hchild, hkeep, rfl⟩, rfl⟩

/-- Two nodes that are left do not come to stand at one place. -/
theorem place?_injective {path₁ path₂ : List Nat} (h₁ : t.place? keep path₁ = some path')
    (h₂ : t.place? keep path₂ = some path') : path₁ = path₂ := by
  induction path₁ generalizing t path₂ path' with
  | nil =>
    rw [place?_nil] at h₁
    cases h₁
    cases path₂ with
    | nil => rfl
    | cons i path₂ =>
      obtain ⟨child, rest, -, -, -, hnil⟩ := place?_cons_eq_some_iff.mp h₂
      cases hnil
  | cons i path₁ ih =>
    obtain ⟨child, rest, hchild, hkeep, hrest, rfl⟩ := place?_cons_eq_some_iff.mp h₁
    cases path₂ with
    | nil =>
      rw [place?_nil] at h₂
      cases h₂
    | cons i' path₂ =>
      obtain ⟨child', rest', hchild', hkeep', hrest', hplace⟩ := place?_cons_eq_some_iff.mp h₂
      obtain ⟨hcount, rfl⟩ := List.cons.inj hplace
      have hindex : i = i' := eq_of_countP_take_eq hchild hkeep hchild' hkeep' hcount.symm
      subst hindex
      rw [hchild] at hchild'
      cases hchild'
      rw [ih hrest hrest']

theorem exists_place?_iff (h : t.nodeAt? path = some u) :
    (∃ path', t.place? keep path = some path') ↔
      ∀ before v, before ≠ [] → before <+: path → t.nodeAt? before = some v → keep v = true := by
  induction path generalizing t with
  | nil =>
    refine iff_of_true ⟨[], place?_nil keep t⟩ fun before v hne hprefix => ?_
    exact absurd (List.prefix_nil.mp hprefix) hne
  | cons i path ih =>
    obtain ⟨child, hchild, hu⟩ := nodeAt?_cons_eq_some_iff.mp h
    constructor
    · rintro ⟨path', hpath⟩ before v hne hprefix hv
      obtain ⟨child', rest, hchild', hkeep, hrest, -⟩ := place?_cons_eq_some_iff.mp hpath
      rw [hchild] at hchild'
      cases hchild'
      obtain ⟨j, before, rfl⟩ := List.exists_cons_of_ne_nil hne
      obtain ⟨rfl, hbefore⟩ := List.cons_prefix_cons.mp hprefix
      obtain ⟨child', hchild', hv⟩ := nodeAt?_cons_eq_some_iff.mp hv
      rw [hchild] at hchild'
      cases hchild'
      -- the node is the child itself or stands below it
      cases before with
      | nil =>
        cases hv
        exact hkeep
      | cons j before => exact (ih hu).mp ⟨rest, hrest⟩ _ v (List.cons_ne_nil j before) hbefore hv
    · intro hall
      have hdown : ∀ before v, before <+: path → child.nodeAt? before = some v → keep v = true := by
        intro before v hbefore hv
        apply hall (i :: before) v (List.cons_ne_nil i before)
        · exact List.cons_prefix_cons.mpr ⟨rfl, hbefore⟩
        · exact nodeAt?_cons_eq_some_iff.mpr ⟨child, hchild, hv⟩
      have hkeep : keep child = true := hdown [] child List.nil_prefix (nodeAt?_nil child)
      obtain ⟨rest, hrest⟩ := (ih hu).mpr fun before v _ => hdown before v
      exact ⟨_, place?_cons_eq_some_iff.mpr ⟨child, rest, hchild, hkeep, hrest, rfl⟩⟩

/-! ## 3. The filtered tree -/

theorem getElem?_children_filter (keep : Tree → Bool) (t : Tree) (k : Nat) :
    (t.filter keep).children[k]? = (t.children.filter keep)[k]?.map (filter keep) := by
  rw [children_filter, filterIn_eq_map_filter, List.getElem?_map]

/-- A node that is left is found at its place, filtered itself. -/
theorem exists_nodeAt?_filter (h : t.place? keep path = some path') :
    ∃ u, t.nodeAt? path = some u ∧ (t.filter keep).nodeAt? path' = some (u.filter keep) := by
  induction path generalizing t path' with
  | nil =>
    rw [place?_nil] at h
    cases h
    exact ⟨t, nodeAt?_nil t, nodeAt?_nil _⟩
  | cons i path ih =>
    obtain ⟨child, rest, hchild, hkeep, hrest, rfl⟩ := place?_cons_eq_some_iff.mp h
    obtain ⟨u, hu, hplace⟩ := ih hrest
    refine ⟨u, nodeAt?_cons_eq_some_iff.mpr ⟨child, hchild, hu⟩, ?_⟩
    refine nodeAt?_cons_eq_some_iff.mpr ⟨child.filter keep, ?_, hplace⟩
    rw [getElem?_children_filter, getElem?_filter_countP hchild hkeep]
    rfl

/-- Every node of the filtered tree is at the place of a node that is left. -/
theorem exists_place?_of_nodeAt? {v : Tree} (h : (t.filter keep).nodeAt? path' = some v) :
    ∃ path, t.place? keep path = some path' := by
  induction path' generalizing t with
  | nil => exact ⟨[], place?_nil keep t⟩
  | cons k path' ih =>
    obtain ⟨filtered, hfiltered, hv⟩ := nodeAt?_cons_eq_some_iff.mp h
    rw [getElem?_children_filter, Option.map_eq_some_iff] at hfiltered
    obtain ⟨child, hchild, rfl⟩ := hfiltered
    obtain ⟨i, hi, hkeep, hcount⟩ := exists_getElem?_of_filter hchild
    obtain ⟨path, hpath⟩ := ih hv
    refine ⟨i :: path, place?_cons_eq_some_iff.mpr ⟨child, path', hi, hkeep, hpath, ?_⟩⟩
    rw [hcount]

theorem exactPruning_filter (keep : Tree → Bool) (t : Tree) :
    ExactPruning keep t (t.filter keep) (t.place? keep) where
  root := place?_nil keep t
  left_iff _ _ := exists_place?_iff
  texts path path' h := by
    obtain ⟨u, hu, hplace⟩ := exists_nodeAt?_filter h
    exact ⟨u, u.filter keep, hu, hplace, left_filter keep u, right_filter keep u⟩
  parent path i path' h := by
    obtain ⟨u, above, child, -, habove, -, -, rfl⟩ := place?_concat_eq_some_iff.mp h
    exact ⟨above, _, habove, rfl⟩
  order path i i' above j j' h h' hlt := by
    obtain ⟨u, _, child, hu, -, hchild, hkeep, hj⟩ := place?_concat_eq_some_iff.mp h
    obtain ⟨u', _, child', hu', -, -, -, hj'⟩ := place?_concat_eq_some_iff.mp h'
    rw [hu] at hu'
    cases hu'
    -- each index is the number of kept siblings before the node
    have hcount : (u.children.take i).countP keep = j :=
      (List.cons.inj (List.append_inj' hj rfl).2).1
    have hcount' : (u.children.take i').countP keep = j' :=
      (List.cons.inj (List.append_inj' hj' rfl).2).1
    rw [← hcount, ← hcount']
    exact countP_take_lt hchild hkeep hlt
  injective _ _ _ := place?_injective
  nothing_else _ _ := exists_place?_of_nodeAt?

mutual

theorem depth_filter_le (keep : Tree → Bool) : ∀ t : Tree, (t.filter keep).depth ≤ t.depth
  | ⟨left, children, right⟩ => by
    rw [filter, depth, depth]
    exact levels_filterIn_le keep children

theorem levels_filterIn_le (keep : Tree → Bool) : ∀ ts : List Tree,
    levels (filterIn keep ts) ≤ levels ts
  | [] => Nat.le_refl _
  | t :: ts => by
    have hfirst := depth_filter_le keep t
    have hrest := levels_filterIn_le keep ts
    rw [filterIn]
    by_cases ht : keep t = true
    · rw [if_pos ht, levels, levels]
      omega
    · rw [if_neg ht, levels]
      omega

end

/-- **Exact pruning.**  A node below the root is left in a filtered tree exactly when it and all
nodes above it, the root apart, were kept as they stood before.  What is left keeps its texts, its
parent and its order, nothing else appears, and the tree becomes no deeper. -/
theorem filter_prunes_exactly (keep : Tree → Bool) (t : Tree) :
    ExactPruning keep t (t.filter keep) (t.place? keep) ∧ (t.filter keep).depth ≤ t.depth :=
  ⟨exactPruning_filter keep t, depth_filter_le keep t⟩

/-- A refused node takes with it the kept nodes below it, and a node is tested with its children. -/
example : filter (fun u => u.left != ['b'] && !u.isLeaf)
    ⟨['a'], [⟨['b'], [⟨['c'], [leaf ['d']], []⟩], []⟩, ⟨['e'], [leaf ['f']], []⟩], []⟩
      = ⟨['a'], [leaf ['e']], []⟩ := rfl

end TypeSignature.Tree
