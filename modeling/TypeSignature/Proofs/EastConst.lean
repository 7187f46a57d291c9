import TypeSignature.EastConst
import TypeSignature.Proofs.Acceptance
import TypeSignature.Proofs.Text.Marks

/-!
# EastConst — moving `const` is one move out of seven

Every shape that `eastConst` recognises has a lead and a tail around a name, and every answer is
the name with an ending of its own.  What moving `const` keeps is therefore read off a short list of
texts, none of which has a structural character.
-/

namespace TypeSignature

open Text

/-- A shape that a `const` is moved out of: `lead`, a name and `tail` become the name and `east`. -/
structure EastMove where
  lead : Text
  tail : Text
  east : Text

/-- The shapes in the order in which they are tried. -/
def eastMoves : List EastMove :=
  eastConstTails.map (fun row => ⟨"const ".toList, row.1, row.2⟩) ++
    [⟨"const * ".toList, [], " const *".toList⟩, ⟨"const ".toList, [], " const".toList⟩]

/-- What the shapes have in common. -/
structure EastMove.Fair (m : EastMove) : Prop where
  lead_plain : Brackets.angle.Plain m.lead
  tail_plain : Brackets.angle.Plain m.tail
  east_plain : Brackets.angle.Plain m.east
  kept : m.east.nonblank.length = m.lead.nonblank.length + m.tail.nonblank.length
  lead_last : m.lead.getLast? = some ' '
  tail_head : ∀ c ∈ m.tail.head?, c = ' '
  east_head : " c".toList <+: m.east
  east_last : ∀ c ∈ m.east.getLast?, c ≠ ' '

theorem fair_of_mem_eastMoves {m : EastMove} (hm : m ∈ eastMoves) : m.Fair := by
  have hplain : ∀ m ∈ eastMoves, Brackets.angle.Plain m.lead ∧ Brackets.angle.Plain m.tail ∧
      Brackets.angle.Plain m.east := by decide
  have hkept : ∀ m ∈ eastMoves,
      m.east.nonblank.length = m.lead.nonblank.length + m.tail.nonblank.length := by decide
  have hends : ∀ m ∈ eastMoves, m.lead.getLast? = some ' ' ∧ (∀ c ∈ m.tail.head?, c = ' ') ∧
      " c".toList <+: m.east ∧ ∀ c ∈ m.east.getLast?, c ≠ ' ' := by
    simp [eastMoves, eastConstTails]
  obtain ⟨hlead, htail, heast⟩ := hplain m hm
  obtain ⟨hleadLast, htailHead, heastHead, heastLast⟩ := hends m hm
  exact ⟨hlead, htail, heast, hkept m hm, hleadLast, htailHead, heastHead, heastLast⟩

theorem eastConstTail?_eq_some {s out : Text} {tails : List (Text × Text)}
    (h : eastConstTail? s tails = some out) :
    ∃ row ∈ tails, ∃ name, s = "const ".toList ++ (name ++ row.1) ∧ out = name ++ row.2 := by
  induction tails with
  | nil => cases h
  | cons row tails ih =>
    obtain ⟨tail, east⟩ := row
    rw [eastConstTail?] at h
    split at h
    · rename_i name hname
      obtain ⟨rest, hlead, htail⟩ := Option.bind_eq_some_iff.mp hname
      rw [afterLead?_eq_some_iff] at hlead
      rw [beforeTail?_eq_some_iff] at htail
      exact ⟨_, List.mem_cons_self, name, by rw [hlead, htail], (Option.some.inj h).symm⟩
    · obtain ⟨row, hrow, hmove⟩ := ih h
      exact ⟨row, List.mem_cons_of_mem _ hrow, hmove⟩

/-- Moving `const` makes one of the moves, or none when the text does not begin with `const`. -/
theorem eastConst_shapes (s : Text) : (¬ "const ".toList <+: s ∧ eastConst s = s) ∨
    ∃ m ∈ eastMoves, ∃ name, s = m.lead ++ (name ++ m.tail) ∧ eastConst s = name ++ m.east := by
  unfold eastConst
  split
  · rename_i hends
    refine .inl ⟨fun h => ?_, rfl⟩
    rw [List.isPrefixOf_iff_prefix.mpr h, Bool.not_true, Bool.and_false] at hends
    cases hends
  · split
    · rename_i moved hmoved
      obtain ⟨row, hrow, name, hs, hout⟩ := eastConstTail?_eq_some hmoved
      exact .inr ⟨_, List.mem_append_left _ (List.mem_map_of_mem hrow), name, hs, hout⟩
    · split
      · rename_i name hname
        rw [afterLead?_eq_some_iff] at hname
        exact .inr ⟨⟨"const * ".toList, [], " const *".toList⟩, by simp [eastMoves], name,
          by simpa using hname, rfl⟩
      · split
        · rename_i name hname
          rw [afterLead?_eq_some_iff] at hname
          exact .inr ⟨⟨"const ".toList, [], " const".toList⟩, by simp [eastMoves], name,
            by simpa using hname, rfl⟩
        · rename_i hnone
          refine .inl ⟨?_, rfl⟩
          rintro ⟨name, rfl⟩
          rw [afterLead?_eq_some_iff.mpr rfl] at hnone
          cases hnone

theorem eastConst_cases (s : Text) : eastConst s = s ∨ ∃ m ∈ eastMoves, ∃ name,
    s = m.lead ++ (name ++ m.tail) ∧ eastConst s = name ++ m.east :=
  (eastConst_shapes s).imp_left And.right

/-! ## 1. What moving `const` keeps -/

theorem length_nonblank_eastConst (s : Text) :
    (eastConst s).nonblank.length = s.nonblank.length := by
  rcases eastConst_cases s with h | ⟨m, hm, name, hs, h⟩
  · rw [h]
  · have hkept := (fair_of_mem_eastMoves hm).kept
    rw [h, hs]
    simp only [nonblank_append, List.length_append]
    omega

theorem skeleton_eastConst (s : Text) :
    Brackets.angle.skeleton (eastConst s) = Brackets.angle.skeleton s := by
  rcases eastConst_cases s with h | ⟨m, hm, name, hs, h⟩
  · rw [h]
  · have hfair := fair_of_mem_eastMoves hm
    rw [h, hs]
    simp only [Brackets.skeleton_append, Brackets.skeleton_of_plain hfair.lead_plain,
      Brackets.skeleton_of_plain hfair.tail_plain, Brackets.skeleton_of_plain hfair.east_plain,
      List.append_nil, List.nil_append]

theorem skeleton_eastConst_trimSpaces (s : Text) :
    Brackets.angle.skeleton (eastConst (trimSpaces s)) = Brackets.angle.skeleton s := by
  rw [skeleton_eastConst]
  exact Brackets.skeleton_eq_of_nonblank Brackets.visible_angle (nonblank_trimSpaces s)

section

variable {m : EastMove} {s name : Text}

/-- The lead ends in a space, so none stands behind it when no two are adjacent. -/
theorem EastMove.Fair.head_ne_space (hm : m.Fair) (hs : Tidy s)
    (hname : s = m.lead ++ (name ++ m.tail)) : ∀ c ∈ (name ++ m.tail).head?, c ≠ ' ' := by
  have hsingle := hs.single
  rw [hname, List.isChain_append] at hsingle
  intro c hc
  exact hsingle.2.2 ' ' hm.lead_last c hc rfl

/-- Without a name the lead would end the text, or stand in front of the tail's space. -/
theorem EastMove.Fair.name_ne_nil (hm : m.Fair) (hs : Tidy s)
    (hname : s = m.lead ++ (name ++ m.tail)) : name ≠ [] := by
  have hbehind := hm.head_ne_space hs hname
  rintro rfl
  cases htail : m.tail with
  | nil =>
    rw [htail, List.append_nil, List.append_nil] at hname
    exact hs.last ' ' (hname ▸ hm.lead_last) rfl
  | cons c tail =>
    have hc : c = ' ' := hm.tail_head c (by rw [htail]; rfl)
    exact hbehind c (by rw [htail]; rfl) hc

/-- No space comes to stand at either end, when no two spaces are adjacent. -/
theorem trimSpaces_eastConst (hs : Tidy s) : trimSpaces (eastConst s) = eastConst s := by
  rcases eastConst_cases s with h | ⟨m, hm, name, hname, h⟩
  · rw [h, hs.trimSpaces_eq]
  · have hfair := fair_of_mem_eastMoves hm
    have hbehind := hfair.head_ne_space hs hname
    obtain ⟨ending, hending⟩ := hfair.east_head
    obtain ⟨d, name, rfl⟩ := List.exists_cons_of_ne_nil (hfair.name_ne_nil hs hname)
    rw [h]
    apply trimSpaces_eq_self
    · intro c hc
      exact hbehind c hc
    · intro c hc
      have hlast : (d :: name ++ m.east).getLast? = m.east.getLast? := by
        rw [← hending, List.getLast?_append_of_ne_nil _ (by simp)]
      exact hfair.east_last c (by rwa [hlast] at hc)

end

/-! ## 2. Lists -/

/-- What adds up over a text and is the same for each piece and for what stands between two of them
is the same for the whole. -/
theorem join_map_congr {α : Type} (measure : Text → α) (add : α → α → α)
    (hadd : ∀ s t, measure (s ++ t) = add (measure s) (measure t)) {f : Text → Text}
    (hf : ∀ s, measure (f s) = measure s) (gap gap' : Text) (hgap : measure gap = measure gap')
    (pieces : List Text) : measure (join gap (pieces.map f)) = measure (join gap' pieces) := by
  induction pieces with
  | nil => rfl
  | cons piece pieces ih =>
    cases pieces with
    | nil => exact hf piece
    | cons next rest =>
      rw [List.map_cons] at ih
      rw [List.map_cons, List.map_cons, join_cons_cons, join_cons_cons, hadd, hadd, ih, hadd,
        hadd, hf, hgap]

theorem eastConstList_eq_join (s : Text) : eastConstList s
    = join [',', ' '] ((Brackets.angle.piecesFrom 0 s).map fun piece =>
        eastConst (trimSpaces piece)) := by
  rw [eastConstList, Brackets.split, List.map_map]
  rfl

theorem length_nonblank_eastConstList (s : Text) :
    (eastConstList s).nonblank.length = s.nonblank.length := by
  have hpiece : ∀ piece : Text,
      (eastConst (trimSpaces piece)).nonblank.length = piece.nonblank.length := by
    intro piece
    rw [length_nonblank_eastConst, nonblank_trimSpaces]
  -- the comma between two pieces gets a space, which is not counted
  have hpieces := join_map_congr (fun s : Text => s.nonblank.length) (· + ·) (by simp) hpiece
    [',', ' '] [','] (by decide) (Brackets.angle.piecesFrom 0 s)
  rw [eastConstList_eq_join, hpieces]
  exact congrArg (fun s : Text => s.nonblank.length) (Brackets.join_piecesFrom .angle 0 s)

theorem skeleton_eastConstList (s : Text) :
    Brackets.angle.skeleton (eastConstList s) = Brackets.angle.skeleton s := by
  have hpieces := join_map_congr Brackets.angle.skeleton (· ++ ·)
    (Brackets.skeleton_append .angle) skeleton_eastConst_trimSpaces [',', ' '] [','] (by decide)
    (Brackets.angle.piecesFrom 0 s)
  rw [eastConstList_eq_join, hpieces]
  exact congrArg Brackets.angle.skeleton (Brackets.join_piecesFrom .angle 0 s)

end TypeSignature
