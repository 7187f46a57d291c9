import TypeSignature.Brackets

/-!
# Brackets — roles, nesting and pieces

The facts about structural characters that do not depend on how a text is read: which character has
which role, how deep a point of a text is nested, and that the pieces of a text are all of it.
-/

namespace TypeSignature.Brackets

open Text

/-- No structural character is white space. -/
structure Visible (b : Brackets) : Prop where
  opening : isBlank b.opening = false
  closing : isBlank b.closing = false
  separator : isBlank b.separator = false

/-- The three structural characters differ from each other. -/
structure Distinct (b : Brackets) : Prop where
  opening_ne_closing : b.opening ≠ b.closing
  opening_ne_separator : b.opening ≠ b.separator
  closing_ne_separator : b.closing ≠ b.separator

theorem visible_angle : angle.Visible := ⟨by decide, by decide, by decide⟩

theorem distinct_angle : angle.Distinct := ⟨by decide, by decide, by decide⟩

variable {b : Brackets} {c : Char}

/-! ## 1. Roles -/

theorem role_eq_opening_iff : b.role c = .opening ↔ c = b.opening := by
  unfold role
  split
  · simp_all
  · split <;> simp_all
    split <;> simp_all

theorem eq_separator_of_role (h : b.role c = .separator) : c = b.separator := by
  unfold role at h
  split at h
  · simp at h
  · split at h
    · assumption
    · split at h <;> simp at h

theorem eq_closing_of_role (h : b.role c = .closing) : c = b.closing := by
  unfold role at h
  split at h
  · simp at h
  · split at h
    · simp at h
    · split at h
      · assumption
      · simp at h

@[simp] theorem role_opening (b : Brackets) : b.role b.opening = .opening :=
  role_eq_opening_iff.mpr rfl

theorem Distinct.role_separator (hb : b.Distinct) : b.role b.separator = .separator := by
  rw [role, if_neg hb.opening_ne_separator.symm, if_pos rfl]

theorem Distinct.role_closing (hb : b.Distinct) : b.role b.closing = .closing := by
  rw [role, if_neg hb.opening_ne_closing.symm, if_neg hb.closing_ne_separator, if_pos rfl]

theorem Visible.role_of_blank (hb : b.Visible) (hc : isBlank c = true) : b.role c = .text := by
  have hne : ∀ d, isBlank d = false → c ≠ d := by
    rintro d hd rfl
    rw [hc] at hd
    contradiction
  exact role_eq_text_iff.mpr ⟨hne _ hb.opening, hne _ hb.separator, hne _ hb.closing⟩

theorem Visible.not_blank (hb : b.Visible) (hc : b.role c ≠ .text) : isBlank c = false := by
  cases h : isBlank c with
  | false => rfl
  | true => exact absurd (hb.role_of_blank h) hc

/-- The text holds no structural character. -/
def Plain (b : Brackets) (s : Text) : Prop := ∀ c ∈ s, b.role c = .text

instance (b : Brackets) (s : Text) : Decidable (b.Plain s) :=
  List.decidableBAll (fun c => b.role c = .text) s

theorem plain_nil (b : Brackets) : b.Plain [] := by
  intro c hc
  simp at hc

theorem Plain.concat {s : Text} (hs : b.Plain s) (hc : b.role c = .text) : b.Plain (s ++ [c]) := by
  intro d hd
  rcases List.mem_append.mp hd with hd | hd
  · exact hs d hd
  · rwa [List.mem_singleton.mp hd]

theorem Visible.plain_of_blank (hb : b.Visible) {s : Text} (hs : ∀ c ∈ s, isBlank c = true) :
    b.Plain s := fun c hc => hb.role_of_blank (hs c hc)

/-! ## 2. Nesting -/

/-- The number of brackets that a text opens, less the number that it closes. -/
def nesting (b : Brackets) (s : Text) : Int :=
  (s.countP fun c => b.role c = .opening) - (s.countP fun c => b.role c = .closing)

@[simp] theorem nesting_nil (b : Brackets) : b.nesting [] = 0 := rfl

@[simp] theorem nesting_append (b : Brackets) (s t : Text) :
    b.nesting (s ++ t) = b.nesting s + b.nesting t := by
  simp only [nesting, List.countP_append]
  omega

theorem nesting_singleton (b : Brackets) (c : Char) :
    b.nesting [c] = match b.role c with
      | .opening => 1
      | .closing => -1
      | _ => 0 := by
  simp only [nesting, List.countP_singleton]
  cases b.role c <;> rfl

theorem nesting_of_plain {s : Text} (hs : b.Plain s) : b.nesting s = 0 := by
  have hnone : ∀ role : Role, role ≠ .text → (s.countP fun c => b.role c = role) = 0 := by
    intro role hrole
    rw [List.countP_eq_zero]
    intro c hc
    simp [hs c hc, hrole.symm]
  rw [nesting, hnone _ (by decide), hnone _ (by decide)]
  rfl

theorem Distinct.depthAfter_eq (hb : b.Distinct) (depth : Nat) (c : Char) :
    b.depthAfter depth c = match b.role c with
      | .opening => depth + 1
      | .closing => depth - 1
      | .separator | .text => depth := by
  unfold depthAfter
  cases hrole : b.role c with
  | opening => rw [if_pos (role_eq_opening_iff.mp hrole)]
  | closing => rw [eq_closing_of_role hrole, if_neg hb.opening_ne_closing.symm, if_pos rfl]
  | separator =>
    rw [eq_separator_of_role hrole, if_neg hb.opening_ne_separator.symm,
      if_neg hb.closing_ne_separator.symm]
  | text =>
    obtain ⟨hopening, -, hclosing⟩ := role_eq_text_iff.mp hrole
    rw [if_neg hopening, if_neg hclosing]

/-! ## 3. Pieces -/

/-- A separator outside of all brackets ends a piece. -/
theorem Distinct.piecesFrom_of_cut (hb : b.Distinct) (hc : b.role c = .separator) (s : Text) :
    b.piecesFrom 0 (c :: s) = [] :: b.piecesFrom 0 s := by
  have hdepth : b.depthAfter 0 c = 0 := by rw [hb.depthAfter_eq, hc]
  rw [piecesFrom, hdepth, if_pos ⟨eq_separator_of_role hc, rfl⟩]

/-- Every other character belongs to the first piece. -/
theorem Distinct.piecesFrom_of_not_cut (hb : b.Distinct) {depth : Nat}
    (hc : ¬ (b.role c = .separator ∧ depth = 0)) (s : Text) :
    b.piecesFrom depth (c :: s) = consFirst c (b.piecesFrom (b.depthAfter depth c) s) := by
  rw [piecesFrom, if_neg]
  rintro ⟨rfl, hzero⟩
  rw [hb.depthAfter_eq, hb.role_separator] at hzero
  exact hc ⟨hb.role_separator, hzero⟩

theorem join_consFirst (between : Text) (c : Char) {pieces : List Text} (h : pieces ≠ []) :
    join between (consFirst c pieces) = c :: join between pieces := by
  cases pieces with
  | nil => exact absurd rfl h
  | cons piece pieces =>
    cases pieces with
    | nil => rfl
    | cons next rest => simp only [consFirst, join_cons_cons, List.cons_append]

/-- Joined by the separator, the pieces are the text they were cut from. -/
theorem join_piecesFrom (b : Brackets) (depth : Nat) (s : Text) :
    join [b.separator] (b.piecesFrom depth s) = s := by
  induction s generalizing depth with
  | nil => rfl
  | cons c s ih =>
    have hne := b.piecesFrom_ne_nil (b.depthAfter depth c) s
    simp only [piecesFrom]
    split
    · rename_i hcut
      obtain ⟨piece, pieces, hpieces⟩ := List.exists_cons_of_ne_nil hne
      rw [hpieces, join_cons_cons, ← hpieces, ih, hcut.1]
      rfl
    · rw [join_consFirst _ _ hne, ih]

end TypeSignature.Brackets
