import TypeSignature.Proofs.Conventional
import TypeSignature.Proofs.Tree.Texts

/-!
# OneLine — a tree on one line, and in any layout that writes the same to canonical spacing

The compact layout writes a tree on one line, at whatever level.  Other layouts add white space
where canonical spacing decides every gap anyway, and so does text with white space around it,
except in front of an opening bracket.  So canonical spacing cannot tell the layouts apart where the
gaps in front of opening brackets are closed.
-/

namespace TypeSignature

open Text

/-- White space goes behind a bracket, a comma or a line break, and before a right text, but never
between a left text and its group. -/
structure Layout.Usual (o : Layout) : Prop where
  unit : ∀ c ∈ o.indentUnit, isBlank c = true
  mode : o.indentMode ≠ .beforeOpening
  left : o.spaceAfterLeft = false
  right : o.spaceBeforeRight = true

theorem Layout.usual_compact : Layout.compact.Usual := ⟨by simp [compact], by decide, rfl, rfl⟩

theorem Layout.usual_indented : Layout.indented.Usual :=
  ⟨by simp [indented], by decide, rfl, rfl⟩

namespace Tree

/-- A right text behind what stands before it. -/
def behindGroup (right : Text) : Text := if right.isEmpty then [] else ' ' :: right

mutual

/-- The text of a node on one line. -/
def oneLine : Tree → Text
  | ⟨left, children, right⟩ =>
    left ++ ((if children.isEmpty then [] else '<' :: (oneLineRow children ++ ['>'])) ++
      behindGroup right)

/-- The text of a row of siblings on one line. -/
def oneLineRow : List Tree → Text
  | [] => []
  | t :: ts => oneLine t ++ oneLineFurther ts

/-- The text of the siblings after the first. -/
def oneLineFurther : List Tree → Text
  | [] => []
  | t :: ts => ',' :: ' ' :: (oneLine t ++ oneLineFurther ts)

end

theorem oneLine_leaf (left right : Text) :
    oneLine ⟨left, [], right⟩ = left ++ behindGroup right := by
  simp [oneLine]

theorem oneLine_group (left right : Text) (child : Tree) (children : List Tree) :
    oneLine ⟨left, child :: children, right⟩
      = left ++ '<' :: (oneLineRow (child :: children) ++ '>' :: behindGroup right) := by
  simp [oneLine]

theorem oneLineRow_concat (ts : List Tree) (t : Tree) :
    oneLineRow (ts ++ [t]) = ts.flatMap (fun u => oneLine u ++ [',', ' ']) ++ oneLine t := by
  induction ts with
  | nil => simp [oneLineRow, oneLineFurther]
  | cons u ts ih =>
    -- `u` has a sibling behind it, whatever `ts` is
    have hfurther : oneLineFurther (ts ++ [t]) = ',' :: ' ' :: oneLineRow (ts ++ [t]) := by
      cases ts <;> rfl
    rw [List.cons_append, oneLineRow, hfurther, ih, List.flatMap_cons]
    simp only [List.append_assoc, List.cons_append, List.nil_append]

mutual

theorem renderAt_compact (level : Nat) : ∀ t : Tree, renderAt .angle .compact level t = oneLine t
  | ⟨left, children, right⟩ => by
    have hright : Layout.compact.rightText right = behindGroup right := by cases right <;> rfl
    have hrow := renderRow_compact (level + 1) children
    rw [renderAt, oneLine, hrow, hright]
    cases children <;>
      simp [Layout.compact, Layout.indents, Layout.leftText, Layout.beforeGroup,
        Layout.afterGroup, Brackets.angle]

theorem renderRow_compact (level : Nat) : ∀ ts : List Tree,
    renderRow .angle .compact level ts = oneLineRow ts
  | [] => rfl
  | t :: ts => by
    rw [renderRow, oneLineRow, renderAt_compact level t, renderFurther_compact level ts]

theorem renderFurther_compact (level : Nat) : ∀ ts : List Tree,
    renderFurther .angle .compact level ts = oneLineFurther ts
  | [] => rfl
  | t :: ts => by
    rw [renderFurther, oneLineFurther, renderAt_compact level t, renderFurther_compact level ts,
      List.append_assoc]
    rfl

end

/-! ## 1. The parts of a usual layout -/

section

variable {o : Layout} (ho : o.Usual)

include ho

theorem exists_beforeGroup_of_usual (level : Nat) : ∃ gap : Text, (∀ c ∈ gap, isBlank c = true) ∧
    o.beforeGroup .angle level = '<' :: gap := by
  have hmode := ho.mode
  unfold Layout.beforeGroup
  split
  · exact ⟨[], by simp, rfl⟩
  · contradiction
  · exact ⟨['\n'], List.forall_mem_singleton.mpr (by decide), rfl⟩

theorem leftText_of_usual (left : Text) : o.leftText left = left := by
  rw [Layout.leftText, ho.left]
  rfl

theorem rightText_of_usual (right : Text) : o.rightText right = behindGroup right := by
  rw [Layout.rightText, ho.right, behindGroup]
  cases right <;> rfl

theorem exists_renderAt_leaf (level : Nat) (left right : Text) :
    ∃ indent : Text, (∀ c ∈ indent, isBlank c = true) ∧
      renderAt .angle o level ⟨left, [], right⟩ = (indent ++ left) ++ behindGroup right := by
  refine ⟨_, o.isBlank_of_mem_indent ho.unit level, ?_⟩
  rw [renderAt, leftText_of_usual ho, rightText_of_usual ho]
  simp

theorem exists_renderAt_group (level : Nat) (left right : Text) {children : List Tree}
    (hchildren : children ≠ []) : ∃ indent before after : Text,
      (∀ c ∈ indent, isBlank c = true) ∧ (∀ c ∈ before, isBlank c = true) ∧
      (∀ c ∈ after, isBlank c = true) ∧ renderAt .angle o level ⟨left, children, right⟩
        = (indent ++ left) ++ '<' :: (before ++ (renderRow .angle o (level + 1) children ++
          (after ++ '>' :: behindGroup right))) := by
  obtain ⟨before, hbefore, hopening⟩ := exists_beforeGroup_of_usual ho level
  obtain ⟨after, hafter, hclosing⟩ := o.exists_afterGroup ho.unit .angle level
  refine ⟨_, before, after, o.isBlank_of_mem_indent ho.unit level, hbefore, hafter, ?_⟩
  rw [renderAt, leftText_of_usual ho, rightText_of_usual ho, hopening, hclosing,
    if_neg (c := children.isEmpty = true) (by simpa using hchildren)]
  simp [Brackets.angle]

end

/-! ## 2. Layouts and trimming -/

/-- What `f` takes away from a text is white space at its ends. -/
def CutsBlanks (f : Text → Text) : Prop := ∀ s, ∃ head tail : Text,
  (∀ c ∈ head, isBlank c = true) ∧ (∀ c ∈ tail, isBlank c = true) ∧ s = head ++ (f s ++ tail)

theorem cutsBlanks_trimSpaces : CutsBlanks trimSpaces := exists_trimSpaces

theorem cutsBlanks_id : CutsBlanks id := fun s => ⟨[], [], by simp, by simp, by simp⟩

theorem CutsBlanks.eq_nil {f : Text → Text} (hf : CutsBlanks f) : f [] = [] := by
  obtain ⟨head, tail, -, -, hnil⟩ := hf []
  have h := hnil.symm
  rw [List.append_eq_nil_iff, List.append_eq_nil_iff] at h
  exact h.2.1

variable {previous : Option Char} {f : Text → Text}

theorem settledGap_closing (previous : Option Char) (spaced spaced' : Bool) :
    settledGap previous '>' spaced = settledGap previous '>' spaced' := by
  cases previous <;> simp [settledGap, spaceBetween]

theorem settledGap_comma (previous : Option Char) (spaced spaced' : Bool) :
    settledGap previous ',' spaced = settledGap previous ',' spaced' := by
  cases previous <;> simp [settledGap, spaceBetween]

theorem settled_cut (hf : CutsBlanks f) (hdecides : Decides previous) {indent : Text}
    (hindent : ∀ c ∈ indent, isBlank c = true) (spaced spaced' : Bool) (s : Text) :
    settled previous spaced (indent ++ f s) = settled previous spaced' s := by
  obtain ⟨head, tail, hhead, htail, hs⟩ := hf s
  conv_rhs => rw [hs]
  rw [settled_blanks_append hindent, settled_blanks_append hhead, settled_append_blanks _ htail]
  exact hdecides.settled_eq _ _ _

/-- A right text keeps its space, unless nothing but white space follows. -/
theorem settled_behindGroup (hf : CutsBlanks f) (spaced spaced' : Bool) (right : Text) :
    settled previous spaced (behindGroup (f right))
      = settled previous spaced' (behindGroup right) := by
  obtain ⟨head, tail, hhead, htail, hs⟩ := hf right
  by_cases hnil : f right = []
  · -- the right text is white space
    have hblank : ∀ c ∈ behindGroup right, isBlank c = true := by
      intro c hc
      rw [behindGroup] at hc
      split at hc
      · simp at hc
      · rcases List.mem_cons.mp hc with rfl | hc
        · exact isBlank_space
        · rw [hs, hnil, List.nil_append] at hc
          exact (List.mem_append.mp hc).elim (hhead c) (htail c)
    rw [hnil, settled_of_blank hblank]
    rfl
  · have hright : right ≠ [] := fun h => hnil (by rw [h, hf.eq_nil])
    have hspace : ∀ s, s ≠ [] → ∀ spaced, settled previous spaced (behindGroup s)
        = settled previous true s := by
      intro s hs spaced
      rw [behindGroup, if_neg (by simpa using hs), settled_space_cons]
    rw [hspace _ hnil, hspace _ hright]
    conv_rhs => rw [hs]
    rw [settled_blanks_append hhead, settled_append_blanks _ htail, Bool.true_or]

/-- If the gap behind a left text does not matter, it does not matter behind what is cut out of the
text. -/
theorem settledGap_cut (hf : CutsBlanks f) (hdecides : Decides previous) {left indent : Text}
    {spaced spaced' : Bool}
    (hgap : settledGap (lastVisible previous left) '<' (endsSpaced spaced' left)
      = settledGap (lastVisible previous left) '<' false) :
    settledGap (lastVisible previous left) '<' (endsSpaced spaced (indent ++ f left))
      = settledGap (lastVisible previous left) '<' (endsSpaced spaced' left) := by
  obtain ⟨head, tail, hhead, htail, hs⟩ := hf left
  by_cases hnil : f left = []
  · have hblank : ∀ c ∈ left, isBlank c = true := by
      intro c hc
      rw [hs, hnil, List.nil_append] at hc
      exact (List.mem_append.mp hc).elim (hhead c) (htail c)
    rw [lastVisible_of_blank hblank]
    cases endsSpaced spaced (indent ++ f left) <;> cases endsSpaced spaced' left <;>
      simp [hdecides '<']
  · have hends : endsSpaced spaced (indent ++ f left) = endsSpaced false (f left) := by
      rw [endsSpaced_append, endsSpaced_of_ne_nil hnil]
    rw [hends, hgap]
    cases htrue : endsSpaced false (f left) with
    | false => rfl
    | true =>
      -- white space at the end of what was cut out stands in the left text, too
      have hleft : endsSpaced spaced' left = true := by
        rw [hs, endsSpaced_append, endsSpaced_append, endsSpaced_of_ne_nil hnil _ false, htrue,
          endsSpaced_of_blank htail, Bool.true_or]
      rwa [hleft] at hgap

mutual

/-- A usual layout of the tree with its texts cut, and the tree on one line, have the same settled
gaps. -/
theorem settled_renderAt {o : Layout} (ho : o.Usual) (hf : CutsBlanks f) (level : Nat) :
    ∀ (t : Tree) {previous : Option Char} (spaced spaced' : Bool), Decides previous →
      Fitting previous spaced' t.oneLine →
      settled previous spaced (renderAt .angle o level (t.mapText f))
        = settled previous spaced' t.oneLine
  | ⟨left, [], right⟩, previous, spaced, spaced', hdecides, _ => by
    obtain ⟨indent, hindent, hrender⟩ := exists_renderAt_leaf ho level (f left) (f right)
    rw [mapText, mapTextIn, hrender, oneLine_leaf]
    exact settled_append_congr (settled_cut hf hdecides hindent spaced spaced' left)
      (settled_behindGroup hf _ _ right)
  | ⟨left, child :: children, right⟩, previous, spaced, spaced', hdecides, hfitting => by
    have hopening : isBlank '<' = false := by decide
    have hchildren : mapTextIn f (child :: children) ≠ [] := by simp [mapTextIn]
    obtain ⟨indent, before, after, hindent, hbefore, hafter, hrender⟩ :=
      exists_renderAt_group ho level (f left) (f right) hchildren
    rw [oneLine_group, fitting_append, fitting_cons_of_visible hopening, fitting_append] at hfitting
    obtain ⟨-, hgap, hrowFitting, -⟩ := hfitting
    have hrow := settled_renderRow ho hf (level + 1) (child :: children)
      (false || !before.isEmpty) false decides_opening hrowFitting
    rw [mapText, hrender, oneLine_group]
    -- the left text, the gap, the row and the closing bracket agree one after the other
    refine settled_append_congr (settled_cut hf hdecides hindent spaced spaced' left)
      (settled_cons_congr hopening (settledGap_cut hf hdecides (hgap.before rfl)) ?_)
    rw [settled_blanks_append hbefore]
    refine settled_append_congr hrow ?_
    rw [settled_blanks_append hafter]
    exact settled_cons_congr (by decide) (settledGap_closing _ _ _)
      (settled_behindGroup hf false false right)

theorem settled_renderRow {o : Layout} (ho : o.Usual) (hf : CutsBlanks f) (level : Nat) :
    ∀ (ts : List Tree) {previous : Option Char} (spaced spaced' : Bool), Decides previous →
      Fitting previous spaced' (oneLineRow ts) →
      settled previous spaced (renderRow .angle o level (mapTextIn f ts))
        = settled previous spaced' (oneLineRow ts)
  | [], _, _, _, _, _ => rfl
  | t :: ts, previous, spaced, spaced', hdecides, hfitting => by
    rw [oneLineRow, fitting_append] at hfitting
    rw [mapTextIn, renderRow, oneLineRow]
    exact settled_append_congr (settled_renderAt ho hf level t spaced spaced' hdecides hfitting.1)
      (settled_renderFurther ho hf level ts _ _ hfitting.2)

theorem settled_renderFurther {o : Layout} (ho : o.Usual) (hf : CutsBlanks f) (level : Nat) :
    ∀ (ts : List Tree) {previous : Option Char} (spaced spaced' : Bool),
      Fitting previous spaced' (oneLineFurther ts) →
      settled previous spaced (renderFurther .angle o level (mapTextIn f ts))
        = settled previous spaced' (oneLineFurther ts)
  | [], _, _, _, _ => rfl
  | t :: ts, previous, spaced, spaced', hfitting => by
    have hcomma : isBlank ',' = false := by decide
    obtain ⟨gap, hgap, hbetween⟩ := o.exists_betweenSiblings .angle
    rw [oneLineFurther, fitting_cons_of_visible hcomma, fitting_cons_of_blank isBlank_space,
      fitting_append] at hfitting
    rw [mapTextIn, renderFurther, hbetween, oneLineFurther, List.append_assoc, List.cons_append]
    refine settled_cons_congr hcomma (settledGap_comma _ _ _) ?_
    rw [settled_blanks_append hgap, settled_space_cons]
    exact settled_append_congr (settled_renderAt ho hf level t _ true decides_comma hfitting.2.1)
      (settled_renderFurther ho hf level ts _ _ hfitting.2.2)

end

/-! ## 3. What is written of a tree is conventional -/

/-- A text without structural characters that does not end in white space. -/
def Trimmed (s : Text) : Prop := Brackets.angle.Plain s ∧ ∀ c ∈ s.getLast?, isBlank c = false

/-- A space behind the left text makes no difference in front of a group, because there is none or
because the last visible character decides the gap. -/
def Abuts (left : Text) : Prop :=
  ∀ c ∈ left.getLast?, isBlank c = true →
    ∀ x ∈ (nonblank left).getLast?, x ∈ ['&', '*', '(', ')', '[', ']']

-- decided for the last characters only, not for every `Char`
instance (left : Text) : Decidable (Abuts left) :=
  have := Option.decidableForallMem (p := (· ∈ ['&', '*', '(', ')', '[', ']']))
    (nonblank left).getLast?
  Option.decidableForallMem (p := fun c => isBlank c = true →
    ∀ x ∈ (nonblank left).getLast?, x ∈ ['&', '*', '(', ')', '[', ']']) left.getLast?

theorem Trimmed.abuts {s : Text} (hs : Trimmed s) : Abuts s := by
  intro c hc hblank
  rw [hs.2 c hc] at hblank
  cases hblank

theorem spaceBetween_opening_iff {x : Char} (hx : Brackets.angle.role x = .text) :
    spaceBetween x '<' true = spaceBetween x '<' false ↔ x ∈ ['&', '*', '(', ')', '[', ']'] := by
  obtain ⟨hopening, hcomma, -⟩ := Brackets.role_eq_text_iff.mp hx
  have hopening : x ≠ '<' := hopening
  have hcomma : x ≠ ',' := hcomma
  unfold spaceBetween
  grind

theorem settledGap_opening_iff {left : Text} (hleft : Brackets.angle.Plain left)
    (hdecides : Decides previous) (spaced : Bool) :
    settledGap (lastVisible previous left) '<' (endsSpaced spaced left)
      = settledGap (lastVisible previous left) '<' false ↔ Abuts left := by
  rcases List.eq_nil_or_concat left with rfl | ⟨init, c, rfl⟩
  · have hgap : settledGap previous '<' spaced = settledGap previous '<' false := by
      cases spaced with
      | true => exact hdecides '<'
      | false => rfl
    exact iff_of_true hgap fun c hc => by cases hc
  · rw [List.concat_eq_append] at hleft ⊢
    have hends : endsSpaced spaced (init ++ [c]) = isBlank c := by
      rw [endsSpaced_append, endsSpaced, endsSpaced]
    rw [hends, Abuts, List.getLast?_concat]
    simp only [Option.mem_some_iff, forall_eq']
    by_cases hc : isBlank c
    · rw [hc, lastVisible]
      cases hlast : (nonblank (init ++ [c])).getLast? with
      | none => exact iff_of_true (hdecides '<') fun _ _ hx => by cases hx
      | some x =>
        have hx : x ∈ init ++ [c] := List.mem_of_mem_filter (List.mem_of_mem_getLast? hlast)
        have hgap := spaceBetween_opening_iff (hleft x hx)
        simpa [settledGap] using hgap
    · simp [hc]

theorem lastVisible_ne_closing {s : Text} (hs : Brackets.angle.Plain s)
    (hprevious : previous ≠ some '>') : lastVisible previous s ≠ some '>' := by
  rw [lastVisible]
  cases hlast : (nonblank s).getLast? with
  | none => exact hprevious
  | some c =>
    have hc : c ∈ s := List.mem_of_mem_filter (List.mem_of_mem_getLast? hlast)
    have hne := (Brackets.role_eq_text_iff.mp (hs c hc)).2.2
    exact fun h => hne (Option.some.inj h)

theorem fitting_behindGroup {right : Text} (hright : Brackets.angle.Plain right)
    (previous : Option Char) (spaced : Bool) : Fitting previous spaced (behindGroup right) := by
  rw [behindGroup]
  split
  · trivial
  · exact (fitting_cons_of_blank isBlank_space right).mpr (fitting_of_plain hright fun _ => rfl)

mutual

/-- A line fits exactly when every left text abuts its group. -/
theorem fitting_oneLine_iff : ∀ {t : Tree} {previous : Option Char} {spaced : Bool},
    t.Texts Brackets.angle.Plain → Decides previous → previous ≠ some '>' →
    (Fitting previous spaced t.oneLine ↔ ∀ u ∈ t.preorder, u.children ≠ [] → Abuts u.left)
  | ⟨left, [], right⟩, previous, spaced, ht, _, hprevious => by
    have hleft : Fitting previous spaced left := fitting_of_plain ht.1 fun h => absurd h hprevious
    rw [oneLine_leaf, fitting_append]
    apply iff_of_true ⟨hleft, fitting_behindGroup ht.2.2 _ _⟩
    simp [preorder, preorderIn]
  | ⟨left, child :: children, right⟩, previous, spaced, ht, hdecides, hprevious => by
    have hleft : Fitting previous spaced left := fitting_of_plain ht.1 fun h => absurd h hprevious
    have hbehind := lastVisible_ne_closing ht.1 hprevious
    have hgap := settledGap_opening_iff ht.1 hdecides spaced
    -- the row stands behind a bracket that decides the gap
    have hrow : Fitting (some '<') false (oneLineRow (child :: children)) ↔
        ∀ u ∈ preorderIn (child :: children), u.children ≠ [] → Abuts u.left :=
      fitting_oneLineRow_iff ht.2.1 decides_opening (by simp)
    rw [oneLine_group, fitting_append, fitting_cons_of_visible (by decide), fitting_append,
      fitting_cons_of_visible (by decide), preorder, List.forall_mem_cons, hrow]
    constructor
    · rintro ⟨-, hfits, hbelow, -⟩
      exact ⟨fun _ => hgap.mp (hfits.before rfl), hbelow⟩
    · rintro ⟨habuts, hbelow⟩
      have hfits := hgap.mpr (habuts (List.cons_ne_nil child children))
      exact ⟨hleft, ⟨fun h => absurd h hbehind, fun _ => hfits⟩, hbelow, fits_closing _ _,
        fitting_behindGroup ht.2.2 _ _⟩

theorem fitting_oneLineRow_iff : ∀ {ts : List Tree} {previous : Option Char} {spaced : Bool},
    TextsIn Brackets.angle.Plain ts → Decides previous → previous ≠ some '>' →
    (Fitting previous spaced (oneLineRow ts) ↔
      ∀ u ∈ preorderIn ts, u.children ≠ [] → Abuts u.left)
  | [], _, _, _, _, _ => by
    apply iff_of_true
    · trivial
    · simp [preorderIn]
  | t :: ts, previous, spaced, hts, hdecides, hprevious => by
    rw [oneLineRow, fitting_append, preorderIn, List.forall_mem_append,
      fitting_oneLine_iff hts.1 hdecides hprevious, fitting_oneLineFurther_iff hts.2]

theorem fitting_oneLineFurther_iff : ∀ {ts : List Tree} {previous : Option Char} {spaced : Bool},
    TextsIn Brackets.angle.Plain ts → (Fitting previous spaced (oneLineFurther ts) ↔
      ∀ u ∈ preorderIn ts, u.children ≠ [] → Abuts u.left)
  | [], _, _, _ => by
    apply iff_of_true
    · trivial
    · simp [preorderIn]
  | t :: ts, previous, spaced, hts => by
    rw [oneLineFurther, fitting_cons_of_visible (by decide), fitting_cons_of_blank isBlank_space,
      fitting_append, preorderIn, List.forall_mem_append,
      fitting_oneLine_iff hts.1 decides_comma (by simp), fitting_oneLineFurther_iff hts.2]
    exact and_iff_right (fits_comma _ _)

end

theorem plain_behindGroup {right : Text} (hright : Brackets.angle.Plain right) :
    Brackets.angle.Plain (behindGroup right) := by
  rw [behindGroup]
  split
  · exact Brackets.angle.plain_nil
  · exact List.forall_mem_cons.mpr ⟨by decide, hright⟩

mutual

/-- A node opens its group once; what follows it does not open it again, if it could not open any
group again. -/
theorem reopenings_oneLine : ∀ {t : Tree} {rest : Text} {count : Nat},
    t.Texts Brackets.angle.Plain → (∀ closed, Brackets.angle.reopenings closed rest = count) →
    Brackets.angle.reopenings false (t.oneLine ++ rest) = count
  | ⟨left, [], right⟩, rest, count, ht, hrest => by
    rw [oneLine_leaf, List.append_assoc, reopenings_append_of_plain ht.1,
      reopenings_append_of_plain (plain_behindGroup ht.2.2), hrest]
  | ⟨left, child :: children, right⟩, rest, count, ht, hrest => by
    -- the closing bracket forgets what was closed before it
    have hclosing : ∀ closed, Brackets.angle.reopenings closed ('>' :: (behindGroup right ++ rest))
        = count := by
      intro closed
      show Brackets.angle.reopenings true (behindGroup right ++ rest) = count
      rw [reopenings_append_of_plain (plain_behindGroup ht.2.2), hrest]
    have hrow := reopenings_oneLineRow ht.2.1 hclosing
    rw [oneLine_group, List.append_assoc, reopenings_append_of_plain ht.1, List.cons_append,
      List.append_assoc, List.cons_append]
    show false.toNat + Brackets.angle.reopenings false _ = count
    rw [hrow, Bool.toNat_false, Nat.zero_add]

theorem reopenings_oneLineRow : ∀ {ts : List Tree} {rest : Text} {count : Nat},
    TextsIn Brackets.angle.Plain ts →
    (∀ closed, Brackets.angle.reopenings closed rest = count) →
    Brackets.angle.reopenings false (oneLineRow ts ++ rest) = count
  | [], _, _, _, hrest => hrest false
  | t :: ts, rest, count, hts, hrest => by
    have hfurther := reopenings_oneLineFurther hts.2 hrest
    rw [oneLineRow, List.append_assoc, reopenings_oneLine hts.1 hfurther]

theorem reopenings_oneLineFurther : ∀ {ts : List Tree} {rest : Text} {count : Nat},
    TextsIn Brackets.angle.Plain ts →
    (∀ closed, Brackets.angle.reopenings closed rest = count) →
    ∀ closed, Brackets.angle.reopenings closed (oneLineFurther ts ++ rest) = count
  | [], _, _, _, hrest => hrest
  | t :: ts, rest, count, hts, hrest => by
    intro closed
    have hfurther := reopenings_oneLineFurther hts.2 hrest
    -- and so does the comma
    show Brackets.angle.reopenings false ((oneLine t ++ oneLineFurther ts) ++ rest) = count
    rw [List.append_assoc, reopenings_oneLine hts.1 hfurther]

end

theorem conventional_renderItems {root : Tree} (h : root.Texts Trimmed) :
    Conventional (root.renderItems .angle .compact) := by
  have hchildren := (texts_iff.mp h).2.1
  have hplain : TextsIn Brackets.angle.Plain root.children := hchildren.mono fun _ hs => hs.1
  rw [renderItems, renderRow_compact]
  refine ⟨(fitting_oneLineRow_iff hplain decides_none (by simp)).mpr fun u hu _ => ?_, ?_⟩
  · exact (hchildren.of_mem_preorderIn u hu).1.abuts
  · have hclosed : Brackets.angle.reopenings false (oneLineRow root.children ++ []) = 0 :=
      reopenings_oneLineRow hplain fun _ => rfl
    rwa [List.append_nil] at hclosed

end Tree

end TypeSignature
