import Mathlib.Data.List.Forall2
import TypeSignature.Proofs.Tree.Canonical
import TypeSignature.Proofs.Tree.OneLine

/-!
# Names — where a line has the names of a tree's nodes

On one line a node begins at the start, behind an opening bracket or behind a comma, and its name
goes on to the next structural character.  In front of a group that is the left text.  A node
without a group has its right text there as well, so what is read back as the name may be either of
the two.  Gaps inside of a name keep it from being one word.
-/

namespace TypeSignature

open Text

/-! ## 1. The names in marks -/

/-- The marks in front of the first structural character. -/
def firstName (ms : List Mark) : List Mark :=
  ms.takeWhile fun m => Brackets.angle.role m.char = .text

/-- What stands behind each opening bracket and each comma, up to the next structural character. -/
def laterNames : List Mark → List (List Mark)
  | [] => []
  | m :: ms =>
    match Brackets.angle.role m.char with
    | .opening => firstName ms :: laterNames ms
    | .separator => firstName ms :: laterNames ms
    | .closing => laterNames ms
    | .text => laterNames ms

def names (ms : List Mark) : List (List Mark) := firstName ms :: laterNames ms

variable {ms ns : List Mark} {m : Mark}

theorem firstName_cons_of_text (hm : Brackets.angle.role m.char = .text) (ms : List Mark) :
    firstName (m :: ms) = m :: firstName ms := by
  unfold firstName
  rw [List.takeWhile_cons_of_pos (by simp [hm])]

theorem firstName_cons_of_structural (hm : Brackets.angle.role m.char ≠ .text) (ms : List Mark) :
    firstName (m :: ms) = [] := by
  unfold firstName
  rw [List.takeWhile_cons_of_neg (by simp [hm])]

theorem names_append_of_plain (hms : ∀ m ∈ ms, Brackets.angle.role m.char = .text)
    (ns : List Mark) : names (ms ++ ns) = (ms ++ firstName ns) :: laterNames ns := by
  induction ms with
  | nil => rfl
  | cons m ms ih =>
    obtain ⟨hm, hms⟩ := List.forall_mem_cons.mp hms
    have hlater : laterNames (m :: (ms ++ ns)) = laterNames (ms ++ ns) := by
      rw [laterNames, hm]
    have hrest := List.cons.inj (ih hms)
    rw [List.cons_append, names, firstName_cons_of_text hm, hlater, hrest.1, hrest.2,
      List.cons_append]

theorem firstName_append (hns : firstName ns = []) (ms : List Mark) :
    firstName (ms ++ ns) = firstName ms := by
  induction ms with
  | nil => exact hns
  | cons m ms ih =>
    rw [List.cons_append]
    by_cases hm : Brackets.angle.role m.char = .text
    · rw [firstName_cons_of_text hm, firstName_cons_of_text hm, ih]
    · rw [firstName_cons_of_structural hm, firstName_cons_of_structural hm]

theorem laterNames_append (hns : firstName ns = []) (ms : List Mark) :
    laterNames (ms ++ ns) = laterNames ms ++ laterNames ns := by
  induction ms with
  | nil => rfl
  | cons m ms ih =>
    rw [List.cons_append, laterNames, laterNames, firstName_append hns, ih]
    cases Brackets.angle.role m.char <;> rfl

/-- A structural character ends a name. -/
theorem names_append (hns : firstName ns = []) (ms : List Mark) :
    names (ms ++ ns) = names ms ++ laterNames ns := by
  unfold names
  rw [firstName_append hns, laterNames_append hns]
  rfl

variable {previous : Option Char} {spaced : Bool} {s name : Text}

theorem role_of_mem_settled (previous : Option Char) (spaced : Bool)
    (hs : Brackets.angle.Plain s) :
    ∀ m ∈ settled previous spaced s, Brackets.angle.role m.char = .text := by
  intro m hm
  have hchar : m.char ∈ (settled previous spaced s).map Mark.char := List.mem_map_of_mem hm
  rw [map_char_settled] at hchar
  exact hs m.char (List.mem_of_mem_filter hchar)

namespace Tree

/-! ## 2. The names of nodes -/

/-- What stands in the place of the name when the node is on one line. -/
def nameText : Tree → Text
  | ⟨left, [], right⟩ => left ++ behindGroup right
  | ⟨left, _ :: _, _⟩ => left

/-- The marks are those of the node's name, wherever it stands. -/
def Named (t : Tree) (ms : List Mark) : Prop :=
  ∃ previous spaced, ms = settled previous spaced t.nameText

theorem firstName_settled_further (previous : Option Char) (spaced : Bool) (ts : List Tree) :
    firstName (settled previous spaced (oneLineFurther ts)) = [] := by
  cases ts with
  | nil => rfl
  | cons t ts =>
    rw [oneLineFurther, settled_cons_of_visible (by decide)]
    exact firstName_cons_of_structural (by decide : Brackets.angle.role ',' ≠ .text) _

theorem mem_preorderIn_iff {ts : List Tree} {u : Tree} :
    u ∈ preorderIn ts ↔ ∃ t ∈ ts, u ∈ t.preorder := by
  induction ts with
  | nil => simp [preorderIn]
  | cons t ts ih => rw [preorderIn, List.mem_append, ih, List.exists_mem_cons_iff]

theorem Scan.canonical_of_outcomes {b : Brackets} {afterStructural : Bool} {pieces : List Text}
    {ts : List Tree} (h : (item afterStructural).outcomes b true pieces = .ok ts) :
    ∀ t ∈ ts, Canonical b t := by
  induction pieces generalizing afterStructural ts with
  | nil =>
    cases h
    simp
  | cons piece pieces ih =>
    obtain ⟨t, rest, ht, hrest, rfl⟩ := outcomes_cons_eq_ok_iff.mp h
    exact List.forall_mem_cons.mpr ⟨canonical_of_outcome ht, ih hrest⟩

/-- Where a text was read as a list, only nodes with a group have a right text. -/
theorem nodeCanonical_of_parseList {s : Text} {root : Tree}
    (h : parseList .angle true s = .ok root) :
    ∀ u ∈ root.descendants, NodeCanonical .angle u := by
  intro u hu
  obtain ⟨t, ht, hu⟩ := mem_preorderIn_iff.mp hu
  have houtcomes :=
    ((parseList_eq_ok_iff_outcomes Brackets.visible_angle Brackets.distinct_angle).mp h).1
  exact (Scan.canonical_of_outcomes houtcomes t ht).node u hu

theorem NodeCanonical.nameText_eq {u : Tree} (h : NodeCanonical .angle u) :
    u.nameText = u.left := by
  obtain ⟨left, children, right⟩ := u
  cases children with
  | nil =>
    have hright : right = [] := h.right_of_leaf rfl
    rw [hright]
    exact List.append_nil left
  | cons child children => rfl

mutual

/-- The names on the line of a tree are those of its nodes, in the same order. -/
theorem forall₂_named_oneLine : ∀ {t : Tree} (previous : Option Char) (spaced : Bool),
    t.Texts Brackets.angle.Plain →
    List.Forall₂ Named t.preorder (names (settled previous spaced t.oneLine))
  | ⟨left, [], right⟩, previous, spaced, ht => by
    have hplain : Brackets.angle.Plain (left ++ behindGroup right) :=
      List.forall_mem_append.mpr ⟨ht.1, plain_behindGroup ht.2.2⟩
    have hnames := names_append_of_plain (role_of_mem_settled previous spaced hplain) []
    rw [List.append_nil] at hnames
    rw [oneLine_leaf, hnames, preorder, preorderIn]
    exact .cons ⟨previous, spaced, List.append_nil _⟩ .nil
  | ⟨left, child :: children, right⟩, previous, spaced, ht => by
    have hopening : Brackets.angle.role '<' ≠ .text := by decide
    have hclosing : Brackets.angle.role '>' ≠ .text := by decide
    have hrow := forall₂_named_oneLineRow (some '<') false (List.cons_ne_nil child children) ht.2.1
    -- the closing bracket ends the last name of the row, and the right text behind it is none
    have hright := names_append_of_plain
      (role_of_mem_settled (some '>') false (plain_behindGroup ht.2.2)) []
    rw [List.append_nil] at hright
    have hlater := (List.cons.inj hright).2
    rw [oneLine_group, settled_append, names_append_of_plain (role_of_mem_settled _ _ ht.1),
      settled_cons_of_visible (by decide), firstName_cons_of_structural hopening, List.append_nil,
      preorder]
    refine .cons ⟨previous, spaced, rfl⟩ ?_
    show List.Forall₂ Named _ (names (settled (some '<') false _))
    rw [settled_append, settled_cons_of_visible (by decide),
      names_append (firstName_cons_of_structural hclosing _)]
    show List.Forall₂ Named _ (_ ++ laterNames (settled (some '>') false (behindGroup right)))
    rw [hlater]
    show List.Forall₂ Named _ (_ ++ [])
    rwa [List.append_nil]

theorem forall₂_named_oneLineRow : ∀ {ts : List Tree} (previous : Option Char) (spaced : Bool),
    ts ≠ [] → TextsIn Brackets.angle.Plain ts →
    List.Forall₂ Named (preorderIn ts) (names (settled previous spaced (oneLineRow ts)))
  | [], _, _, hne, _ => absurd rfl hne
  | t :: ts, previous, spaced, _, hts => by
    rw [oneLineRow, settled_append, names_append (firstName_settled_further _ _ ts), preorderIn]
    exact List.rel_append (forall₂_named_oneLine previous spaced hts.1)
      (forall₂_named_oneLineFurther _ _ hts.2)

theorem forall₂_named_oneLineFurther : ∀ {ts : List Tree} (previous : Option Char) (spaced : Bool),
    TextsIn Brackets.angle.Plain ts →
    List.Forall₂ Named (preorderIn ts) (laterNames (settled previous spaced (oneLineFurther ts)))
  | [], _, _, _ => .nil
  | t :: ts, previous, spaced, hts => by
    rw [oneLineFurther, settled_cons_of_visible (by decide), settled_space_cons, preorderIn]
    show List.Forall₂ Named _ (names (settled (some ',') true _))
    rw [settled_append, names_append (firstName_settled_further _ _ ts)]
    exact List.rel_append (forall₂_named_oneLine _ true hts.1)
      (forall₂_named_oneLineFurther _ _ hts.2)

end

end Tree

/-! ## 3. Words -/

/-- The characters that reading or canonical spacing has a rule for. -/
def ruledChars : List Char := ['<', '>', ',', '&', '*', '(', ')', '[', ']']

/-- A text without white space and without punctuation that has a rule. -/
structure IsWord (s : Text) : Prop where
  nonempty : s ≠ []
  visible : ∀ c ∈ s, isBlank c = false
  unruled : ∀ c ∈ s, c ∉ ruledChars

instance (s : Text) : Decidable (IsWord s) :=
  have := List.decidableBAll (isBlank · = false) s
  have := List.decidableBAll (· ∉ ruledChars) s
  decidable_of_iff (s ≠ [] ∧ (∀ c ∈ s, isBlank c = false) ∧ ∀ c ∈ s, c ∉ ruledChars)
    ⟨fun ⟨hne, hvisible, hunruled⟩ => ⟨hne, hvisible, hunruled⟩,
      fun h => ⟨h.nonempty, h.visible, h.unruled⟩⟩

theorem toNat_of_isAlphanum {c : Char} (hc : c.isAlphanum = true) :
    (48 ≤ c.toNat ∧ c.toNat ≤ 57) ∨ (65 ≤ c.toNat ∧ c.toNat ≤ 90) ∨
      (97 ≤ c.toNat ∧ c.toNat ≤ 122) := by
  have hcases : (decide (65 ≤ c.val ∧ c.val ≤ 90) || (97 ≤ c.val && c.val ≤ 122) ||
      (48 ≤ c.val && c.val ≤ 57)) = true := hc
  simp only [UInt32.le_iff_toNat_le, UInt32.reduceToNat, Char.toNat_val, Bool.or_eq_true,
    Bool.and_eq_true, decide_eq_true_eq] at hcases
  omega

theorem isWord_of_isAlphanum (hne : s ≠ [])
    (h : ∀ c ∈ s, c.isAlphanum = true ∨ c = '_' ∨ c = ':') : IsWord s := by
  refine ⟨hne, fun c hc => ?_, fun c hc => ?_⟩
  · rcases h c hc with halpha | rfl | rfl
    · have hrange := toNat_of_isAlphanum halpha
      simp [isBlank, blankRanges]
      omega
    · decide
    · decide
  · rcases h c hc with halpha | rfl | rfl
    · have hrange := toNat_of_isAlphanum halpha
      intro hruled
      simp only [ruledChars, List.mem_cons, List.not_mem_nil, or_false] at hruled
      rcases hruled with rfl | rfl | rfl | rfl | rfl | rfl | rfl | rfl | rfl <;> simp at hrange
    · decide
    · decide

/-- The marks are those of the word, wherever it stands. -/
def Spell (ms : List Mark) (word : Text) : Prop :=
  ms.map Mark.char = word ∧ ∀ m ∈ ms.tail, m.spaced = false

theorem spaceBetween_of_unruled {x y : Char} (hx : x ∉ ruledChars) (hy : y ∉ ruledChars)
    (spaced : Bool) : spaceBetween x y spaced = spaced := by
  unfold ruledChars at hx hy
  unfold spaceBetween
  grind

theorem getLast_of_cons {p : Char → Prop} {c : Char} (h : ∀ d ∈ (c :: s).getLast?, p d) :
    ∀ d ∈ s.getLast?, p d := by
  intro d hd
  apply h
  rw [List.getLast?_cons, Option.mem_def.mp hd]
  rfl

section

variable {x : Char} (hx : x ∉ ruledChars)

include hx

/-- Where no mark behind a character of a word is spaced, the text has no white space. -/
theorem nonblank_of_unspaced (hs : ∀ c ∈ nonblank s, c ∉ ruledChars)
    (hlast : ∀ c ∈ s.getLast?, isBlank c = false)
    (h : ∀ m ∈ settled (some x) spaced s, m.spaced = false) :
    nonblank s = s ∧ (s = [] ∨ spaced = false) := by
  induction s generalizing x spaced with
  | nil => exact ⟨rfl, .inl rfl⟩
  | cons c s ih =>
    by_cases hc : isBlank c
    · -- the next character would be spaced, and white space does not end the text
      have hspaced : ∀ m ∈ settled (some x) true s, m.spaced = false := by
        rwa [settled, marks_cons_of_blank _ hc] at h
      rw [nonblank_cons_of_blank hc] at hs
      obtain ⟨-, rfl | hfalse⟩ := ih hx hs (getLast_of_cons hlast) hspaced
      · exact absurd (hlast c rfl) (by simp [hc])
      · cases hfalse
    · have hc : isBlank c = false := by simpa using hc
      rw [nonblank_cons_of_visible hc] at hs ⊢
      obtain ⟨hunruled, hs⟩ := List.forall_mem_cons.mp hs
      rw [settled_cons_of_visible hc, List.forall_mem_cons] at h
      have hgap : spaced = false := (spaceBetween_of_unruled hx hunruled spaced).symm.trans h.1
      have hsame := (ih hunruled hs (getLast_of_cons hlast) h.2).1
      exact ⟨congrArg (List.cons c) hsame, .inr hgap⟩

theorem unspaced_of_visible (hvisible : ∀ c ∈ s, isBlank c = false) (hs : ∀ c ∈ s, c ∉ ruledChars) :
    ∀ m ∈ settled (some x) false s, m.spaced = false := by
  induction s generalizing x with
  | nil => simp [settled, respace]
  | cons c s ih =>
    obtain ⟨hc, hvisible⟩ := List.forall_mem_cons.mp hvisible
    obtain ⟨hunruled, hs⟩ := List.forall_mem_cons.mp hs
    rw [settled_cons_of_visible hc, List.forall_mem_cons]
    exact ⟨spaceBetween_of_unruled hx hunruled false, ih hunruled hvisible hs⟩

end

theorem spell_settled_iff_of_trimmed (hword : IsWord name)
    (hhead : ∀ c ∈ s.head?, isBlank c = false) (hlast : ∀ c ∈ s.getLast?, isBlank c = false) :
    Spell (settled previous spaced s) name ↔ s = name := by
  obtain ⟨hne, hvisible, hunruled⟩ := hword
  cases s with
  | nil =>
    show [] = name ∧ _ ↔ [] = name
    exact and_iff_left_of_imp fun h => absurd h.symm hne
  | cons c s =>
    have hc : isBlank c = false := hhead c rfl
    have hchars : (settled previous spaced (c :: s)).map Mark.char = c :: nonblank s := by
      rw [map_char_settled, nonblank_cons_of_visible hc]
    have htail : (settled previous spaced (c :: s)).tail = settled (some c) false s := by
      rw [settled_cons_of_visible hc]
      rfl
    rw [Spell, hchars, htail]
    constructor
    · rintro ⟨rfl, hgaps⟩
      obtain ⟨hfirst, hunruled⟩ := List.forall_mem_cons.mp hunruled
      rw [(nonblank_of_unspaced hfirst hunruled (getLast_of_cons hlast) hgaps).1]
    · rintro rfl
      obtain ⟨hfirst, hunruled⟩ := List.forall_mem_cons.mp hunruled
      have hvisible := (List.forall_mem_cons.mp hvisible).2
      rw [nonblank_of_visible hvisible]
      exact ⟨rfl, unspaced_of_visible hfirst hvisible hunruled⟩

/-- A text is a word, but for white space around it, exactly when its settled marks spell it. -/
theorem spell_settled_iff (hword : IsWord name) :
    Spell (settled previous spaced s) name ↔ trimBlanks s = name := by
  obtain ⟨head, tail, hhead, htail, hs⟩ := exists_trimWhere isBlank s
  have hcore : settled previous spaced s
      = settled previous (spaced || !head.isEmpty) (trimBlanks s) := by
    conv_lhs => rw [hs]
    rw [settled_blanks_append hhead, settled_append_blanks _ htail]
    rfl
  rw [hcore]
  exact spell_settled_iff_of_trimmed hword (head_trimWhere isBlank s) (getLast_trimWhere isBlank s)

namespace Tree

theorem exists_spell_iff_of_named {us : List Tree} {runs : List (List Mark)}
    (h : List.Forall₂ Named us runs) (hword : IsWord name) :
    (∃ ms ∈ runs, Spell ms name) ↔ ∃ u ∈ us, trimBlanks u.nameText = name := by
  induction h with
  | nil => simp
  | cons hnamed _ ih =>
    obtain ⟨previous, spaced, rfl⟩ := hnamed
    rw [List.exists_mem_cons_iff, List.exists_mem_cons_iff, ih, spell_settled_iff hword]

/-- A word is a name on the line of a row exactly when it stands in the place of the name of one of
its nodes. -/
theorem exists_spell_iff {ts : List Tree} (h : TextsIn Brackets.angle.Plain ts)
    (hword : IsWord name) :
    (∃ ms ∈ names (settled previous spaced (oneLineRow ts)), Spell ms name) ↔
      ∃ u ∈ preorderIn ts, trimBlanks u.nameText = name := by
  by_cases hts : ts = []
  · -- the line of no nodes has one name, which is no word
    subst hts
    have hnone : ¬ Spell [] name := fun hspell => hword.nonempty hspell.1.symm
    show (∃ ms ∈ [[]], Spell ms name) ↔ ∃ u ∈ [], _
    simp [hnone]
  · exact exists_spell_iff_of_named (forall₂_named_oneLineRow previous spaced hts h) hword

/-- Rows whose lines come to the same canonical spacing have the same words for names. -/
theorem exists_nameText_congr {ts us : List Tree} (hts : TextsIn Brackets.angle.Plain ts)
    (hus : TextsIn Brackets.angle.Plain us) (hword : IsWord name)
    (h : canonicalSpacing (oneLineRow ts) = canonicalSpacing (oneLineRow us)) :
    (∃ u ∈ preorderIn ts, trimBlanks u.nameText = name) ↔
      ∃ u ∈ preorderIn us, trimBlanks u.nameText = name := by
  have hgaps : settled none false (oneLineRow ts) = settled none false (oneLineRow us) := by
    rw [← settled_canonicalSpacing (oneLineRow ts), h, settled_canonicalSpacing]
  rw [← exists_spell_iff hts hword, hgaps]
  exact exists_spell_iff hus hword

end Tree

end TypeSignature
