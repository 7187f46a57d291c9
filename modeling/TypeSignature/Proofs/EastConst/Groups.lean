import TypeSignature.Proofs.Callable
import TypeSignature.Proofs.EastConst.Lists

/-!
# Groups — how deep a moved `const` stands

The types of a list are cut at the commas outside of angle brackets, so a type may begin inside of
one group in parentheses and end inside of another.  A `const` that is moved goes from where its
type begins to where it ends, and no other word changes its depth.
-/

namespace TypeSignature

open Text

/-- The word `const` begins the text, with no letter in front of it or behind it. -/
def beginsConst (letter : Char → Bool) (previous : Option Char) (s : Text) : Bool :=
  match s.afterLead? "const".toList with
  | some rest => !previous.any letter && !rest.head?.any letter
  | none => false

/-- How deep in parentheses each word `const` stands. -/
def constDepths (letter : Char → Bool) : (previous : Option Char) → (depth : Int) → Text → List Int
  | _, _, [] => []
  | previous, depth, c :: s =>
    (if beginsConst letter previous (c :: s) then [depth] else []) ++
      constDepths letter (some c) (depth + Brackets.round.nesting [c]) s

/-- How deep in parentheses each type begins and ends that a `const` is moved in. -/
def constMoves : (depth : Int) → List Text → List (Int × Int)
  | _, [] => []
  | depth, type :: types =>
    (if "const ".toList <+: type then [(depth, depth + Brackets.round.nesting type)] else []) ++
      constMoves (depth + Brackets.round.nesting type) types

/-- How deep in parentheses each word `const` of the texts stands, one behind the other. -/
def constDepthsIn (letter : Char → Bool) : (depth : Int) → List Text → List Int
  | _, [] => []
  | depth, s :: rest => constDepths letter none depth s ++
      constDepthsIn letter (depth + Brackets.round.nesting s) rest

variable {s t : Text} {c : Char}

/-! ## 1. Words -/

theorem nesting_round_trimSpaces (s : Text) :
    Brackets.round.nesting (trimSpaces s) = Brackets.round.nesting s := by
  have hvisible : Brackets.round.Visible := ⟨by decide, by decide, by decide⟩
  obtain ⟨head, tail, hhead, htail, hs⟩ := exists_trimSpaces s
  conv_rhs => rw [hs, Brackets.nesting_append, Brackets.nesting_append,
    Brackets.nesting_of_plain (hvisible.plain_of_blank hhead),
    Brackets.nesting_of_plain (hvisible.plain_of_blank htail), Int.zero_add, Int.add_zero]

theorem nesting_round_eastConst (s : Text) :
    Brackets.round.nesting (eastConst s) = Brackets.round.nesting s := by
  have hplain : ∀ m ∈ eastMoves, Brackets.round.Plain m.lead ∧ Brackets.round.Plain m.tail ∧
      Brackets.round.Plain m.east := by decide
  rcases eastConst_cases s with h | ⟨m, hm, name, hs, h⟩
  · rw [h]
  · obtain ⟨hlead, htail, heast⟩ := hplain m hm
    rw [h, hs]
    simp only [Brackets.nesting_append, Brackets.nesting_of_plain hlead,
      Brackets.nesting_of_plain htail, Brackets.nesting_of_plain heast, Int.zero_add, Int.add_zero]

section

variable {letter : Char → Bool} {previous : Option Char} {depth : Int}

theorem constDepths_cons (previous : Option Char) (depth : Int) (c : Char) (s : Text) :
    constDepths letter previous depth (c :: s)
      = (if beginsConst letter previous (c :: s) then [depth] else []) ++
        constDepths letter (some c) (depth + Brackets.round.nesting [c]) s := rfl

/-- No word reaches over a character that is no letter and not in the word. -/
theorem beginsConst_append_cons (hc : c ∉ "const".toList) (hletter : letter c = false) :
    beginsConst letter previous (s ++ c :: t) = beginsConst letter previous s := by
  unfold beginsConst
  cases hs : s.afterLead? "const".toList with
  | some rest =>
    rw [afterLead?_eq_some_iff] at hs
    have happend : (s ++ c :: t).afterLead? "const".toList = some (rest ++ c :: t) := by
      rw [afterLead?_eq_some_iff, hs, List.append_assoc]
    rw [happend]
    cases rest with
    | nil => simp [hletter]
    | cons d rest => rfl
  | none =>
    cases happend : (s ++ c :: t).afterLead? "const".toList with
    | none => rfl
    | some rest =>
      rw [afterLead?_eq_some_iff] at happend
      obtain ⟨rest, hword⟩ := prefix_of_prefix_append_cons hc ⟨_, happend.symm⟩
      rw [afterLead?_eq_some_iff.mpr hword.symm] at hs
      cases hs

theorem constDepths_of_not_letter (hletter : letter c = false) (depth : Int) (s : Text) :
    constDepths letter (some c) depth s = constDepths letter none depth s := by
  cases s with
  | nil => rfl
  | cons d s =>
    have hbegins : beginsConst letter (some c) (d :: s) = beginsConst letter none (d :: s) := by
      simp [beginsConst, hletter]
    rw [constDepths_cons, constDepths_cons, hbegins]

variable (hspace : letter ' ' = false) (hcomma : letter ',' = false)

include hspace hcomma

/-- The words of a text are those in front of a space or comma and those behind it. -/
theorem constDepths_append_cons (hc : c = ' ' ∨ c = ',') (s t : Text) (previous : Option Char)
    (depth : Int) : constDepths letter previous depth (s ++ c :: t)
      = constDepths letter previous depth s ++
        constDepths letter none (depth + Brackets.round.nesting s) t := by
  have hletter : letter c = false := by rcases hc with rfl | rfl <;> assumption
  have hword : c ∉ "const".toList := by rcases hc with rfl | rfl <;> decide
  have hnesting : Brackets.round.nesting [c] = 0 := by rcases hc with rfl | rfl <;> rfl
  induction s generalizing previous depth with
  | nil =>
    have hbegins : beginsConst letter previous ([] ++ c :: t) = false := by
      rw [beginsConst_append_cons hword hletter]
      rfl
    rw [List.nil_append] at hbegins
    rw [List.nil_append, constDepths_cons, hbegins, hnesting, constDepths_of_not_letter hletter]
    rfl
  | cons d s ih =>
    have hbegins : beginsConst letter previous (d :: (s ++ c :: t))
        = beginsConst letter previous (d :: s) :=
      beginsConst_append_cons (s := d :: s) hword hletter
    have hdepth : Brackets.round.nesting (d :: s)
        = Brackets.round.nesting [d] + Brackets.round.nesting s := Brackets.nesting_append _ [d] s
    rw [List.cons_append, constDepths_cons, constDepths_cons, ih, hbegins, hdepth,
      List.append_assoc, Int.add_assoc]

theorem constDepths_spaces_append {spaces : Text} (h : ∀ c ∈ spaces, c = ' ') (s : Text) :
    constDepths letter none depth (spaces ++ s) = constDepths letter none depth s := by
  induction spaces with
  | nil => rfl
  | cons c spaces ih =>
    obtain ⟨rfl, hrest⟩ := List.forall_mem_cons.mp h
    have hsplit := constDepths_append_cons hspace hcomma (.inl rfl) [] (spaces ++ s) none depth
    rw [Brackets.nesting_nil, Int.add_zero] at hsplit
    exact hsplit.trans (ih hrest)

theorem constDepths_append_spaces {spaces : Text} (h : ∀ c ∈ spaces, c = ' ') (s : Text) :
    constDepths letter none depth (s ++ spaces) = constDepths letter none depth s := by
  cases spaces with
  | nil => rw [List.append_nil]
  | cons c spaces =>
    obtain ⟨rfl, hrest⟩ := List.forall_mem_cons.mp h
    have hnone : constDepths letter none (depth + Brackets.round.nesting s) (spaces ++ []) = [] :=
      constDepths_spaces_append hspace hcomma hrest []
    rw [List.append_nil] at hnone
    rw [constDepths_append_cons hspace hcomma (.inl rfl), hnone, List.append_nil]

theorem constDepths_trimSpaces (s : Text) :
    constDepths letter none depth (trimSpaces s) = constDepths letter none depth s := by
  obtain ⟨head, tail, hhead, htail, hs⟩ := exists_trimWhere (· == ' ') s
  have hheads : ∀ c ∈ head, c = ' ' := fun c hc => eq_of_beq (hhead c hc)
  have htails : ∀ c ∈ tail, c = ' ' := fun c hc => eq_of_beq (htail c hc)
  conv_rhs => rw [hs, constDepths_spaces_append hspace hcomma hheads,
    constDepths_append_spaces hspace hcomma htails]
  rfl

/-! ## 2. One type -/

theorem constDepths_space_cons (s : Text) :
    constDepths letter none depth (' ' :: s) = constDepths letter none depth s := by
  have hspaces : ∀ c ∈ [' '], c = ' ' := fun c hc => List.mem_singleton.mp hc
  exact constDepths_spaces_append hspace hcomma hspaces s

theorem constDepths_append (ht : ∀ c ∈ t.head?, c = ' ') (s : Text) (depth : Int) :
    constDepths letter none depth (s ++ t) = constDepths letter none depth s ++
      constDepths letter none (depth + Brackets.round.nesting s) t := by
  cases t with
  | nil => rw [List.append_nil, constDepths, List.append_nil]
  | cons c t =>
    obtain rfl : c = ' ' := ht c rfl
    rw [constDepths_append_cons hspace hcomma (.inl rfl), constDepths_space_cons hspace hcomma]

theorem constDepths_const_append (ht : ∀ c ∈ t.head?, c = ' ') :
    constDepths letter none depth ("const".toList ++ t)
      = depth :: constDepths letter none depth t := by
  have hword : constDepths letter none depth "const".toList = [depth] := rfl
  have hnesting : Brackets.round.nesting "const".toList = 0 := rfl
  rw [constDepths_append hspace hcomma ht, hword, hnesting, Int.add_zero]
  rfl

/-- A lead has one word `const`. -/
theorem constDepths_lead {m : EastMove} (hm : m ∈ eastMoves) (s : Text) :
    constDepths letter none depth (m.lead ++ s) = depth :: constDepths letter none depth s := by
  have hstar : constDepths letter none depth ("*".toList ++ ' ' :: s)
      = constDepths letter none depth s := by
    have hnesting : Brackets.round.nesting "*".toList = 0 := rfl
    rw [constDepths_append_cons hspace hcomma (.inl rfl), hnesting, Int.add_zero]
    rfl
  rcases lead_of_mem_eastMoves m hm with hlead | hlead
  · have hs : "const ".toList ++ s = "const".toList ++ ' ' :: s := rfl
    rw [hlead, hs, constDepths_const_append hspace hcomma (by simp),
      constDepths_space_cons hspace hcomma]
  · have hs : "const * ".toList ++ s = "const".toList ++ ' ' :: ("*".toList ++ ' ' :: s) := rfl
    rw [hlead, hs, constDepths_const_append hspace hcomma (by simp),
      constDepths_space_cons hspace hcomma, hstar]

/-- What is written behind a name has one word `const` more than what stood there. -/
theorem constDepths_east {m : EastMove} (hm : m ∈ eastMoves) :
    constDepths letter none depth m.east = depth :: constDepths letter none depth m.tail := by
  have hends : ∀ m ∈ eastMoves, m.east = ' ' :: ("const".toList ++ m.tail) ∨
      m.tail = [] ∧ m.east = ' ' :: ("const".toList ++ " *".toList) := by decide
  rcases hends m hm with heast | ⟨htail, heast⟩
  · rw [heast, constDepths_space_cons hspace hcomma,
      constDepths_const_append hspace hcomma (fair_of_mem_eastMoves hm).tail_head]
  · rw [htail, heast, constDepths_space_cons hspace hcomma,
      constDepths_const_append hspace hcomma (by simp)]
    rfl

/-! ## 3. Lists -/

theorem constDepths_join {gap : Text} (hgap : ∀ c ∈ gap, c = ' ') (pieces : List Text) :
    constDepths letter none depth (join (',' :: gap) pieces)
      = constDepthsIn letter depth pieces := by
  induction pieces generalizing depth with
  | nil => rfl
  | cons piece pieces ih =>
    cases pieces with
    | nil => exact (List.append_nil _).symm
    | cons next rest =>
      rw [join_cons_cons, List.append_assoc, List.cons_append,
        constDepths_append_cons hspace hcomma (.inr rfl),
        constDepths_spaces_append hspace hcomma hgap, ih]
      rfl

theorem constDepthsIn_map_trimSpaces (pieces : List Text) :
    constDepthsIn letter depth (pieces.map trimSpaces) = constDepthsIn letter depth pieces := by
  induction pieces generalizing depth with
  | nil => rfl
  | cons piece pieces ih =>
    rw [List.map_cons, constDepthsIn, constDepths_trimSpaces hspace hcomma,
      nesting_round_trimSpaces, ih, constDepthsIn]

/-- The words of a text are those of its types, one behind the other. -/
theorem constDepths_eq_constDepthsIn (s : Text) :
    constDepths letter none depth s = constDepthsIn letter depth (splitTypes s) := by
  have hnone : ∀ c ∈ ([] : Text), c = ' ' := by simp
  have hpieces : constDepths letter none depth (join [','] (Brackets.angle.piecesFrom 0 s))
      = constDepthsIn letter depth (Brackets.angle.piecesFrom 0 s) :=
    constDepths_join hspace hcomma hnone _
  have hjoin : join [','] (Brackets.angle.piecesFrom 0 s) = s := Brackets.join_piecesFrom .angle 0 s
  rw [hjoin] at hpieces
  rw [hpieces, splitTypes, Brackets.split, constDepthsIn_map_trimSpaces hspace hcomma]

/-- A `const` is moved from the depth where its type begins to the depth where it ends. -/
theorem count_constDepths_eastConst (s : Text) (depth level : Int) :
    (constDepths letter none depth (eastConst s)).count level +
        (if "const ".toList <+: s then [depth] else []).count level
      = (constDepths letter none depth s).count level +
        (if "const ".toList <+: s then [depth + Brackets.round.nesting s] else []).count level := by
  have hnesting := nesting_round_eastConst s
  rcases eastConst_shapes s with ⟨hstarts, h⟩ | ⟨m, hm, name, hs, h⟩
  · rw [h, if_neg hstarts, if_neg hstarts]
  · have hstarts : "const ".toList <+: s := by
      rw [hs]
      rcases lead_of_mem_eastMoves m hm with hlead | hlead
      · exact ⟨name ++ m.tail, by rw [hlead]⟩
      · exact ⟨"* ".toList ++ (name ++ m.tail), by rw [hlead]; rfl⟩
    have hfair := fair_of_mem_eastMoves hm
    have heastHead : ∀ c ∈ m.east.head?, c = ' ' := by
      obtain ⟨ending, hending⟩ := hfair.east_head
      rw [← hending]
      simp
    have hname : Brackets.round.nesting s = Brackets.round.nesting name := by
      have heast : ∀ m ∈ eastMoves, Brackets.round.Plain m.east := by decide
      rw [← hnesting, h, Brackets.nesting_append, Brackets.nesting_of_plain (heast m hm),
        Int.add_zero]
    have hfrom : constDepths letter none depth s = depth :: (constDepths letter none depth name ++
        constDepths letter none (depth + Brackets.round.nesting name) m.tail) := by
      rw [hs, constDepths_lead hspace hcomma hm, constDepths_append hspace hcomma hfair.tail_head]
    have hto : constDepths letter none depth (eastConst s) = constDepths letter none depth name ++
        (depth + Brackets.round.nesting name) ::
          constDepths letter none (depth + Brackets.round.nesting name) m.tail := by
      rw [h, constDepths_append hspace hcomma heastHead, constDepths_east hspace hcomma hm]
    rw [if_pos hstarts, if_pos hstarts, hfrom, hto, hname]
    simp only [List.count_append, List.count_cons, List.count_nil]
    omega

theorem count_constDepthsIn_eastConst (types : List Text) (depth level : Int) :
    (constDepthsIn letter depth (types.map eastConst)).count level +
        ((constMoves depth types).map Prod.fst).count level
      = (constDepthsIn letter depth types).count level +
        ((constMoves depth types).map Prod.snd).count level := by
  induction types generalizing depth with
  | nil => rfl
  | cons type types ih =>
    have htype := count_constDepths_eastConst hspace hcomma type depth level
    have hrest := ih (depth + Brackets.round.nesting type)
    rw [List.map_cons, constDepthsIn, nesting_round_eastConst, constDepthsIn, constMoves]
    by_cases hstarts : "const ".toList <+: type
    · rw [if_pos hstarts] at htype ⊢
      rw [if_pos hstarts] at htype
      simp only [List.singleton_append, List.map_cons, List.count_append, List.count_cons,
        List.count_nil] at htype ⊢
      omega
    · rw [if_neg hstarts] at htype ⊢
      rw [if_neg hstarts] at htype
      simp only [List.nil_append, List.count_append, List.count_nil] at htype ⊢
      omega

end

/-- **Groups.**  Moving `const` in the types of a list keeps how many words `const` stand at each
depth in parentheses exactly when the types it moves in begin at the depths at which they end. -/
theorem count_constDepths_eastConstList_iff (letter : Char → Bool) (hspace : letter ' ' = false)
    (hcomma : letter ',' = false) (s : Text) :
    (∀ depth, (constDepths letter none 0 (eastConstList s)).count depth
        = (constDepths letter none 0 s).count depth) ↔
      ((constMoves 0 (splitTypes s)).map Prod.fst).Perm
        ((constMoves 0 (splitTypes s)).map Prod.snd) := by
  have hspaces : ∀ c ∈ [' '], c = ' ' := fun c hc => List.mem_singleton.mp hc
  have hmoved : constDepths letter none 0 (eastConstList s)
      = constDepthsIn letter 0 ((splitTypes s).map eastConst) :=
    constDepths_join hspace hcomma hspaces _
  rw [List.perm_iff_count, hmoved, constDepths_eq_constDepthsIn hspace hcomma s]
  refine forall_congr' fun depth => ?_
  have hcount := count_constDepthsIn_eastConst hspace hcomma (splitTypes s) 0 depth
  omega

/-- ASCII letters, digits and the underscore. -/
def isWordChar (c : Char) : Bool := c.isAlphanum || c == '_'

/-- One `const` is moved into a group and another one out of it, so no depth has a word less. -/
theorem count_constDepths_eastConstList_iff_crossed :
    isWordChar ' ' = false ∧ isWordChar ',' = false ∧
    eastConstList "const void(int, const char)".toList = "void(int const, char) const".toList ∧
    constMoves 0 (splitTypes "const void(int, const char)".toList) = [(0, 1), (1, 0)] ∧
    ∀ depth, (constDepths isWordChar none 0
          (eastConstList "const void(int, const char)".toList)).count depth
        = (constDepths isWordChar none 0 "const void(int, const char)".toList).count depth := by
  have hspace : isWordChar ' ' = false := by decide
  have hcomma : isWordChar ',' = false := by decide
  have hmoves : constMoves 0 (splitTypes "const void(int, const char)".toList)
      = [(0, 1), (1, 0)] := by decide
  refine ⟨hspace, hcomma, by decide, hmoves, ?_⟩
  rw [count_constDepths_eastConstList_iff isWordChar hspace hcomma, hmoves]
  exact List.Perm.swap 1 0 []

/-- A parameter of a function is a type of its own where parentheses are not counted, and so is the
text up to the parenthesis behind it. -/
theorem eastConstList_leaves_group :
    canonicalSpacing "void(int, const char)".toList = "void(int, const char)".toList ∧
    Brackets.angle.levelAfter true 0 "void(int, const char)".toList = some 0 ∧
    BalancedGroups "void(int, const char)".toList ∧
    eastConstList "void(int, const char)".toList = "void(int, char) const".toList ∧
    constDepths isWordChar none 0 "void(int, const char)".toList = [1] ∧
    constDepths isWordChar none 0 (eastConstList "void(int, const char)".toList) = [0] := by
  refine ⟨?_, ?_, ?_, ?_, ?_, ?_⟩ <;> decide +kernel

end TypeSignature
