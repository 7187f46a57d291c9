import TypeSignature.Proofs.Cleaning.Items
import TypeSignature.Proofs.EastConst.Lists
import TypeSignature.Proofs.Gaps

/-!
# Spacing — where a moved `const` is spaced canonically

A moved `const` stands behind a space, and behind each comma of a list one space is written.  Both
spaces are as canonical spacing wants them unless a bracket on one side wants none, and the comma of
an item without text has none either.
-/

namespace TypeSignature

open Text

/-- The characters that want no space behind them. -/
def tightBehind : List Char := ['(', ')', '<', '[']

/-- The characters that want no space in front of them. -/
def tightBefore : List Char := ['(', ')', '>', ']']

variable {s t : Text} {x y : Char}

theorem spaceBetween_const (x : Char) : spaceBetween x 'c' true = true ↔ x ∉ tightBehind := by
  unfold spaceBetween tightBehind
  grind

theorem spaceBetween_comma (y : Char) (spaced : Bool) :
    spaceBetween ',' y spaced = true ↔ y ≠ ',' ∧ y ∉ tightBefore := by
  unfold spaceBetween tightBefore
  grind

theorem not_tightBefore_of_allows (h : Allows x y true) (hx : x ≠ ']') : y ∉ tightBefore := by
  rcases h with ⟨rfl, hdoubles⟩ | hgap
  · rcases hdoubles with rfl | rfl <;> decide
  · unfold spaceBetween at hgap
    unfold tightBefore
    grind

/-! ## 1. One type -/

theorem CanonicallySpaced.not_tightBefore (h : CanonicallySpaced (s ++ ' ' :: t))
    (hs : s.getLast? ≠ some ']') : ∀ y ∈ t.head?, y ∉ tightBefore := by
  intro y hy
  obtain ⟨x, y', hx, hy', -, -, hgap⟩ := h.admits rfl
  obtain rfl : y' = y := Option.some.inj (hy'.symm.trans hy)
  refine not_tightBefore_of_allows hgap ?_
  rintro rfl
  exact hs hx

theorem CanonicallySpaced.behind_const (h : CanonicallySpaced ("const".toList ++ ' ' :: s)) :
    CanonicallySpaced s := by
  change CanonicallySpaced ('c' :: 'o' :: 'n' :: 's' :: 't' :: ' ' :: s) at h
  cases h with
  | cons _ hc =>
    have ho := hc.behind_char (by decide) (by decide)
    have hn := ho.behind_char (by decide) (by decide)
    have hs := hn.behind_char (by decide) (by decide)
    have ht := hs.behind_char (by decide) (by decide)
    exact ht.behind_space

section

variable {m : EastMove} {name : Text} (hm : m ∈ eastMoves)

include hm

/-- A lead ends in a gap, behind which a canonically spaced text begins. -/
theorem canonicallySpaced_behind_lead (h : CanonicallySpaced (m.lead ++ s)) :
    CanonicallySpaced s ∧ ∀ y ∈ s.head?, y ∉ tightBefore := by
  rcases lead_of_mem_eastMoves m hm with hlead | hlead
  · have hs : m.lead ++ s = "const".toList ++ ' ' :: s := by rw [hlead]; rfl
    rw [hs] at h
    exact ⟨h.behind_const, h.not_tightBefore (by decide)⟩
  · have hs : m.lead ++ s = "const *".toList ++ ' ' :: s := by rw [hlead]; rfl
    rw [hs] at h
    have hstar : CanonicallySpaced ('*' :: ' ' :: s) := h.behind_const
    cases hstar with
    | cons _ hrest => exact ⟨hrest.behind_space, h.not_tightBefore (by decide)⟩

theorem canonicallySpaced_name (ht : CanonicallySpaced t)
    (hname : t = m.lead ++ (name ++ m.tail)) :
    CanonicallySpaced name ∧ ∃ y, name.head? = some y ∧ y ∉ tightBefore := by
  have hfair := fair_of_mem_eastMoves hm
  have htidy : Tidy t := by
    rw [← ht.canonicalSpacing_eq]
    exact tidy_canonicalSpacing t
  rw [hname] at ht
  obtain ⟨hspaced, hhead⟩ := canonicallySpaced_behind_lead hm ht
  obtain ⟨y, rest, hy⟩ := List.exists_cons_of_ne_nil (hfair.name_ne_nil htidy hname)
  refine ⟨?_, y, by rw [hy]; rfl, hhead y (by rw [hy]; rfl)⟩
  -- the name ends the text or stands in front of the tail's space
  cases htail : m.tail with
  | nil =>
    rw [htail, List.append_nil] at hspaced
    exact hspaced
  | cons c tail =>
    obtain rfl : c = ' ' := hfair.tail_head c (by rw [htail]; rfl)
    rw [htail] at hspaced
    obtain ⟨x, -, hx, -, hvisible, -⟩ := hspaced.admits rfl
    refine hspaced.left fun c hc => ?_
    rwa [← Option.some.inj (hx.symm.trans hc)]

theorem canonicalSpacing_append_east (h : CanonicallySpaced name) (hlast : name.getLast? = some x)
    (hx : x ∉ tightBehind) : canonicalSpacing (name ++ m.east) = name ++ m.east := by
  have hwords : ∀ m ∈ eastMoves, canonicalSpacing m.east.tail = m.east.tail := by decide +kernel
  obtain ⟨ending, hending⟩ := (fair_of_mem_eastMoves hm).east_head
  have hword := hwords m hm
  rw [← hending] at hword
  change canonicalSpacing ('c' :: ending) = 'c' :: ending at hword
  have hvisible : (nonblank (name ++ [' '])).getLast? = some x := by
    have hblank : nonblank [' '] = [] := nonblank_singleton_of_blank isBlank_space
    rw [nonblank_append, hblank, List.append_nil, ← getLast?_canonicalSpacing,
      h.canonicalSpacing_eq, hlast]
  have hspaced : endsSpaced false (name ++ [' ']) = true := by
    rw [endsSpaced_append, endsSpaced, isBlank_space, endsSpaced]
  have hsingle : ¬ Doubles x 'c' := by
    rintro ⟨rfl, hdoubles⟩
    exact absurd hdoubles (by decide)
  have hsplit := canonicalSpacing_append_cons hvisible (by decide) hsingle ending
  rw [canonicalSpacing_append_blanks name isBlank_of_mem_space, h.canonicalSpacing_eq, hspaced,
    (spaceBetween_const x).mpr hx, hword] at hsplit
  rw [← hending]
  simpa using hsplit

end

/-- Moving `const` in a canonically spaced type leaves it so, unless the name ends in a character
that wants no space behind it. -/
theorem canonicalSpacing_eastConst_iff (ht : CanonicallySpaced t) :
    canonicalSpacing (eastConst t) = eastConst t ↔
      ∀ x ∈ tightBehind, ¬ x :: " const".toList <:+: eastConst t := by
  constructor
  · rintro h x hx ⟨u, v, huv⟩
    have hspaced := canonicalSpacing_eq_self_iff.mp h
    have hs : eastConst t = (u ++ [x]) ++ ' ' :: ("const".toList ++ v) := by
      rw [← huv]
      simp
    obtain ⟨x', y, hlast, hhead, -, -, hgap⟩ := hspaced.admits hs
    rw [List.getLast?_concat] at hlast
    obtain rfl : x = x' := Option.some.inj hlast
    obtain rfl : 'c' = y := Option.some.inj hhead
    rcases hgap with ⟨rfl, hdoubles⟩ | hgap
    · exact absurd hdoubles (by decide)
    · exact (spaceBetween_const x).mp hgap hx
  · intro h
    rcases eastConst_cases t with hsame | ⟨m, hm, name, hname, hmoved⟩
    · rw [hsame, ht.canonicalSpacing_eq]
    · obtain ⟨hspaced, y, hhead, -⟩ := canonicallySpaced_name hm ht hname
      have hwords : ∀ m ∈ eastMoves, " const".toList <+: m.east := by decide
      obtain ⟨ending, hending⟩ := hwords m hm
      rcases List.eq_nil_or_concat name with rfl | ⟨init, x, rfl⟩
      · cases hhead
      · rw [List.concat_eq_append] at *
        rw [hmoved]
        refine canonicalSpacing_append_east hm hspaced List.getLast?_concat fun hx => ?_
        refine h x hx ⟨init, ending, ?_⟩
        rw [hmoved, ← hending]
        simp

/-! ## 2. Lists -/

/-- The types of a canonically spaced list are canonically spaced. -/
theorem canonicallySpaced_of_mem_splitTypes (hs : CanonicallySpaced s) (ht : t ∈ splitTypes s) :
    CanonicallySpaced t := by
  have hnone : ∀ c ∈ ([] : Text), isBlank c = true := by simp
  have hsplit : splitTypes (canonicalSpacing (join [','] (Brackets.angle.piecesFrom 0 s)))
      = (Brackets.angle.piecesFrom 0 s).map canonicalSpacing :=
    split_canonicalSpacing_join hnone (Brackets.distinct_angle.pieces_piecesFrom 0 s)
  have hjoin : join [','] (Brackets.angle.piecesFrom 0 s) = s := Brackets.join_piecesFrom .angle 0 s
  rw [hjoin, hs.canonicalSpacing_eq] at hsplit
  rw [hsplit] at ht
  obtain ⟨piece, -, rfl⟩ := List.mem_map.mp ht
  exact canonicallySpaced_canonicalSpacing piece

/-- Behind a comma and a space a list goes on as it would begin. -/
theorem canonicalSpacing_append_comma (hs : canonicalSpacing s = s)
    (ht : canonicalSpacing (y :: t) = y :: t) (hcomma : y ≠ ',') (hy : y ∉ tightBefore) :
    canonicalSpacing (s ++ ',' :: ' ' :: y :: t) = s ++ ',' :: ' ' :: y :: t := by
  have hspace : canonicalSpacing (' ' :: y :: t) = y :: t :=
    (canonicalSpacing_blanks_append isBlank_of_mem_space (y :: t)).trans ht
  obtain ⟨b, hb⟩ := exists_canonicalSpacing_comma s (' ' :: y :: t)
  rw [hs, hspace] at hb
  cases b with
  | true => exact hb
  | false =>
    -- without the space the comma would stand right in front of a character that wants one
    have hspaced := canonicallySpaced_canonicalSpacing (s ++ ',' :: ' ' :: y :: t)
    rw [hb, spaceIf_false, List.nil_append] at hspaced
    have hvisible : isBlank y = false := by
      cases canonicalSpacing_eq_self_iff.mp ht with
      | cons hvisible => exact hvisible
    rcases hspaced.allows (by decide) hvisible rfl with ⟨-, hdoubles⟩ | hgap
    · exact absurd hdoubles (by decide)
    · rw [(spaceBetween_comma y false).mpr ⟨hcomma, hy⟩] at hgap
      cases hgap

theorem canonicalSpacing_join_of_forall {types : List Text} (h : Brackets.angle.Pieces 0 types)
    (htypes : ∀ type ∈ types, canonicalSpacing type = type)
    (hheads : ∀ type ∈ types.tail, ∃ y, type.head? = some y ∧ y ∉ tightBefore) :
    canonicalSpacing (join [',', ' '] types) = join [',', ' '] types := by
  induction types with
  | nil => cases h
  | cons type types ih =>
    obtain ⟨htype, hrest⟩ := List.forall_mem_cons.mp htypes
    cases h with
    | last => exact htype
    | @more _ _ _ _ hpieces =>
      obtain ⟨next, others, rfl⟩ := List.exists_cons_of_ne_nil hpieces.ne_nil
      obtain ⟨⟨y, hy, hopen⟩, hothers⟩ := List.forall_mem_cons.mp hheads
      have hjoin := ih hpieces hrest hothers
      obtain ⟨next, rfl⟩ : ∃ rest, next = y :: rest := List.head?_eq_some_iff.mp hy
      -- a comma outside of all brackets would have cut the type
      have hcomma : y ≠ ',' := by
        rintro rfl
        cases hpieces with
        | last huncut => exact Brackets.not_cut_of_uncutAfter huncut ⟨rfl, rfl⟩
        | more huncut => exact Brackets.not_cut_of_uncutAfter huncut ⟨rfl, rfl⟩
      have hfirst : join [',', ' '] ((y :: next) :: others)
          = y :: join [',', ' '] (next :: others) :=
        Brackets.join_consFirst _ y (List.cons_ne_nil next others)
      rw [hfirst] at hjoin
      rw [join_cons_cons, hfirst, List.append_assoc]
      exact canonicalSpacing_append_comma htype hjoin hcomma hopen

/-- A list is spaced canonically when its types are, unless one that stands behind a comma is empty
or begins with a character that wants no space in front of it. -/
theorem canonicalSpacing_join_iff {types : List Text} (h : Brackets.angle.Pieces 0 types)
    (htypes : ∀ type ∈ types, trimSpaces type = type) :
    canonicalSpacing (join [',', ' '] types) = join [',', ' '] types ↔
      (∀ type ∈ types, canonicalSpacing type = type) ∧
        ∀ type ∈ types.tail, ∃ y, type.head? = some y ∧ y ∉ tightBefore := by
  constructor
  · intro hjoin
    have hspaced := split_canonicalSpacing_join isBlank_of_mem_space h
    have hsplit : splitTypes (join [',', ' '] types) = types.map trimSpaces :=
      h.split_join Brackets.distinct_angle (by decide) (by simp)
    rw [hjoin, hsplit, List.map_inj_left] at hspaced
    refine ⟨fun type htype => (hspaced type htype).symm.trans (htypes type htype), ?_⟩
    intro type htype
    obtain ⟨u, v, huv, hv⟩ := Brackets.exists_join_of_mem_tail [',', ' '] htype
    have hlist := canonicalSpacing_eq_self_iff.mp hjoin
    obtain ⟨x, y, hx, hy, -, -, hgap⟩ := hlist.admits (u := u ++ [',']) (t := type ++ v)
      (by rw [huv]; simp)
    rw [List.getLast?_concat] at hx
    obtain rfl : ',' = x := Option.some.inj hx
    have hopen : y ≠ ',' ∧ y ∉ tightBefore := by
      rcases hgap with ⟨-, hdoubles⟩ | hgap
      · exact absurd hdoubles (by decide)
      · exact (spaceBetween_comma y true).mp hgap
    cases type with
    | nil =>
      -- the next comma would be what stands behind the space
      rcases hv with rfl | ⟨rest, rfl⟩
      · cases hy
      · exact absurd (Option.some.inj hy).symm hopen.1
    | cons c type => exact ⟨y, hy, hopen.2⟩
  · rintro ⟨hspaced, hheads⟩
    exact canonicalSpacing_join_of_forall h hspaced hheads

/-- A type begins with a character that may stand behind a space when it is moved in, as before. -/
theorem exists_head_eastConst_iff (ht : CanonicallySpaced t) :
    (∃ y, (eastConst t).head? = some y ∧ y ∉ tightBefore) ↔
      ∃ y, t.head? = some y ∧ y ∉ tightBefore := by
  rcases eastConst_cases t with hsame | ⟨m, hm, name, hname, hmoved⟩
  · rw [hsame]
  · obtain ⟨-, y, hy, hopen⟩ := canonicallySpaced_name hm ht hname
    obtain ⟨name, rfl⟩ : ∃ rest, name = y :: rest := List.head?_eq_some_iff.mp hy
    refine iff_of_true ⟨y, by rw [hmoved]; rfl, hopen⟩ ⟨'c', ?_, by decide⟩
    rw [hname]
    rcases lead_of_mem_eastMoves m hm with hlead | hlead <;> rw [hlead] <;> rfl

/-- **Canonical spacing.**  Moving `const` in a canonically spaced list leaves it so exactly when no
`const` comes to stand behind a bracket that wants no space there, and every type behind a comma
begins with a character that may have a space in front of it. -/
theorem canonicalSpacing_eastConstList_iff (s : Text) :
    canonicalSpacing (eastConstList (canonicalSpacing s)) = eastConstList (canonicalSpacing s) ↔
      (∀ type ∈ splitTypes (canonicalSpacing s), ∀ x ∈ tightBehind,
        ¬ x :: " const".toList <:+: eastConst type) ∧
      ∀ type ∈ (splitTypes (canonicalSpacing s)).tail,
        ∃ y, type.head? = some y ∧ y ∉ tightBefore := by
  have hspaced : ∀ type ∈ splitTypes (canonicalSpacing s), CanonicallySpaced type :=
    fun type htype =>
      canonicallySpaced_of_mem_splitTypes (canonicallySpaced_canonicalSpacing s) htype
  have htidy : ∀ type ∈ (splitTypes (canonicalSpacing s)).map eastConst,
      trimSpaces type = type := by
    rw [List.forall_mem_map]
    intro type htype
    apply trimSpaces_eastConst
    rw [← (hspaced type htype).canonicalSpacing_eq]
    exact tidy_canonicalSpacing type
  have hlist : canonicalSpacing (eastConstList (canonicalSpacing s))
      = eastConstList (canonicalSpacing s) ↔ _ :=
    canonicalSpacing_join_iff (pieces_map_eastConst (canonicalSpacing s)) htidy
  rw [hlist, List.forall_mem_map, ← List.map_tail, List.forall_mem_map]
  apply and_congr
  · exact forall₂_congr fun type htype => canonicalSpacing_eastConst_iff (hspaced type htype)
  · refine forall₂_congr fun type htype => exists_head_eastConst_iff (hspaced type ?_)
    exact List.mem_of_mem_tail htype

/-- A parenthesis wants no space behind it, so canonical spacing takes away the space in front of a
`const` that was moved there. -/
theorem canonicalSpacing_eastConstList_ne :
    eastConstList (canonicalSpacing "const void (*)(int)".toList) = "void(*)(int) const".toList ∧
    canonicalSpacing (eastConstList (canonicalSpacing "const void (*)(int)".toList))
      = "void(*)(int)const".toList := by
  constructor <;> decide +kernel

end TypeSignature
