import TypeSignature.Cleaning
import TypeSignature.Proofs.EastConst
import TypeSignature.Proofs.Pieces

/-!
# Lists — moving `const` in a list, once and again

Moving `const` in the types of a list leaves them pieces of what they are joined to, whether
brackets balance or not, so the new list is split into the moved types.  Moving `const` again
changes nothing in a type, unless a second `const` stands right behind the first one.
-/

namespace TypeSignature

open Text

variable {s t word : Text}

/-! ## 1. The types of a list -/

theorem isChain_of_singleSpaced (hs : ¬ "  ".toList <:+: s) :
    s.IsChain fun c d => c = ' ' → d ≠ ' ' := by
  rw [List.isChain_iff_forall_rel_of_append_cons_cons]
  rintro c d before behind h rfl rfl
  exact hs ⟨before, behind, by simp [h]⟩

/-- A type of a list without adjacent spaces has none at its ends either. -/
theorem tidy_of_mem_splitTypes (hs : ¬ "  ".toList <:+: s) {type : Text}
    (htype : type ∈ splitTypes s) : Tidy type := by
  have hinfix : type <:+: s := Brackets.infix_of_mem_split htype
  obtain ⟨piece, -, rfl⟩ := List.mem_map.mp htype
  have hsingle := List.IsChain.infix (isChain_of_singleSpaced hs) hinfix
  exact ⟨head_trimSpaces_ne piece, getLast_trimSpaces_ne piece, hsingle⟩

theorem pieces_map_eastConst (s : Text) :
    Brackets.angle.Pieces 0 ((splitTypes s).map eastConst) := by
  have hpieces := (Brackets.distinct_angle.pieces_piecesFrom 0 s).map skeleton_eastConst_trimSpaces
  rw [splitTypes, Brackets.split, List.map_map]
  exact hpieces

theorem splitTypes_eastConstList_of_tidy (h : ∀ type ∈ splitTypes s, Tidy type) :
    splitTypes (eastConstList s) = (splitTypes s).map eastConst := by
  have hplain : Brackets.angle.Plain [' '] := by decide
  -- the pieces come back trimmed, and nothing was left to trim
  have htrim : ((splitTypes s).map eastConst).map trimSpaces = (splitTypes s).map eastConst := by
    rw [List.map_map]
    exact List.map_congr_left fun type htype => trimSpaces_eastConst (h type htype)
  rw [← htrim]
  exact (pieces_map_eastConst s).split_join Brackets.distinct_angle hplain (by simp)

/-- **Types of a list.**  In a list without adjacent spaces, balanced or not, moving `const` in the
list is moving it in each of its types. -/
theorem splitTypes_eastConstList (hs : ¬ "  ".toList <:+: s) :
    splitTypes (eastConstList s) = (splitTypes s).map eastConst :=
  splitTypes_eastConstList_of_tidy fun _ htype => tidy_of_mem_splitTypes hs htype

/-- A closing bracket without a partner is ignored, and behind one left open nothing is cut. -/
theorem splitTypes_eastConstList_unbalanced :
    ¬ "  ".toList <:+: "const a<b>>,const c & ,const d<e, const f *".toList ∧
    splitTypes (eastConstList "const a<b>>,const c & ,const d<e, const f *".toList)
      = ["a<b>> const".toList, "c const &".toList, "d<e, const f const *".toList] := by
  have hs : ¬ "  ".toList <:+: "const a<b>>,const c & ,const d<e, const f *".toList := by
    decide +kernel
  refine ⟨hs, ?_⟩
  rw [splitTypes_eastConstList hs]
  decide

/-! ## 2. Moving `const` again -/

theorem lead_of_mem_eastMoves : ∀ m ∈ eastMoves,
    m.lead = "const ".toList ∨ m.lead = "const * ".toList := by decide

/-- A text that does not begin with `const` stays as it is. -/
theorem eastConst_of_not_prefix (h : ¬ "const ".toList <+: s) : eastConst s = s := by
  rcases eastConst_cases s with hs | ⟨m, hm, name, hs, -⟩
  · exact hs
  · exfalso
    rcases lead_of_mem_eastMoves m hm with hlead | hlead
    · exact h ⟨name ++ m.tail, by rw [hs, hlead]⟩
    · exact h ⟨"* ".toList ++ (name ++ m.tail), by rw [hs, hlead]; rfl⟩

/-- What begins a text in front of a character that it does not have begins the text itself. -/
theorem prefix_of_prefix_append_cons {c : Char} (hc : c ∉ word)
    (h : word <+: s ++ c :: t) : word <+: s := by
  rcases List.prefix_or_prefix_of_prefix h (List.prefix_append s (c :: t)) with hs | ⟨rest, rfl⟩
  · exact hs
  · cases rest with
    | nil => exact (List.append_nil s).symm ▸ List.prefix_rfl
    | cons d rest =>
      rw [List.prefix_append_right_inj] at h
      obtain ⟨rfl, -⟩ := List.cons_prefix_cons.mp h
      exact absurd (List.mem_append_right s List.mem_cons_self) hc

/-- In front of a space a text begins with a word and a space, or is the word. -/
theorem eq_or_prefix_of_prefix_append (hword : ' ' ∉ word)
    (h : word ++ [' '] <+: s ++ ' ' :: t) : s = word ∨ word ++ [' '] <+: s := by
  have hbegins : word <+: s ++ ' ' :: t := (List.prefix_append word [' ']).trans h
  obtain ⟨rest, rfl⟩ := prefix_of_prefix_append_cons hword hbegins
  cases rest with
  | nil => exact .inl (List.append_nil word)
  | cons c rest =>
    -- what follows the word in the text begins with the space
    rw [List.append_assoc, List.prefix_append_right_inj] at h
    obtain ⟨rfl, -⟩ := List.cons_prefix_cons.mp h
    exact .inr ⟨rest, by simp⟩

/-- Once moved, `const` is no lead any more, unless what follows it is `const` again. -/
theorem eastConst_eastConst (hconst : ¬ "const const ".toList <+: s)
    (hpointer : ¬ "const * const ".toList <+: s) : eastConst (eastConst s) = eastConst s := by
  rcases eastConst_cases s with h | ⟨m, hm, name, hname, h⟩
  · rw [h, h]
  by_cases hmoved : "const ".toList <+: eastConst s
  · have hfair := fair_of_mem_eastMoves hm
    have hlead := lead_of_mem_eastMoves m hm
    have hagain : ¬ "const ".toList <+: name ++ m.tail := by
      rintro ⟨rest, hrest⟩
      rw [← hrest] at hname
      rcases hlead with hlead | hlead
      · exact hconst ⟨rest, by rw [hname, hlead]; rfl⟩
      · exact hpointer ⟨rest, by rw [hname, hlead]; rfl⟩
    obtain ⟨ending, hending⟩ := hfair.east_head
    rw [h, ← hending] at hmoved
    have hword : name = "const".toList ∨ "const ".toList <+: name :=
      eq_or_prefix_of_prefix_append (by decide) hmoved
    rcases hword with rfl | hword
    · cases htail : m.tail with
      | nil =>
        -- `const const` and `const * const` stay as they are
        rw [htail, List.append_nil] at hname
        rcases hlead with hlead | hlead
        · rw [hname, hlead]
          decide
        · rw [hname, hlead]
          decide
      | cons c tail =>
        obtain rfl : c = ' ' := hfair.tail_head c (by rw [htail]; rfl)
        exact absurd ⟨tail, by rw [htail]; rfl⟩ hagain
    · exact absurd (hword.trans (List.prefix_append name m.tail)) hagain
  · exact eastConst_of_not_prefix hmoved

/-- **Moving `const` twice.**  In a list without adjacent spaces, none of whose types begins with
`const const ` or `const * const `, there is nothing left to move. -/
theorem eastConstList_eastConstList (hs : ¬ "  ".toList <:+: s)
    (htypes : ∀ type ∈ splitTypes s,
      ¬ "const const ".toList <+: type ∧ ¬ "const * const ".toList <+: type) :
    eastConstList (eastConstList s) = eastConstList s := by
  have hsplit : splitTypes (eastConstList s) = (splitTypes s).map eastConst :=
    splitTypes_eastConstList_of_tidy fun _ htype => tidy_of_mem_splitTypes hs htype
  have hagain : ((splitTypes s).map eastConst).map eastConst = (splitTypes s).map eastConst := by
    rw [List.map_map]
    exact List.map_congr_left fun type htype =>
      eastConst_eastConst (htypes type htype).1 (htypes type htype).2
  calc eastConstList (eastConstList s)
      = join [',', ' '] ((splitTypes (eastConstList s)).map eastConst) := rfl
    _ = join [',', ' '] ((splitTypes s).map eastConst) := by rw [hsplit, hagain]
    _ = eastConstList s := rfl

/-- A type may be nothing but two `const`, and brackets need not balance. -/
theorem eastConstList_eastConstList_unbalanced :
    ¬ "  ".toList <:+: "const const, const * const,const a>> & ,const b<c, const d".toList ∧
    (∀ type ∈ splitTypes "const const, const * const,const a>> & ,const b<c, const d".toList,
      ¬ "const const ".toList <+: type ∧ ¬ "const * const ".toList <+: type) ∧
    eastConstList "const const, const * const,const a>> & ,const b<c, const d".toList
      = "const const, const const *, a>> const &, b<c, const d const".toList ∧
    eastConstList "const const, const const *, a>> const &, b<c, const d const".toList
      = "const const, const const *, a>> const &, b<c, const d const".toList := by
  have hs : ¬ "  ".toList <:+:
      "const const, const * const,const a>> & ,const b<c, const d".toList := by
    decide +kernel
  have htypes : ∀ type ∈ splitTypes
      "const const, const * const,const a>> & ,const b<c, const d".toList,
      ¬ "const const ".toList <+: type ∧ ¬ "const * const ".toList <+: type := by
    decide +kernel
  have hmoved : eastConstList "const const, const * const,const a>> & ,const b<c, const d".toList
      = "const const, const const *, a>> const &, b<c, const d const".toList := by
    decide +kernel
  have hagain := eastConstList_eastConstList hs htypes
  rw [hmoved] at hagain
  exact ⟨hs, htypes, hmoved, hagain⟩

end TypeSignature
