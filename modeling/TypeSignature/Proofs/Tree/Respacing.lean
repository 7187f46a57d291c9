import TypeSignature.Proofs.Tree.OneLine

/-!
# Respacing — reading a conventional text and writing its tree changes no gap that counts

While a conventional text is read, what the nodes on the stack have on one line has the same settled
gaps as the text.  White space is skipped only where the gap is settled anyway: behind an opening
bracket, behind a comma, and behind a group, where a conventional text has as much of a space as the
line does.  So the tree, written in any usual layout, comes to the canonical spacing of the text.
-/

namespace TypeSignature.Tree

open Text

/-- What stands on one line in front of the member of a group that is being read. -/
def leadLine (t : Tree) : Text :=
  t.left ++ '<' :: t.children.flatMap fun u => oneLine u ++ [',', ' ']

theorem leadLine_addChild (t u : Tree) :
    leadLine (t.addChild u) = leadLine t ++ (oneLine u ++ [',', ' ']) := by
  simp [leadLine, addChild]

theorem oneLine_addChild {t : Tree} (ht : t.right = []) (u : Tree) :
    oneLine (t.addChild u) = leadLine t ++ (oneLine u ++ ['>']) := by
  obtain ⟨left, children, right⟩ := t
  subst ht
  have hne : (children ++ [u]).isEmpty = false := by simp
  simp only [addChild, oneLine, hne, leadLine, oneLineRow_concat, behindGroup]
  simp

namespace Scan

/-- What the nodes on the stack have on one line. -/
def line (scan : Scan) : Text := scan.ancestors.reverse.flatMap leadLine ++ oneLine scan.current

theorem line_of_ancestors {scan : Scan} {parent : Tree} {rest : List Tree}
    (hscan : scan.ancestors = parent :: rest) :
    scan.line = rest.reverse.flatMap leadLine ++ (leadLine parent ++ oneLine scan.current) := by
  simp [line, hscan]

/-- The line of the scan has the settled gaps of the text that was read.  The other fields say what
stands at its end when white space may have been skipped there. -/
structure Faithful (u : Text) (scan : Scan) : Prop where
  grouped : Grouped scan
  tails : Tailless scan
  gaps : settled none false scan.line = settled none false u
  spaced : scan.afterStructural = false → endsSpaced false scan.line = endsSpaced false u
  decides : scan.afterStructural = true → scan.afterGroup = false → Decides (lastVisible none u)
  behind : scan.afterGroup = true → scan.current.right = [] →
    scan.afterStructural = true ∧ lastVisible none u = some '>'
  begun : scan.afterGroup = true → scan.afterStructural = true → scan.current.right = []

theorem faithful_list : Faithful ['<'] list where
  grouped := grouped_list
  tails := tailless_list
  gaps := rfl
  spaced _ := rfl
  decides := by simp [list]
  behind := by simp [list]
  begun := by simp [list]

section

variable {u : Text} {scan next : Scan} {c : Char}

/-- One more piece of the line goes with one more character of the text. -/
theorem Faithful.settled_append (h : Faithful u scan) {piece : Text}
    (hpiece : settled (lastVisible none u) (endsSpaced false scan.line) piece
      = settled (lastVisible none u) (endsSpaced false u) [c]) :
    settled none false (scan.line ++ piece) = settled none false (u ++ [c]) :=
  settled_append_congr h.gaps hpiece

/-- Outside of a group the gap at the end counts for the text as it does for the line. -/
theorem Faithful.settledGap_eq (h : Faithful u scan) (hfresh : scan.afterGroup = false) (c : Char) :
    settledGap (lastVisible none u) c (endsSpaced false scan.line)
      = settledGap (lastVisible none u) c (endsSpaced false u) := by
  cases hafter : scan.afterStructural with
  | false => rw [h.spaced hafter]
  | true =>
    have hdecides := h.decides hafter hfresh c
    cases endsSpaced false scan.line <;> cases endsSpaced false u <;> simp [hdecides]

theorem Faithful.openGroup (h : Faithful u scan) (hfresh : scan.afterGroup = false) :
    Faithful (u ++ ['<']) scan.openGroup := by
  have hopening : isBlank '<' = false := by decide
  obtain ⟨hchildren, hright⟩ := h.grouped.fresh hfresh
  have hlead : leadLine scan.current = oneLine scan.current ++ ['<'] := by
    obtain ⟨⟨left, children, right⟩, ancestors, afterGroup, afterStructural⟩ := scan
    simp only at hchildren hright
    subst hchildren hright
    simp [leadLine, oneLine_leaf, behindGroup]
  have hline : scan.openGroup.line = scan.line ++ ['<'] := by
    simp [line, Scan.openGroup, hlead, empty, oneLine_leaf, behindGroup]
  exact {
    grouped := ⟨by simp [Scan.openGroup], fun _ => ⟨rfl, rfl⟩⟩
    tails := List.forall_mem_cons.mpr ⟨hright, h.tails⟩
    gaps := by
      rw [hline]
      exact h.settled_append (settled_cons_congr hopening (h.settledGap_eq hfresh '<') rfl)
    spaced := by simp [Scan.openGroup]
    decides := fun _ _ => by
      rw [lastVisible_concat _ _ hopening]
      exact decides_opening
    behind := by simp [Scan.openGroup]
    begun := by simp [Scan.openGroup] }

theorem Faithful.nextSibling (h : Faithful u scan) {parent : Tree} {rest : List Tree}
    (hscan : scan.ancestors = parent :: rest) : Faithful (u ++ [','])
      { current := empty, ancestors := parent.addChild scan.current :: rest,
        afterStructural := true } := by
  have hcomma : isBlank ',' = false := by decide
  have htails := h.tails
  rw [Tailless, hscan] at htails
  have hline : line
      { current := empty, ancestors := parent.addChild scan.current :: rest,
        afterStructural := true } = scan.line ++ [',', ' '] := by
    rw [line_of_ancestors hscan, line_of_ancestors rfl, leadLine_addChild]
    simp [empty, oneLine_leaf, behindGroup]
  exact {
    grouped := ⟨by simp, fun _ => ⟨rfl, rfl⟩⟩
    tails := List.forall_mem_cons.mpr (List.forall_mem_cons.mp htails)
    gaps := by
      rw [hline]
      refine h.settled_append (settled_cons_congr hcomma (settledGap_comma _ _ _) ?_)
      exact settled_of_blank (by simp)
    spaced := by simp
    decides := fun _ _ => by
      rw [lastVisible_concat _ _ hcomma]
      exact decides_comma
    behind := by simp
    begun := by simp }

theorem Faithful.closeGroup (h : Faithful u scan) {parent : Tree} {rest : List Tree}
    (hscan : scan.ancestors = parent :: rest) : Faithful (u ++ ['>'])
      { current := parent.addChild scan.current, ancestors := rest, afterGroup := true,
        afterStructural := true } := by
  have hclosing : isBlank '>' = false := by decide
  have htails := h.tails
  rw [Tailless, hscan, List.forall_mem_cons] at htails
  have hline : line
      { current := parent.addChild scan.current, ancestors := rest, afterGroup := true,
        afterStructural := true } = scan.line ++ ['>'] := by
    rw [line_of_ancestors hscan, line, oneLine_addChild htails.1]
    simp
  exact {
    grouped := ⟨by simp [Tree.addChild], by simp⟩
    tails := htails.2
    gaps := by
      rw [hline]
      exact h.settled_append (settled_cons_congr hclosing (settledGap_closing _ _ _) rfl)
    spaced := by simp
    decides := by simp
    behind := fun _ _ => ⟨rfl, lastVisible_concat _ _ hclosing⟩
    begun := fun _ _ => htails.1 }

/-- The first character of a right text stands behind a space on the line, and behind a gap that
counts as one in the text; any other character of a text stands behind the same gap in both. -/
theorem Faithful.addText (h : Faithful u scan) (hread : scan.passes true c = false)
    (hfitting : Fitting none false (u ++ [c])) : Faithful (u ++ [c]) (scan.addText c) := by
  have hends : ∀ s : Text, endsSpaced false (s ++ [c]) = isBlank c := by
    intro s
    rw [endsSpaced_append, endsSpaced, endsSpaced]
  have hpiece : ∃ gap : Text, (scan.addText c).line = scan.line ++ (gap ++ [c]) ∧
      settled (lastVisible none u) (endsSpaced false scan.line) (gap ++ [c])
        = settled (lastVisible none u) (endsSpaced false u) [c] := by
    obtain ⟨⟨left, children, right⟩, ancestors, afterGroup, afterStructural⟩ := scan
    cases afterGroup with
    | false =>
      -- the character goes to a left text, and the line gets no space
      obtain ⟨rfl, rfl⟩ : children = [] ∧ right = [] := h.grouped.fresh rfl
      refine ⟨[], by simp [line, Scan.addText, addChar, oneLine_leaf, behindGroup], ?_⟩
      cases hc : isBlank c with
      | true =>
        rw [List.nil_append, settled_of_blank (by simp [hc]), settled_of_blank (by simp [hc])]
      | false => exact settled_cons_congr hc (h.settledGap_eq rfl c) rfl
    | true =>
      have hgroup : children.isEmpty = false := by simpa using h.grouped.group rfl
      by_cases hright : right = []
      · subst hright
        obtain ⟨hafter, hlast⟩ := h.behind rfl rfl
        have hafter : afterStructural = true := hafter
        -- white space would have been skipped
        have hc : isBlank c = false := by simpa [passes, hafter] using hread
        refine ⟨[' '], by simp [line, Scan.addText, addChar, oneLine, hgroup, behindGroup], ?_⟩
        rw [fitting_append, hlast, fitting_cons_of_visible hc] at hfitting
        rw [List.singleton_append, settled_space_cons, hlast]
        exact settled_cons_congr hc (hfitting.2.1.behind rfl).symm rfl
      · -- the right text has begun, with the space in front of it
        have hafter : afterStructural = false := by
          cases hafter : afterStructural with
          | false => rfl
          | true => exact absurd (h.begun rfl hafter) hright
        refine ⟨[], by simp [line, Scan.addText, addChar, oneLine, hgroup, behindGroup, hright], ?_⟩
        rw [h.spaced hafter, List.nil_append]
  obtain ⟨gap, hline, hgap⟩ := hpiece
  have hnonempty : scan.afterGroup = true → (scan.addText c).current.right ≠ [] := by
    intro hgroup
    simp [Scan.addText, addChar, hgroup]
  have hgrouped : Grouped (scan.addText c) := by
    obtain ⟨⟨left, children, right⟩, ancestors, afterGroup, afterStructural⟩ := scan
    cases afterGroup with
    | true => exact ⟨h.grouped.group, by simp [Scan.addText]⟩
    | false => exact ⟨by simp [Scan.addText], h.grouped.fresh⟩
  exact {
    grouped := hgrouped
    tails := h.tails
    gaps := by rw [hline]; exact h.settled_append hgap
    spaced := fun _ => by rw [hline, ← List.append_assoc, hends, hends]
    decides := by simp [Scan.addText]
    behind := fun hgroup hnil => absurd hnil (hnonempty hgroup)
    begun := by simp [Scan.addText] }

theorem Faithful.move (h : Faithful u scan) (hmove : Move .angle true 1 scan c next)
    (hfitting : Fitting none false (u ++ [c]))
    (hclosed : Brackets.angle.reopenings scan.afterGroup [c] = 0) : Faithful (u ++ [c]) next := by
  cases hmove with
  | pass hpass =>
    obtain ⟨hafter, hc⟩ : scan.afterStructural = true ∧ isBlank c = true := by
      simpa [passes] using hpass
    have hblank : ∀ d ∈ [c], isBlank d = true := by simp [hc]
    have hlast : lastVisible none (u ++ [c]) = lastVisible none u := by
      rw [lastVisible_append, lastVisible_of_blank hblank]
    exact {
      grouped := h.grouped
      tails := h.tails
      gaps := by rw [settled_append_blanks u hblank, h.gaps]
      spaced := fun hfalse => by rw [hafter] at hfalse; cases hfalse
      decides := by rw [hlast]; exact h.decides
      behind := by rw [hlast]; exact h.behind
      begun := h.begun }
  | opening _ hrole =>
    -- behind a group the bracket would open it again
    have hfresh : scan.afterGroup = false := by
      cases hgroup : scan.afterGroup with
      | false => rfl
      | true => simp [Brackets.reopenings, hrole, hgroup] at hclosed
    have hc : c = '<' := Brackets.role_eq_opening_iff.mp hrole
    subst hc
    exact h.openGroup hfresh
  | separator _ hrole hscan =>
    have hc : c = ',' := Brackets.eq_separator_of_role hrole
    subst hc
    exact h.nextSibling hscan
  | closing _ hrole hscan =>
    have hc : c = '>' := Brackets.eq_closing_of_role hrole
    subst hc
    exact h.closeGroup hscan
  | text hread _ => exact h.addText hread hfitting

end

/-- Reading a conventional text keeps the scan faithful. -/
theorem Faithful.read {u s : Text} {scan last : Scan} (h : Faithful u scan)
    (hread : scan.read .angle true 1 s = .ok last) (hfitting : Fitting none false (u ++ s))
    (hclosed : Brackets.angle.reopenings scan.afterGroup s = 0) : Faithful (u ++ s) last := by
  induction s generalizing u scan with
  | nil =>
    cases hread
    rwa [List.append_nil]
  | cons c s ih =>
    obtain ⟨next, hmove, hrest⟩ := read_cons_eq_ok_iff.mp hread
    rw [reopenings_cons hmove Brackets.visible_angle] at hclosed
    have hsplit : u ++ c :: s = (u ++ [c]) ++ s := by simp
    rw [hsplit] at hfitting ⊢
    have hnext := h.move hmove ((fitting_append _ _ _ _).mp hfitting).1 (by omega)
    exact ih hnext hrest hfitting (by omega)

/-- At the end of a list the line is that of its items, behind the bracket of its root. -/
theorem line_of_finish {last : Scan} {root : Tree} (hroot : root = ⟨[], root.children, []⟩)
    (hlength : 1 ≤ last.ancestors.length) (h : last.finish 1 = .ok root) :
    last.line = '<' :: oneLineRow root.children := by
  rw [finish] at h
  split at h
  · cases h
  · obtain ⟨parent, hparent⟩ := List.length_eq_one_iff.mp (by omega : last.ancestors.length = 1)
    have htree : parent.addChild last.current = root := by
      rw [toTree, hparent] at h
      exact Except.ok.inj h
    have hleft : parent.left = [] := congrArg Tree.left (htree.trans hroot)
    rw [line_of_ancestors hparent, ← htree, addChild, oneLineRow_concat, leadLine, hleft]
    simp

end Scan

/-- The line of the items of a conventional list has the settled gaps of the list. -/
theorem settled_oneLineRow {s : Text} {root : Tree} (h : parseList .angle true s = .ok root)
    (hs : Conventional s) :
    settled (some '<') false (oneLineRow root.children) = settled (some '<') false s := by
  have hopening : isBlank '<' = false := by decide
  have hv := Brackets.visible_angle
  have hroot := ((parseList_eq_ok_iff_outcomes hv Brackets.distinct_angle).mp h).2
  obtain ⟨last, hread, hfinish⟩ := Scan.outcome_eq_ok_iff.mp (parseList_eq_ok_iff.mp h)
  -- the bracket of the root is one character more for both
  have hfitting : Fitting none false (['<'] ++ s) := by
    refine (fitting_cons_of_visible hopening s).mpr ⟨⟨by simp, fun _ => rfl⟩, ?_⟩
    exact hs.fitting.restart decides_opening (by simp)
  have hlast := Scan.faithful_list.read hread hfitting hs.closed
  have hgaps := hlast.gaps
  rw [Scan.line_of_finish hroot (Scan.one_le_of_read hv hread) hfinish, List.singleton_append,
    settled_cons_of_visible hopening, settled_cons_of_visible hopening] at hgaps
  exact List.tail_eq_of_cons_eq hgaps

/-- **Reading and writing again.**  The tree of a conventional list, with white space cut off its
texts or not, comes to the canonical spacing of the list in every usual layout. -/
theorem canonicalSpacing_renderItems {s : Text} {root : Tree}
    (h : parseList .angle true s = .ok root) (hs : Conventional s) {o : Layout} (ho : o.Usual)
    {f : Text → Text} (hf : CutsBlanks f) :
    canonicalSpacing ((root.mapText f).renderItems .angle o) = canonicalSpacing s := by
  have hgaps := settled_oneLineRow h hs
  have hfitting : Fitting (some '<') false (oneLineRow root.children) := by
    rw [Fitting, hgaps]
    exact hs.fitting.restart decides_opening (by simp)
  have hlayout := settled_renderRow ho hf 0 root.children false false decides_opening hfitting
  rw [renderItems, children_mapText]
  exact canonicalSpacing_of_settled (hlayout.trans hgaps)

end TypeSignature.Tree
