import TypeSignature.Proofs.Tree.Balance
import TypeSignature.Proofs.Tree.Ink
import TypeSignature.Proofs.Tree.Items

/-!
# Regrouping — what a tree keeps of its text

A node has one group.  When its text opens a bracket behind the group, the further arguments join
the group, and the texts between the two groups and behind them become one text.  Then a closing
and an opening bracket are written as one separator, which is one character less.  Nothing else is
lost, and nothing is moved unless a node opens a group again.
-/

namespace TypeSignature

open Text

/-- How often a bracket opens with only text behind the bracket closed last.  At the beginning of
the text, `closed` says whether it continues behind such a bracket. -/
def Brackets.reopenings (b : Brackets) : (closed : Bool) → Text → Nat
  | _, [] => 0
  | closed, c :: s =>
    match b.role c with
    | .opening => closed.toNat + b.reopenings false s
    | .separator => b.reopenings false s
    | .closing => b.reopenings true s
    | .text => b.reopenings closed s

namespace Tree

variable {b : Brackets}

/-- What is written of a node in front of the member of its group that is being read. -/
def lead (b : Brackets) (t : Tree) : Text :=
  nonblank t.left ++ nonblank t.right ++
    b.opening :: t.children.flatMap fun u => ink b u ++ [b.separator]

theorem lead_addChild (b : Brackets) (t u : Tree) :
    lead b (t.addChild u) = lead b t ++ (ink b u ++ [b.separator]) := by
  simp [lead, addChild]

theorem ink_addChild {t : Tree} (ht : t.right = []) (u : Tree) :
    ink b (t.addChild u) = lead b t ++ (ink b u ++ [b.closing]) := by
  rw [addChild, ink_group b _ _ (by simp), inkRow_concat, lead, ht]
  simp

theorem length_ink_addChild (b : Brackets) (t u : Tree) :
    (ink b (t.addChild u)).length = (lead b t).length + (ink b u).length + 1 := by
  rw [addChild, ink_group b _ _ (by simp), inkRow_concat, lead]
  simp only [List.length_append, List.length_cons, List.length_nil]
  omega

/-- A group that opens again has a separator where it had a closing bracket. -/
theorem length_lead {t : Tree} (ht : t.children ≠ []) :
    (lead b t).length = (ink b t).length := by
  obtain ⟨left, children, right⟩ := t
  rcases List.eq_nil_or_concat children with rfl | ⟨ts, u, rfl⟩
  · exact absurd rfl ht
  · have hlead := lead_addChild b ⟨left, ts, right⟩ u
    have hink := length_ink_addChild b ⟨left, ts, right⟩ u
    rw [List.concat_eq_append]
    show (lead b (addChild ⟨left, ts, right⟩ u)).length
      = (ink b (addChild ⟨left, ts, right⟩ u)).length
    rw [hlead, hink]
    simp only [List.length_append, List.length_cons, List.length_nil]
    omega

theorem lead_of_fresh {t : Tree} (hchildren : t.children = []) (hright : t.right = []) :
    lead b t = ink b t ++ [b.opening] := by
  obtain ⟨left, children, right⟩ := t
  subst hchildren hright
  simp [lead, ink_leaf]

namespace Scan

variable {outer : Nat}

/-- What is written of all that was read. -/
def written (b : Brackets) (scan : Scan) : Text :=
  scan.ancestors.reverse.flatMap (lead b) ++ ink b scan.current

theorem written_openGroup (b : Brackets) (scan : Scan) :
    written b scan.openGroup = scan.ancestors.reverse.flatMap (lead b) ++ lead b scan.current := by
  simp [written, openGroup, empty, ink_leaf]

theorem written_of_ancestors (b : Brackets) {scan : Scan} {parent : Tree} {rest : List Tree}
    (hscan : scan.ancestors = parent :: rest) :
    written b scan = rest.reverse.flatMap (lead b) ++ (lead b parent ++ ink b scan.current) := by
  simp [written, hscan]

/-- Text goes behind a group exactly when the current node has one. -/
structure Grouped (scan : Scan) : Prop where
  group : scan.afterGroup = true → scan.current.children ≠ []
  fresh : scan.afterGroup = false → scan.current.children = [] ∧ scan.current.right = []

theorem written_addText {scan : Scan} (h : Grouped scan) (c : Char) :
    written b (scan.addText c) = written b scan ++ nonblank [c] := by
  obtain ⟨⟨left, children, right⟩, ancestors, afterGroup, afterStructural⟩ := scan
  cases afterGroup with
  | true =>
    have hgroup : children ≠ [] := h.group rfl
    simp [written, addText, addChar, ink_group b _ _ hgroup]
  | false =>
    obtain ⟨rfl, rfl⟩ : children = [] ∧ right = [] := h.fresh rfl
    simp [written, addText, addChar, ink_leaf]

/-- No node that waits has text behind its group. -/
def Tailless (scan : Scan) : Prop := ∀ t ∈ scan.ancestors, t.right = []

section

variable {scan next : Scan} {c : Char} (hmove : Move b true outer scan c next)

include hmove

theorem Grouped.move (h : Grouped scan) : Grouped next := by
  cases hmove with
  | pass => exact h
  | opening => exact ⟨by simp [openGroup], fun _ => ⟨rfl, rfl⟩⟩
  | separator => exact ⟨by simp, fun _ => ⟨rfl, rfl⟩⟩
  | closing => exact ⟨by simp [Tree.addChild], by simp⟩
  | text =>
    obtain ⟨⟨left, children, right⟩, ancestors, afterGroup, afterStructural⟩ := scan
    cases afterGroup with
    | true => exact ⟨h.group, by simp [addText]⟩
    | false => exact ⟨by simp [addText], h.fresh⟩

/-- The scan knows whether a bracket that opens next opens a group again. -/
theorem reopenings_cons (hv : b.Visible) (s : Text) :
    b.reopenings scan.afterGroup (c :: s)
      = b.reopenings scan.afterGroup [c] + b.reopenings next.afterGroup s := by
  cases hmove with
  | pass hpass =>
    have hrole := role_of_passes (fun _ => hv) hpass
    simp [Brackets.reopenings, hrole]
  | opening _ hrole => simp [Brackets.reopenings, hrole, openGroup]
  | separator _ hrole => simp [Brackets.reopenings, hrole]
  | closing _ hrole => simp [Brackets.reopenings, hrole]
  | text _ hrole => simp [Brackets.reopenings, hrole, addText]

/-- Each move writes what it reads, but a group that opens again costs a character. -/
theorem length_written_of_move (hv : b.Visible) (h : Grouped scan) :
    (written b next).length + b.reopenings scan.afterGroup [c]
      = (written b scan).length + (nonblank [c]).length := by
  have hkept : b.role c ≠ .text → (nonblank [c]).length = 1 := fun hc => by
    rw [nonblank_singleton_of_not_blank (hv.not_blank hc), List.length_singleton]
  cases hmove with
  | pass hpass =>
    rw [nonblank_singleton_of_blank (isBlank_of_passes hpass)]
    simp [Brackets.reopenings, role_of_passes (fun _ => hv) hpass]
  | opening _ hrole =>
    rw [hkept (by simp [hrole]), written_openGroup, written]
    simp only [Brackets.reopenings, hrole, List.length_append, Nat.add_zero]
    cases hgroup : scan.afterGroup with
    | true =>
      -- the group is written on, without its closing bracket and with one separator more
      rw [length_lead (h.group hgroup)]
      rfl
    | false =>
      obtain ⟨hchildren, hright⟩ := h.fresh hgroup
      rw [lead_of_fresh hchildren hright, List.length_append]
      simp only [List.length_singleton, Bool.toNat_false]
      omega
  | separator _ hrole hscan =>
    rw [hkept (by simp [hrole]), written_of_ancestors b hscan, written_of_ancestors b rfl,
      lead_addChild]
    simp only [Brackets.reopenings, hrole, List.length_append, List.length_singleton]
    simp only [empty, ink_leaf, nonblank_nil, List.append_nil, List.length_nil]
    omega
  | closing _ hrole hscan =>
    rw [hkept (by simp [hrole]), written_of_ancestors b hscan, written]
    simp only [Brackets.reopenings, hrole, List.length_append, length_ink_addChild]
    omega
  | text _ hrole =>
    rw [written_addText h]
    simp [Brackets.reopenings, hrole]

/-- As long as no group opens again, each move writes behind the rest what it reads. -/
theorem written_of_move (hv : b.Visible) (h : Grouped scan) (htails : Tailless scan)
    (hclosed : b.reopenings scan.afterGroup [c] = 0) :
    written b next = written b scan ++ nonblank [c] ∧ Tailless next := by
  have hkept : b.role c ≠ .text → nonblank [c] = [c] := fun hc =>
    nonblank_singleton_of_not_blank (hv.not_blank hc)
  cases hmove with
  | pass hpass =>
    rw [nonblank_singleton_of_blank (isBlank_of_passes hpass), List.append_nil]
    exact ⟨rfl, htails⟩
  | opening _ hrole =>
    -- the node is fresh, so its left text is all that was written of it
    have hgroup : scan.afterGroup = false := by
      cases hgroup : scan.afterGroup with
      | false => rfl
      | true => simp [Brackets.reopenings, hrole, hgroup] at hclosed
    obtain ⟨hchildren, hright⟩ := h.fresh hgroup
    refine ⟨?_, List.forall_mem_cons.mpr ⟨hright, htails⟩⟩
    rw [hkept (by simp [hrole]), Brackets.role_eq_opening_iff.mp hrole, written_openGroup,
      lead_of_fresh hchildren hright, written, List.append_assoc]
  | separator _ hrole hscan =>
    have hrights := htails
    rw [Tailless, hscan, List.forall_mem_cons] at hrights
    refine ⟨?_, List.forall_mem_cons.mpr hrights⟩
    rw [hkept (by simp [hrole]), Brackets.eq_separator_of_role hrole, written_of_ancestors b hscan,
      written_of_ancestors b rfl, lead_addChild]
    simp [empty, ink_leaf]
  | closing _ hrole hscan =>
    -- the parent has no text behind its group, so the bracket is the last that is written of it
    have hrights := htails
    rw [Tailless, hscan, List.forall_mem_cons] at hrights
    refine ⟨?_, hrights.2⟩
    rw [hkept (by simp [hrole]), Brackets.eq_closing_of_role hrole, written_of_ancestors b hscan,
      written, ink_addChild hrights.1]
    simp only [List.append_assoc]
  | text _ hrole => exact ⟨written_addText h c, htails⟩

end

/-! ## 2. A whole text -/

theorem length_written_of_read (hv : b.Visible) {scan last : Scan} {s : Text} (h : Grouped scan)
    (hread : scan.read b true outer s = .ok last) :
    (written b last).length + b.reopenings scan.afterGroup s
      = (written b scan).length + (nonblank s).length := by
  induction s generalizing scan with
  | nil =>
    cases hread
    rfl
  | cons c s ih =>
    -- the cost of the text is that of its first character and that of the rest
    obtain ⟨next, hmove, hrest⟩ := read_cons_eq_ok_iff.mp hread
    have hstep := length_written_of_move hmove hv h
    have hlast := ih (h.move hmove) hrest
    rw [reopenings_cons hmove hv, nonblank_cons, List.length_append]
    omega

theorem written_of_read (hv : b.Visible) {scan last : Scan} {s : Text} (h : Grouped scan)
    (htails : Tailless scan) (hread : scan.read b true outer s = .ok last)
    (hclosed : b.reopenings scan.afterGroup s = 0) :
    written b last = written b scan ++ nonblank s := by
  induction s generalizing scan with
  | nil =>
    cases hread
    exact (List.append_nil _).symm
  | cons c s ih =>
    obtain ⟨next, hmove, hrest⟩ := read_cons_eq_ok_iff.mp hread
    rw [reopenings_cons hmove hv] at hclosed
    obtain ⟨hstep, hnext⟩ := written_of_move hmove hv h htails (by omega)
    rw [ih (h.move hmove) hnext hrest (by omega), hstep, nonblank_cons c s, List.append_assoc]

theorem grouped_list : Grouped list where
  group := by simp [list]
  fresh _ := ⟨rfl, rfl⟩

theorem tailless_list : Tailless list := by
  intro t ht
  rw [List.mem_singleton.mp ht]
  rfl

theorem one_le_of_read (hv : b.Visible) {last : Scan} {s : Text}
    (hread : list.read b true 1 s = .ok last) : 1 ≤ last.ancestors.length := by
  have h : (start true).read b true (Bool.toNat true) s = .ok last := hread
  exact (length_ancestors_of_read (fun _ => hv) h).1

/-- At the end of a list, its items have been written behind the bracket that its root opens. -/
theorem written_of_finish (b : Brackets) {last : Scan} {root : Tree}
    (hroot : root = ⟨[], root.children, []⟩) (hlength : 1 ≤ last.ancestors.length)
    (h : last.finish 1 = .ok root) :
    written b last = b.opening :: inkRow b root.children := by
  rw [finish] at h
  split at h
  · cases h
  · -- only the root of the list waits, and it takes the last item
    obtain ⟨parent, hparent⟩ := List.length_eq_one_iff.mp (by omega : last.ancestors.length = 1)
    have htree : parent.addChild last.current = root := by
      rw [toTree, hparent] at h
      exact Except.ok.inj h
    have hleft : parent.left = [] := congrArg Tree.left (htree.trans hroot)
    have hright : parent.right = [] := congrArg Tree.right (htree.trans hroot)
    rw [written_of_ancestors b hparent, ← htree, addChild, inkRow_concat, lead, hleft, hright]
    simp

end Scan

/-- Of a list, the tree keeps every character that is not white space, in order, unless a group
opens again; each time one does, a character is lost. -/
theorem inkRow_of_parseList (hv : b.Visible) (hd : b.Distinct) {s : Text} {root : Tree}
    (h : parseList b true s = .ok root) :
    (inkRow b root.children).length + b.reopenings false s = (nonblank s).length ∧
      (b.reopenings false s = 0 → inkRow b root.children = nonblank s) := by
  have hroot := ((parseList_eq_ok_iff_outcomes hv hd).mp h).2
  obtain ⟨last, hread, hfinish⟩ := Scan.outcome_eq_ok_iff.mp (parseList_eq_ok_iff.mp h)
  have hwritten := Scan.written_of_finish b hroot (Scan.one_le_of_read hv hread) hfinish
  have hstart : Scan.written b Scan.list = [b.opening] := rfl
  -- both sides begin with the bracket that stands for the beginning of the list
  constructor
  · have hlength := Scan.length_written_of_read hv Scan.grouped_list hread
    rw [hwritten, hstart] at hlength
    simp only [List.length_cons, List.length_nil, Scan.list] at hlength
    omega
  · intro hclosed
    have hall := Scan.written_of_read hv Scan.grouped_list Scan.tailless_list hread hclosed
    rw [hwritten, hstart] at hall
    exact List.tail_eq_of_cons_eq hall

end Tree

end TypeSignature
