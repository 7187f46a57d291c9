import TypeSignature.Proofs.Cleaning.Display
import TypeSignature.Proofs.Gaps

/-!
# Lines — the indented layout line by line

In the indented layout each line ends at a bracket that opens or at a comma, if it has one, and a
bracket that closes comes first on its line.  A line is indented by the brackets that are open in
front of it, less the one that it closes itself.  Writing a node goes from its level back to its
level, so what holds of each line is put together from the lines of the members of a group.
-/

namespace TypeSignature

open Text

/-- A line of the indented layout, with `depth` brackets open in front of it. -/
structure IndentedLine (depth : Int) (line : Text) : Prop where
  opening : ∀ before behind, line = before ++ '<' :: behind → behind = []
  separator : ∀ before behind, line = before ++ ',' :: behind → behind = []
  closing : ∀ before behind, line = before ++ '>' :: behind → ∀ c ∈ before, c = ' '
  indented : ∃ (level : Nat) (rest : Text), line = List.replicate (4 * level) ' ' ++ rest ∧
    rest.head? ≠ some ' ' ∧ (level : Int) = depth - if rest.head? = some '>' then 1 else 0

/-- A text of lines of the indented layout, with `depth` brackets open in front of it and `depth'`
behind it. -/
inductive LaidOut : (depth depth' : Int) → Text → Prop
  | last {depth : Int} {line : Text} (hline : IndentedLine depth line) (hbreak : '\n' ∉ line) :
      LaidOut depth (depth + Brackets.angle.nesting line) line
  | more {depth depth' : Int} {line rest : Text} (hline : IndentedLine depth line)
      (hbreak : '\n' ∉ line) (hrest : LaidOut (depth + Brackets.angle.nesting line) depth' rest) :
      LaidOut depth depth' (line ++ '\n' :: rest)

variable {depth depth' depth'' : Int} {c : Char} {s t text ending : Text}

/-! ## 1. Lines -/

theorem LaidOut.append (hs : LaidOut depth depth' s) (ht : LaidOut depth' depth'' t) :
    LaidOut depth depth'' (s ++ '\n' :: t) := by
  induction hs with
  | last hline hbreak => exact .more hline hbreak ht
  | more hline hbreak _ ih =>
    rw [List.append_assoc, List.cons_append]
    exact .more hline hbreak (ih ht)

/-- Every line is indented by the brackets that are open behind the earlier lines. -/
theorem LaidOut.indentedLine (h : LaidOut depth depth' s) {earlier later : List Text} {line : Text}
    (hs : splitOn '\n' s = earlier ++ line :: later) :
    IndentedLine (depth + Brackets.angle.nesting earlier.flatten) line := by
  induction h generalizing earlier with
  | last hline hbreak =>
    rw [splitOn_of_not_mem hbreak] at hs
    cases earlier with
    | nil =>
      obtain ⟨rfl, -⟩ := List.cons.inj hs
      simpa using hline
    | cons first earlier => simp at hs
  | @more depth depth' first rest hline hbreak _ ih =>
    rw [splitOn_append_cons, splitOn_of_not_mem hbreak, List.singleton_append] at hs
    cases earlier with
    | nil =>
      obtain ⟨rfl, -⟩ := List.cons.inj hs
      simpa using hline
    | cons other earlier =>
      obtain ⟨rfl, hrest⟩ := List.cons.inj hs
      rw [List.flatten_cons, Brackets.nesting_append, ← Int.add_assoc]
      exact ih hrest

/-! ## 2. The two kinds of lines -/

theorem plain_spaces (n : Nat) : Brackets.angle.Plain (List.replicate n ' ') := by
  intro c hc
  rw [List.eq_of_mem_replicate hc]
  rfl

theorem not_mem_of_plain {b : Brackets} (hs : b.Plain s) (hc : b.role c ≠ .text) : c ∉ s :=
  fun hmem => hc (hs c hmem)

/-- A character that can only be the last one has nothing behind it. -/
theorem eq_nil_of_append_eq {before behind : Text} (hs : c ∉ s) (hending : ending.length ≤ 1)
    (h : s ++ ending = before ++ c :: behind) : behind = [] := by
  match ending with
  | [] =>
    rw [List.append_nil] at h
    exact absurd (h ▸ List.mem_append_right before List.mem_cons_self) hs
  | [d] =>
    obtain ⟨-, -, hbehind⟩ := (List.append_cons_inj_of_notMem hs List.not_mem_nil).mp h
    exact hbehind.symm

theorem lineStart_indented (level : Nat) :
    Layout.indented.lineStart level = List.replicate (4 * level) ' ' := by
  have hunit : Layout.indented.indentUnit = List.replicate 4 ' ' := rfl
  rw [Layout.lineStart, hunit, List.flatten_replicate_replicate, Nat.mul_comm]

/-- What may stand at the end of a line. -/
def lineEndings : List Text := [[], [','], ['<']]

/-- What stands between the indentation of a line and its ending: no character that ends a line, and
a bracket that closes in the first place only. -/
structure LineBody (body : Text) : Prop where
  kept : ∀ c ∈ body, c ≠ '<' ∧ c ≠ ',' ∧ c ≠ '\n'
  first : body.head? ≠ some ' '
  closing : ∀ before behind, body = before ++ '>' :: behind → before = []
  nesting : Brackets.angle.nesting body = - if body.head? = some '>' then 1 else 0

theorem lineBody_of_text (hplain : Brackets.angle.Plain text) (hflush : text.Flush)
    (hbreak : '\n' ∉ text) : LineBody text where
  kept := by
    intro c hc
    obtain ⟨hopening, hseparator, -⟩ := Brackets.role_eq_text_iff.mp (hplain c hc)
    exact ⟨hopening, hseparator, ne_of_mem_of_not_mem hc hbreak⟩
  first := fun h => ne_space_of_visible (hflush ' ' h) rfl
  closing := by
    intro before behind h
    exact absurd (h ▸ List.mem_append_right before List.mem_cons_self)
      (not_mem_of_plain hplain (by decide))
  nesting := by
    have hhead : text.head? ≠ some '>' := fun h =>
      not_mem_of_plain hplain (by decide) (List.mem_of_mem_head? h)
    rw [if_neg hhead, Brackets.nesting_of_plain hplain]
    rfl

theorem lineBody_of_closing (hplain : Brackets.angle.Plain text) (hbreak : '\n' ∉ text) :
    LineBody ('>' :: text) where
  kept := by
    rw [List.forall_mem_cons]
    refine ⟨by decide, fun c hc => ?_⟩
    obtain ⟨hopening, hseparator, -⟩ := Brackets.role_eq_text_iff.mp (hplain c hc)
    exact ⟨hopening, hseparator, ne_of_mem_of_not_mem hc hbreak⟩
  first := by simp
  closing := by
    intro before behind h
    -- the bracket is the only one
    have hclosing : '>' ∉ text := not_mem_of_plain hplain (by decide)
    exact ((List.append_cons_inj_of_notMem List.not_mem_nil hclosing).mp h).1.symm
  nesting := by
    have hbracket : Brackets.angle.nesting ['>'] = -1 := rfl
    rw [List.head?_cons, if_pos rfl, ← List.singleton_append, Brackets.nesting_append, hbracket,
      Brackets.nesting_of_plain hplain]
    rfl

theorem head?_append_eq_some_iff (h : t.head? ≠ some c) :
    (s ++ t).head? = some c ↔ s.head? = some c := by
  cases s with
  | nil => exact iff_of_false h (by simp)
  | cons d s => rfl

theorem indentedLine_of_body (level : Nat) {body : Text} (hbody : LineBody body)
    (hending : ending ∈ lineEndings) :
    IndentedLine (level + if body.head? = some '>' then 1 else 0)
      (List.replicate (4 * level) ' ' ++ (body ++ ending)) := by
  have hendings : ∀ ending ∈ lineEndings, ending.length ≤ 1 ∧ '>' ∉ ending ∧
      ending.head? ≠ some ' ' := by decide
  obtain ⟨hlength, hclosed, hfirst⟩ := hendings ending hending
  have hspaces : ∀ c ∈ List.replicate (4 * level) ' ', c = ' ' :=
    fun c hc => List.eq_of_mem_replicate hc
  -- only the ending may have a character that ends the line
  have hlast : ∀ c, c ≠ ' ' → c ∉ body → ∀ before behind,
      List.replicate (4 * level) ' ' ++ (body ++ ending) = before ++ c :: behind → behind = [] := by
    intro c hc hnot before behind h
    have hfront : c ∉ List.replicate (4 * level) ' ' ++ body := by
      rw [List.mem_append, not_or]
      exact ⟨fun hmem => hc (hspaces c hmem), hnot⟩
    rw [← List.append_assoc] at h
    exact eq_nil_of_append_eq hfront hlength h
  have hbracket : (body ++ ending).head? = some '>' ↔ body.head? = some '>' :=
    head?_append_eq_some_iff fun h => hclosed (List.mem_of_mem_head? h)
  refine ⟨hlast '<' (by decide) fun h => (hbody.kept _ h).1 rfl,
    hlast ',' (by decide) fun h => (hbody.kept _ h).2.1 rfl, ?_,
    level, body ++ ending, rfl, ?_, ?_⟩
  · intro before behind h
    rcases List.append_eq_append_iff.mp h with ⟨front, rfl, hrest⟩ | ⟨back, hfront, -⟩
    · -- behind the indentation the bracket can only be the first character of the body
      have hfirst : front = [] := by
        rcases List.append_eq_append_iff.mp hrest with ⟨back, rfl, hback⟩ | ⟨back, rfl, hback⟩
        · exact absurd (hback ▸ List.mem_append_right back List.mem_cons_self) hclosed
        · cases back with
          | nil =>
            rw [List.nil_append] at hback
            exact absurd (hback ▸ List.mem_cons_self) hclosed
          | cons c back =>
            obtain ⟨rfl, -⟩ := List.cons.inj hback
            exact hbody.closing front back rfl
      rw [hfirst, List.append_nil]
      exact hspaces
    · exact fun c hc => hspaces c (hfront ▸ List.mem_append_left back hc)
  · rw [Ne, head?_append_eq_some_iff hfirst]
    exact hbody.first
  · simp only [hbracket]
    omega

/-- A line that closes a bracket is indented as the text in front of the group was. -/
theorem laidOut_line (level : Nat) {body : Text} (hbody : LineBody body)
    (hending : ending ∈ lineEndings) :
    LaidOut (level + if body.head? = some '>' then 1 else 0)
      (level + Brackets.angle.nesting ending)
      (List.replicate (4 * level) ' ' ++ (body ++ ending)) := by
  have hbreaks : ∀ ending ∈ lineEndings, '\n' ∉ ending := by decide
  have hbreak : '\n' ∉ List.replicate (4 * level) ' ' ++ (body ++ ending) := by
    rw [List.mem_append, List.mem_append, not_or, not_or]
    refine ⟨fun h => ?_, fun h => (hbody.kept _ h).2.2 rfl, hbreaks ending hending⟩
    exact absurd (List.eq_of_mem_replicate h) (by decide)
  have hdepth : (level + if body.head? = some '>' then 1 else 0 : Int) +
        Brackets.angle.nesting (List.replicate (4 * level) ' ' ++ (body ++ ending))
      = level + Brackets.angle.nesting ending := by
    rw [Brackets.nesting_append, Brackets.nesting_append,
      Brackets.nesting_of_plain (plain_spaces _), hbody.nesting]
    omega
  rw [← hdepth]
  exact .last (indentedLine_of_body level hbody hending) hbreak

/-- The line of a node's left text. -/
theorem laidOut_text (level : Nat) (hplain : Brackets.angle.Plain text) (hflush : text.Flush)
    (hbreak : '\n' ∉ text) (hending : ending ∈ lineEndings) :
    LaidOut level (level + Brackets.angle.nesting ending)
      (List.replicate (4 * level) ' ' ++ (text ++ ending)) := by
  have hhead : text.head? ≠ some '>' := fun h =>
    not_mem_of_plain hplain (by decide) (List.mem_of_mem_head? h)
  have hline := laidOut_line level (lineBody_of_text hplain hflush hbreak) hending
  rwa [if_neg hhead, Int.add_zero] at hline

/-- The line that closes a node's group. -/
theorem laidOut_closing (level : Nat) (hplain : Brackets.angle.Plain text) (hbreak : '\n' ∉ text)
    (hending : ending ∈ lineEndings) :
    LaidOut (level + 1) (level + Brackets.angle.nesting ending)
      (List.replicate (4 * level) ' ' ++ '>' :: (text ++ ending)) := by
  have hline := laidOut_line level (lineBody_of_closing hplain hbreak) hending
  rwa [List.head?_cons, if_pos rfl] at hline

/-! ## 3. The lines of a tree -/

namespace Tree

theorem renderAt_indented_leaf (level : Nat) (left : Text) :
    renderAt .angle .indented level (leaf left) = List.replicate (4 * level) ' ' ++ left := by
  rw [leaf, renderAt, lineStart_indented]
  simp [Layout.indented, Layout.indents, Layout.leftText, Layout.rightText]

theorem renderAt_indented_group (level : Nat) (left right : Text) (child : Tree)
    (children : List Tree) :
    renderAt .angle .indented level ⟨left, child :: children, right⟩
      = (List.replicate (4 * level) ' ' ++ (left ++ ['<'])) ++ '\n' ::
        (renderRow .angle .indented (level + 1) (child :: children) ++ '\n' ::
          (List.replicate (4 * level) ' ' ++ '>' :: Layout.indented.rightText right)) := by
  rw [renderAt, Layout.afterGroup, lineStart_indented]
  simp [Layout.indented, Layout.indents, Layout.leftText, Layout.beforeGroup, Brackets.angle]

theorem renderRow_indented_cons_cons (level : Nat) (t u : Tree) (ts : List Tree) :
    renderRow .angle .indented level (t :: u :: ts)
      = (renderAt .angle .indented level t ++ [',']) ++ '\n' ::
        renderRow .angle .indented level (u :: ts) := by
  rw [renderRow, renderRow, renderFurther]
  simp [Layout.indented, Layout.betweenSiblings, Brackets.angle]

theorem mem_rightText {o : Layout} {right : Text} (h : c ∈ o.rightText right) :
    c = ' ' ∨ c ∈ right := by
  rw [Layout.rightText] at h
  split at h
  · exact List.mem_cons.mp h
  · exact .inr h

mutual

/-- A node goes back to its level, and what ends its last line may lead further. -/
theorem laidOut_renderAt (level : Nat) : ∀ (t : Tree) (ending : Text), Canonical .angle t →
    t.left.Flush → t.Texts ('\n' ∉ ·) → ending ∈ lineEndings →
    LaidOut level (level + Brackets.angle.nesting ending)
      (renderAt .angle .indented level t ++ ending)
  | ⟨left, [], right⟩, ending, ht, hflush, hbreaks, hending => by
    have hnode := (canonical_iff.mp ht).1
    have hright : right = [] := hnode.right_of_leaf rfl
    have htext := renderAt_indented_leaf level left
    rw [leaf] at htext
    rw [hright, htext, List.append_assoc]
    exact laidOut_text level hnode.left_plain hflush hbreaks.1 hending
  | ⟨left, child :: children, right⟩, ending, ht, hflush, hbreaks, hending => by
    obtain ⟨hnode, hin⟩ := canonical_iff.mp ht
    have hplain : Brackets.angle.Plain (Layout.indented.rightText right) := by
      intro c hc
      rcases mem_rightText hc with rfl | hc
      · rfl
      · exact hnode.right_plain c hc
    have hbreak : '\n' ∉ Layout.indented.rightText right := by
      intro hmem
      rcases mem_rightText hmem with hspace | hmem
      · cases hspace
      · exact hbreaks.2.2 hmem
    have hopened := laidOut_text level hnode.left_plain hflush hbreaks.1
      (by decide : ['<'] ∈ lineEndings)
    have hrow := laidOut_renderRow (level + 1) (child :: children)
      (List.cons_ne_nil child children) hin hbreaks.2.1
    have hclosed := laidOut_closing level hplain hbreak hending
    have htext : renderAt .angle .indented level ⟨left, child :: children, right⟩ ++ ending
        = (List.replicate (4 * level) ' ' ++ (left ++ ['<'])) ++ '\n' ::
          (renderRow .angle .indented (level + 1) (child :: children) ++ '\n' ::
            (List.replicate (4 * level) ' ' ++
              '>' :: (Layout.indented.rightText right ++ ending))) := by
      rw [renderAt_indented_group]
      simp only [List.append_assoc, List.cons_append]
    rw [htext]
    exact hopened.append (hrow.append hclosed)

theorem laidOut_renderRow (level : Nat) : ∀ ts : List Tree, ts ≠ [] → CanonicalIn .angle ts →
    TextsIn ('\n' ∉ ·) ts → LaidOut level level (renderRow .angle .indented level ts)
  | [], hne, _, _ => absurd rfl hne
  | [t], _, hts, hbreaks => by
    obtain ⟨⟨ht, hflush⟩, -⟩ := canonicalIn_cons_iff.mp hts
    have hlast := laidOut_renderAt level t [] ht hflush hbreaks.1 (by decide)
    rwa [Brackets.nesting_nil, Int.add_zero] at hlast
  | t :: u :: us, _, hts, hbreaks => by
    obtain ⟨⟨ht, hflush⟩, hrest⟩ := canonicalIn_cons_iff.mp hts
    have hcomma : Brackets.angle.nesting [','] = 0 := rfl
    have hfirst := laidOut_renderAt level t [','] ht hflush hbreaks.1 (by decide)
    rw [hcomma, Int.add_zero] at hfirst
    rw [renderRow_indented_cons_cons]
    exact hfirst.append
      (laidOut_renderRow level (u :: us) (List.cons_ne_nil u us) hrest hbreaks.2)

end

end Tree

/-- **Lines.**  When U+0020 is the only white space of a list and does not come first in it, every
line of its layout is indented by exactly the brackets that are open in front of it and ends at its
first bracket that opens or comma, and a bracket that closes comes first on its line. -/
theorem indentedLine_layOut {s : Text} {root : Tree} (hspaces : OnlySpaces s)
    (hfirst : s.head? ≠ some ' ') (h : Tree.parseList .angle true s = .ok root) :
    ∃ out, layOut s = .ok out ∧
      ∀ earlier line later, splitOn '\n' out = earlier ++ line :: later →
        IndentedLine (Brackets.angle.nesting earlier.flatten) line := by
  have hflush : s.Flush := by
    intro c hc
    cases hblank : isBlank c with
    | false => rfl
    | true =>
      rw [hspaces c (List.mem_of_mem_head? hc) hblank] at hc
      exact absurd hc hfirst
  have hbreaks : root.Texts ('\n' ∉ ·) := by
    have htexts := Tree.texts_of_parseList (P := (· ≠ '\n')) h fun c hc _ => by
      rintro rfl
      exact absurd (hspaces '\n' hc (by decide)) (by decide)
    exact htexts.mono fun text htext hmem => htext '\n' hmem rfl
  have hlines := Tree.laidOut_renderRow 0 root.children
    (Tree.children_ne_nil_of_parseList Brackets.visible_angle Brackets.distinct_angle h)
    (Tree.canonicalIn_of_parseList hflush h) (Tree.texts_iff.mp hbreaks).2.1
  refine ⟨root.renderItems .angle .indented, by rw [layOut, h], fun earlier line later hline => ?_⟩
  simpa using hlines.indentedLine hline

/-- The empty argument has a line of spaces only, and the text behind the group that opens again
stands behind its bracket. -/
theorem indentedLine_layOut_reopened :
    OnlySpaces "a<b<>>c<d> &,* e".toList ∧
    "a<b<>>c<d> &,* e".toList.head? ≠ some ' ' ∧
    Tree.parseList .angle true "a<b<>>c<d> &,* e".toList
      = .ok ⟨[], [⟨['a'], [⟨['b'], [.empty], []⟩, .leaf ['d']], "c&".toList⟩, .leaf "* e".toList],
        []⟩ ∧
    layOut "a<b<>>c<d> &,* e".toList
      = .ok "a<\n    b<\n        \n    >,\n    d\n> c&,\n* e".toList ∧
    IndentedLine 2 "        ".toList ∧ IndentedLine 2 "    >,".toList ∧
    IndentedLine 1 "> c&,".toList ∧ IndentedLine 0 "* e".toList := by
  have hspaces : OnlySpaces "a<b<>>c<d> &,* e".toList := by decide
  have hfirst : "a<b<>>c<d> &,* e".toList.head? ≠ some ' ' := by decide
  have hroot : Tree.parseList .angle true "a<b<>>c<d> &,* e".toList
      = .ok ⟨[], [⟨['a'], [⟨['b'], [.empty], []⟩, .leaf ['d']], "c&".toList⟩, .leaf "* e".toList],
        []⟩ := rfl
  have hlaid : layOut "a<b<>>c<d> &,* e".toList
      = .ok "a<\n    b<\n        \n    >,\n    d\n> c&,\n* e".toList := by rw [layOut, hroot]; rfl
  obtain ⟨out, hout, hlines⟩ := indentedLine_layOut hspaces hfirst hroot
  rw [hlaid] at hout
  cases hout
  refine ⟨hspaces, hfirst, hroot, hlaid, ?_, ?_, ?_, ?_⟩
  · exact hlines ["a<".toList, "    b<".toList] _ _ rfl
  · exact hlines ["a<".toList, "    b<".toList, "        ".toList] _ _ rfl
  · exact hlines ["a<".toList, "    b<".toList, "        ".toList, "    >,".toList,
      "    d".toList] _ _ rfl
  · exact hlines ["a<".toList, "    b<".toList, "        ".toList, "    >,".toList,
      "    d".toList, "> c&,".toList] _ _ rfl

end TypeSignature
