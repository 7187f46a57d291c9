import Mathlib.Data.List.Forall2
import TypeSignature.Proofs.Text.Trimming
import TypeSignature.Proofs.Tree.Reading

/-!
# Items — a list is its items, read one by one

Inside of a list, an item is scanned as a signature of its own would be, with the root of the list
as one more ancestor.  The scan ends an item where the splitter ends a piece: the nodes that wait
are as many as brackets are open, and only when none is open does a separator end the item.

The splitter also trims spaces.  They are passed over at the front of an item, except that of the
first one, and they end the item's last text, so they are gone once all texts are clipped.
-/

namespace TypeSignature.Tree

mutual

theorem mapText_mapText (f g : Text → Text) : ∀ t : Tree,
    (t.mapText g).mapText f = t.mapText fun s => f (g s)
  | ⟨left, children, right⟩ => by
    rw [mapText, mapText, mapText, mapTextIn_mapTextIn f g children]

theorem mapTextIn_mapTextIn (f g : Text → Text) : ∀ ts : List Tree,
    mapTextIn f (mapTextIn g ts) = mapTextIn (fun s => f (g s)) ts
  | [] => rfl
  | t :: ts => by
    rw [mapTextIn, mapTextIn, mapTextIn, mapText_mapText f g t, mapTextIn_mapTextIn f g ts]

end

mutual

theorem mapText_id : ∀ t : Tree, t.mapText id = t
  | ⟨left, children, right⟩ => by rw [mapText, mapTextIn_id children, id, id]

theorem mapTextIn_id : ∀ ts : List Tree, mapTextIn id ts = ts
  | [] => rfl
  | t :: ts => by rw [mapTextIn, mapText_id t, mapTextIn_id ts]

end

/-- The tree with white space trimmed around every text. -/
def trimmed (t : Tree) : Tree := t.mapText Text.trimBlanks

/-- The tree without white space in front of a text and spaces behind it. -/
def clipped (t : Tree) : Tree := t.mapText Text.clip

theorem clipped_mapText_dropWhile (t : Tree) :
    (t.mapText (List.dropWhile Text.isBlank)).clipped = t.clipped := by
  rw [clipped, mapText_mapText, funext Text.clip_dropWhile, clipped]

theorem trimmed_clipped (t : Tree) : t.clipped.trimmed = t.trimmed := by
  rw [trimmed, clipped, mapText_mapText, funext Text.trimBlanks_clip, trimmed]

/-- What `f` does not see behind a text may be added to a node. -/
theorem mapText_foldl_addChar {f : Text → Text} {s : Text}
    (h : ∀ text : Text, f (text ++ s) = f text) (t : Tree) (afterGroup : Bool) :
    (s.foldl (addChar · afterGroup) t).mapText f = t.mapText f := by
  obtain ⟨left, children, right⟩ := t
  cases afterGroup with
  | true => rw [Scan.foldl_addChar_right, mapText, mapText, h]
  | false => rw [Scan.foldl_addChar_left, mapText, mapText, h]

theorem clipped_foldl_addChar (t : Tree) (afterGroup : Bool) {spaces : Text}
    (h : ∀ c ∈ spaces, (c == ' ') = true) :
    (spaces.foldl (addChar · afterGroup) t).clipped = t.clipped :=
  mapText_foldl_addChar (fun text => Text.clip_append_spaces text h) t afterGroup

theorem trimmed_foldl_addChar (t : Tree) (afterGroup : Bool) {blanks : Text}
    (h : ∀ c ∈ blanks, Text.isBlank c = true) :
    (blanks.foldl (addChar · afterGroup) t).trimmed = t.trimmed :=
  mapText_foldl_addChar (fun _ => Text.trimWhere_append_of_all h) t afterGroup

namespace Scan

variable {b : Brackets} {skipBlanks : Bool}

/-- Before an item of a list, seen as a signature; behind a separator `afterStructural` holds. -/
def item (afterStructural : Bool) : Scan := { current := empty, ancestors := [], afterStructural }

/-- The scan of an item inside of its list, in which `items` have been read before. -/
def within (items : List Tree) (scan : Scan) : Scan :=
  { scan with ancestors := scan.ancestors ++ [⟨[], items, []⟩] }

/-! ## 1. One step of a list is a step of its item -/

theorem step_within_of_cut (hb : skipBlanks = true → b.Visible) (items : List Tree) {scan : Scan}
    {c : Char} (hc : b.role c = .separator) (hroot : scan.ancestors = []) :
    (within items scan).step b skipBlanks 1 c
      = .ok (within (items ++ [scan.current]) (item true)) := by
  have hread : (within items scan).passes skipBlanks c = false :=
    passes_eq_false hb (by simp [hc])
  rw [step_of_reads hread, hc]
  simp [nextSibling, within, hroot, item, addChild]

theorem step_within_of_not_cut (items : List Tree) {scan : Scan} {c : Char}
    (hc : ¬ (b.role c = .separator ∧ scan.ancestors.length = 0)) :
    (within items scan).step b skipBlanks 1 c
      = (scan.step b skipBlanks 0 c).map (within items) := by
  have hpasses : (within items scan).passes skipBlanks c = scan.passes skipBlanks c := rfl
  cases hpass : scan.passes skipBlanks c with
  | true =>
    rw [step_of_passes hpass, step_of_passes (hpasses.trans hpass)]
    rfl
  | false =>
    rw [step_of_reads hpass, step_of_reads (hpasses.trans hpass)]
    cases hrole : b.role c with
    | opening => rfl
    | text => rfl
    | separator =>
      cases hscan : scan.ancestors with
      | nil => exact absurd ⟨hrole, by rw [hscan, List.length_nil]⟩ hc
      | cons parent rest => simp [nextSibling, within, hscan, Except.map]
    | closing =>
      -- the root of the list is the one ancestor that belongs to no bracket
      cases hscan : scan.ancestors with
      | nil => simp [closeGroup, within, hscan, Except.map]
      | cons parent rest => simp [closeGroup, within, hscan, Except.map]

/-- A step inside of an item counts brackets as the splitter does. -/
theorem length_ancestors_of_step (hb : skipBlanks = true → b.Visible) (hd : b.Distinct)
    {scan next : Scan} {c : Char} (h : scan.step b skipBlanks 0 c = .ok next) :
    next.ancestors.length = b.depthAfter scan.ancestors.length c := by
  rw [hd.depthAfter_eq]
  cases step_eq_ok_iff.mp h with
  | pass hpass =>
    rw [role_of_passes hb hpass]
  | opening _ hrole => rw [hrole]; rfl
  | separator _ hrole hscan => rw [hrole, hscan]; rfl
  | closing _ hrole hscan => rw [hrole, hscan]; rfl
  | text _ hrole => rw [hrole]; rfl

/-! ## 2. A whole list -/

/-- Reads pieces one by one, the first of them from the given scan on, the others as items behind a
separator. -/
def outcomes (b : Brackets) (skipBlanks : Bool) : Scan → List Text →
    Except Fault.Reason (List Tree)
  | _, [] => .ok []
  | scan, piece :: pieces =>
    (scan.outcome b skipBlanks 0 piece).bind fun t =>
      (outcomes b skipBlanks (item true) pieces).map (t :: ·)

theorem outcomes_cons_eq_ok_iff {scan : Scan} {piece : Text} {pieces : List Text}
    {ts : List Tree} : scan.outcomes b skipBlanks (piece :: pieces) = .ok ts ↔
      ∃ t rest, scan.outcome b skipBlanks 0 piece = .ok t ∧
        (item true).outcomes b skipBlanks pieces = .ok rest ∧ ts = t :: rest := by
  rw [outcomes]
  cases scan.outcome b skipBlanks 0 piece with
  | error reason => simp [Except.bind]
  | ok t =>
    cases (item true).outcomes b skipBlanks pieces with
    | error reason => simp [Except.bind, Except.map]
    | ok rest => simp [Except.bind, Except.map, eq_comm]

theorem outcomes_consFirst (scan : Scan) (c : Char) {pieces : List Text} (h : pieces ≠ []) :
    scan.outcomes b skipBlanks (Brackets.consFirst c pieces)
      = (scan.step b skipBlanks 0 c).bind (outcomes b skipBlanks · pieces) := by
  obtain ⟨piece, pieces, rfl⟩ := List.exists_cons_of_ne_nil h
  rw [Brackets.consFirst, outcomes, outcome_cons]
  cases scan.step b skipBlanks 0 c <;> rfl

theorem finish_within (items : List Tree) (scan : Scan) :
    finish 1 (within items scan)
      = (finish 0 scan).map fun t => ⟨[], items ++ [t], []⟩ := by
  have hlength : (within items scan).ancestors.length = scan.ancestors.length + 1 := by
    rw [within, List.length_append, List.length_singleton]
  rw [finish, finish, hlength]
  -- the root of the list waits outside of all brackets
  by_cases hopen : 0 < scan.ancestors.length
  · rw [if_pos (by omega), if_pos hopen, Nat.add_sub_cancel]
    rfl
  · have hroot : scan.ancestors = [] := List.length_eq_zero_iff.mp (by omega)
    rw [if_neg (by omega), if_neg hopen]
    simp [toTree, within, hroot, Except.map, addChild]

/-- Reading a list is reading its pieces; a fault in the one is the same fault in the other. -/
theorem outcome_within (hb : skipBlanks = true → b.Visible) (hd : b.Distinct) (items : List Tree)
    (scan : Scan) (s : Text) :
    (within items scan).outcome b skipBlanks 1 s
      = (scan.outcomes b skipBlanks (b.piecesFrom scan.ancestors.length s)).map
          fun ts => ⟨[], items ++ ts, []⟩ := by
  -- `scan` holds the item that is being read, and `items` those that are complete
  induction s generalizing items scan with
  | nil =>
    show finish 1 (within items scan) = _
    rw [finish_within, Brackets.piecesFrom, outcomes, outcomes]
    show _ = ((finish 0 scan).bind _).map _
    cases finish 0 scan <;> rfl
  | cons c s ih =>
    rw [outcome_cons]
    by_cases hcut : b.role c = .separator ∧ scan.ancestors.length = 0
    · -- the item is complete, and its piece ends here
      obtain ⟨hc, hlength⟩ := hcut
      have hroot := List.length_eq_zero_iff.mp hlength
      have hclosed : scan.outcome b skipBlanks 0 [] = .ok scan.current := by
        show finish 0 scan = _
        rw [finish, if_neg (by omega), toTree, hroot]
        rfl
      rw [step_within_of_cut hb items hc hroot, hlength, hd.piecesFrom_of_cut hc, outcomes,
        hclosed]
      show (within (items ++ [scan.current]) (item true)).outcome b skipBlanks 1 s
        = ((outcomes b skipBlanks (item true) (b.piecesFrom 0 s)).map _).map _
      rw [ih]
      show (outcomes b skipBlanks (item true) (b.piecesFrom 0 s)).map _ = _
      cases outcomes b skipBlanks (item true) (b.piecesFrom 0 s) with
      | error reason => rfl
      | ok ts => simp [Except.map]
    · -- the item goes on, and so does its piece, also when a fault stops the reading
      rw [step_within_of_not_cut items hcut, hd.piecesFrom_of_not_cut hcut,
        outcomes_consFirst _ _ (b.piecesFrom_ne_nil _ _)]
      cases hstep : scan.step b skipBlanks 0 c with
      | error reason => rfl
      | ok next =>
        rw [← length_ancestors_of_step hb hd hstep]
        exact ih items next

/-! ## 3. White space around an item -/

/-- The clipped tree of a text that begins in the given state. -/
def clippedOutcome (b : Brackets) (scan : Scan) (s : Text) : Except Fault.Reason Tree :=
  (scan.outcome b true 0 s).map clipped

theorem clippedOutcome_congr (b : Brackets) {x y : Scan}
    (h : x.mapText (List.dropWhile Text.isBlank) = y.mapText (List.dropWhile Text.isBlank))
    (s : Text) : x.clippedOutcome b s = y.clippedOutcome b s := by
  have hdropped : (x.outcome b true 0 s).map (Tree.mapText (List.dropWhile Text.isBlank))
      = (y.outcome b true 0 (s.map id)).map (Tree.mapText (List.dropWhile Text.isBlank)) :=
    outcome_congr (fun _ => rfl) (fun _ => rfl)
      (fun c _ _ h => Text.dropWhile_append_congr h [c]) h s
  rw [List.map_id] at hdropped
  have hclipped := congrArg (Except.map clipped) hdropped
  have hmap : ∀ r : Except Fault.Reason Tree,
      (r.map (Tree.mapText (List.dropWhile Text.isBlank))).map clipped = r.map clipped := by
    intro r
    cases r with
    | error reason => rfl
    | ok t => exact congrArg Except.ok (clipped_mapText_dropWhile t)
  rwa [hmap, hmap] at hclipped

theorem clippedOutcome_eq_ok_iff {scan : Scan} {s : Text} {u : Tree} :
    scan.clippedOutcome b s = .ok u
      ↔ ∃ t, scan.outcome b true 0 s = .ok t ∧ t.clipped = u := by
  rw [clippedOutcome]
  cases scan.outcome b true 0 s <;> simp [Except.map]

/-- Where no white space comes first, a separator in front of the item makes no difference. -/
theorem outcome_item_of_flush {s : Text} (hs : s.Flush) (afterStructural : Bool) :
    (item afterStructural).outcome b true 0 s = (item false).outcome b true 0 s :=
  outcome_of_flush hs (item false) afterStructural

section

variable (hv : b.Visible)

include hv

/-- White space in front of a signature is left text, which is clipped. -/
theorem clippedOutcome_append_left {blanks : Text}
    (hblanks : ∀ c ∈ blanks, Text.isBlank c = true) (s : Text) :
    (item false).clippedOutcome b (blanks ++ s) = (item false).clippedOutcome b s := by
  have hread : (item false).read b true 0 blanks
      = .ok { current := ⟨blanks, [], []⟩, ancestors := [] } := by
    have h := read_text true 0 empty [] false false (hv.plain_of_blank hblanks) (by simp)
    rw [empty, foldl_addChar_left] at h
    exact h
  rw [clippedOutcome, outcome_append_of_read hread]
  -- a test that drops white space in front sees no difference, now or later
  apply clippedOutcome_congr
  simp [mapText, Tree.mapText, mapTextIn, item, empty, List.dropWhile_eq_nil_iff.mpr hblanks]

/-- Spaces at the end go behind a structural character and are passed over, or become text and are
clipped. -/
theorem clippedOutcome_spaces (scan : Scan) {spaces : Text}
    (h : ∀ c ∈ spaces, (c == ' ') = true) :
    scan.clippedOutcome b spaces = scan.clippedOutcome b [] := by
  obtain ⟨current, ancestors, afterGroup, afterStructural⟩ := scan
  have hblanks : ∀ c ∈ spaces, Text.isBlank c = true :=
    fun c hc => Text.isBlank_of_eq_space (h c hc)
  cases afterStructural with
  | true =>
    rw [clippedOutcome, outcome, read_blanks rfl hblanks]
    rfl
  | false =>
    have hread := read_text true 0 current ancestors afterGroup false
      (hv.plain_of_blank hblanks) (by simp)
    rw [clippedOutcome, outcome, hread]
    show (finish 0 _).map (Tree.mapText Text.clip) = (finish 0 _).map (Tree.mapText _)
    rw [← finish_mapText, ← finish_mapText]
    apply finish_congr
    · exact clipped_foldl_addChar current afterGroup h
    · rfl

theorem clippedOutcome_append (scan : Scan) (s : Text) {spaces : Text}
    (h : ∀ c ∈ spaces, (c == ' ') = true) :
    scan.clippedOutcome b (s ++ spaces) = scan.clippedOutcome b s := by
  -- a fault in `s` is found before the spaces are reached
  cases hread : scan.read b true 0 s with
  | error reason => rw [clippedOutcome, clippedOutcome, outcome, outcome, read_append, hread]; rfl
  | ok last =>
    have hlast := clippedOutcome_spaces hv last h
    rw [clippedOutcome, outcome_append_of_read hread]
    rw [← List.append_nil s, clippedOutcome, outcome_append_of_read hread]
    exact hlast

theorem clippedOutcome_dropWhile (afterStructural : Bool) (s : Text) :
    (item afterStructural).clippedOutcome b s
      = (item false).clippedOutcome b (s.dropWhile Text.isBlank) := by
  have hblanks : ∀ c ∈ s.takeWhile Text.isBlank, Text.isBlank c = true :=
    fun c hc => List.mem_takeWhile_imp hc
  have hflush : Text.Flush (s.dropWhile Text.isBlank) := Text.flush_dropWhile s
  have hs : s = s.takeWhile Text.isBlank ++ s.dropWhile Text.isBlank :=
    List.takeWhile_append_dropWhile.symm
  cases afterStructural with
  | true =>
    have hread : (item true).read b true 0 (s.takeWhile Text.isBlank) = .ok (item true) :=
      read_blanks rfl hblanks
    conv_lhs => rw [hs, clippedOutcome, outcome_append_of_read hread]
    rw [outcome_item_of_flush hflush]
    rfl
  | false =>
    conv_lhs => rw [hs]
    exact clippedOutcome_append_left hv hblanks _

/-- An item is read as the signature that is left when the spaces around it are trimmed. -/
theorem clippedOutcome_trimSpaces (afterStructural : Bool) (s : Text) :
    (item afterStructural).clippedOutcome b s
      = (item false).clippedOutcome b (Text.trimSpaces s) := by
  have hfront : (s.dropWhile (· == ' ')).dropWhile Text.isBlank = s.dropWhile Text.isBlank :=
    Text.dropWhile_dropWhile_of_imp (fun _ => Text.isBlank_of_eq_space) s
  have htail : ∀ c ∈ (s.dropWhile (· == ' ')).rtakeWhile (· == ' '), (c == ' ') = true :=
    fun c hc => List.mem_rtakeWhile_imp (p := (· == ' ')) hc
  -- spaces in front are cut off first, then the spaces behind what is left
  calc (item afterStructural).clippedOutcome b s
      = (item false).clippedOutcome b (s.dropWhile (· == ' ')) := by
        rw [clippedOutcome_dropWhile hv, ← hfront, ← clippedOutcome_dropWhile hv]
    _ = (item false).clippedOutcome b
          (Text.trimSpaces s ++ (s.dropWhile (· == ' ')).rtakeWhile (· == ' ')) :=
        congrArg _ (Text.dropEndWhile_append_tail _ _).symm
    _ = (item false).clippedOutcome b (Text.trimSpaces s) :=
        clippedOutcome_append hv _ _ htail

/-- A piece is an item exactly when, without the spaces around it, it is a signature; then both
trees are equal but for white space in front of a text and spaces behind it. -/
theorem exists_outcome_iff_exists_parse (afterStructural : Bool) (piece : Text) (u : Tree) :
    (∃ t, (item afterStructural).outcome b true 0 piece = .ok t ∧ t.clipped = u)
      ↔ ∃ t, parse b true (Text.trimSpaces piece) = .ok t ∧ t.clipped = u := by
  simp only [parse_eq_ok_iff]
  show _ ↔ ∃ t, (item false).outcome b true 0 (Text.trimSpaces piece) = .ok t ∧ t.clipped = u
  rw [← clippedOutcome_eq_ok_iff, ← clippedOutcome_eq_ok_iff, ← clippedOutcome_trimSpaces hv]

/-! ## 4. The items and the pieces -/

theorem exists_outcomes (afterStructural : Bool) {pieces : List Text}
    (h : ∀ piece ∈ pieces, ∃ t, parse b true (Text.trimSpaces piece) = .ok t) :
    ∃ ts, (item afterStructural).outcomes b true pieces = .ok ts := by
  induction pieces generalizing afterStructural with
  | nil => exact ⟨[], rfl⟩
  | cons piece pieces ih =>
    obtain ⟨⟨u, hu⟩, hpieces⟩ := List.forall_mem_cons.mp h
    obtain ⟨t, ht, -⟩ :=
      (exists_outcome_iff_exists_parse hv afterStructural piece u.clipped).mpr ⟨u, hu, rfl⟩
    obtain ⟨ts, hts⟩ := ih true hpieces
    exact ⟨t :: ts, by rw [outcomes, ht, hts]; rfl⟩

/-- The items read from pieces are the trees of the pieces. -/
theorem forall₂_of_outcomes {afterStructural : Bool} {pieces : List Text} {ts : List Tree}
    (h : (item afterStructural).outcomes b true pieces = .ok ts) :
    List.Forall₂ (fun piece t => ∃ u, parse b true (Text.trimSpaces piece) = .ok u ∧
      u.trimmed = t.trimmed) pieces ts := by
  induction pieces generalizing afterStructural ts with
  | nil =>
    cases h
    exact .nil
  | cons piece pieces ih =>
    obtain ⟨t, rest, ht, hrest, rfl⟩ := outcomes_cons_eq_ok_iff.mp h
    obtain ⟨u, hu, hclipped⟩ :=
      (exists_outcome_iff_exists_parse hv _ piece t.clipped).mp ⟨t, ht, rfl⟩
    have htrimmed : u.trimmed = t.trimmed := by
      rw [← trimmed_clipped u, hclipped, trimmed_clipped]
    exact .cons ⟨u, hu, htrimmed⟩ (ih hrest)

end

end Scan

theorem parseList_eq_ok_iff_outcomes {b : Brackets} (hv : b.Visible) (hd : b.Distinct) {s : Text}
    {root : Tree} : parseList b true s = .ok root ↔
      (Scan.item false).outcomes b true (b.piecesFrom 0 s) = .ok root.children ∧
        root = ⟨[], root.children, []⟩ := by
  rw [parseList_eq_ok_iff]
  show (Scan.within [] (Scan.item false)).outcome b true 1 s = .ok root ↔ _
  rw [Scan.outcome_within (fun _ => hv) hd]
  show ((Scan.item false).outcomes b true (b.piecesFrom 0 s)).map _ = .ok root ↔ _
  cases (Scan.item false).outcomes b true (b.piecesFrom 0 s) with
  | error reason => simp [Except.map]
  | ok ts =>
    simp only [Except.map, List.nil_append, Except.ok.injEq]
    constructor
    · rintro rfl
      exact ⟨rfl, rfl⟩
    · rintro ⟨rfl, h⟩
      exact h.symm

theorem children_ne_nil_of_parseList {b : Brackets} (hv : b.Visible) (hd : b.Distinct) {s : Text}
    {root : Tree} (h : parseList b true s = .ok root) : root.children ≠ [] := by
  have hitems := ((parseList_eq_ok_iff_outcomes hv hd).mp h).1
  obtain ⟨piece, pieces, hpieces⟩ := List.exists_cons_of_ne_nil (b.piecesFrom_ne_nil 0 s)
  rw [hpieces] at hitems
  obtain ⟨t, rest, -, -, hchildren⟩ := Scan.outcomes_cons_eq_ok_iff.mp hitems
  rw [hchildren]
  exact List.cons_ne_nil t rest

/-- **One split.**  A list is read exactly when every piece between its outer separators is a
signature; then the pieces are as many as the items, and each is read as its item, up to white
space around the texts. -/
theorem parseList_iff_forall_split {b : Brackets} (hv : b.Visible) (hd : b.Distinct) (s : Text) :
    ((∃ root, parseList b true s = .ok root) ↔
      ∀ piece ∈ b.split s, ∃ t, parse b true piece = .ok t) ∧
    ∀ root, parseList b true s = .ok root →
      (b.split s).length = root.children.length ∧
      List.Forall₂ (fun piece child => ∃ t, parse b true piece = .ok t ∧ t.trimmed = child.trimmed)
        (b.split s) root.children := by
  have hsplit : ∀ root, parseList b true s = .ok root →
      List.Forall₂ (fun piece child => ∃ t, parse b true piece = .ok t ∧ t.trimmed = child.trimmed)
        (b.split s) root.children := by
    intro root hroot
    have houtcomes := ((parseList_eq_ok_iff_outcomes hv hd).mp hroot).1
    rw [Brackets.split, List.forall₂_map_left_iff]
    exact Scan.forall₂_of_outcomes hv houtcomes
  -- the items of a tree give each piece its tree; trees of all pieces give the list its items
  refine ⟨⟨?_, ?_⟩, fun root hroot => ⟨(hsplit root hroot).length_eq, hsplit root hroot⟩⟩
  · rintro ⟨root, hroot⟩ piece hpiece
    have htree := (hsplit root hroot).imp fun piece child h =>
      (⟨h.imp fun _ ht => ht.1, trivial⟩ : (∃ t, parse b true piece = .ok t) ∧ True)
    exact ((List.forall₂_and_left _ _).mp htree).1 piece hpiece
  · intro h
    rw [Brackets.split, List.forall_mem_map] at h
    obtain ⟨ts, hts⟩ := Scan.exists_outcomes hv false h
    exact ⟨⟨[], ts, []⟩, (parseList_eq_ok_iff_outcomes hv hd).mpr ⟨hts, rfl⟩⟩

/-- The splitter trims spaces only, reading passes over any white space behind a separator. -/
theorem parseList_iff_forall_split_spaced :
    Brackets.angle.Visible ∧ Brackets.angle.Distinct ∧
      parseList .angle true " a , \tb< c > ,".toList
        = .ok ⟨[], [leaf " a ".toList, ⟨['b'], [leaf "c ".toList], []⟩, empty], []⟩ ∧
      (Brackets.angle.split " a , \tb< c > ,".toList).length = 3 ∧
      ∀ piece ∈ Brackets.angle.split " a , \tb< c > ,".toList,
        ∃ t, parse .angle true piece = .ok t :=
  have h := parseList_iff_forall_split Brackets.visible_angle Brackets.distinct_angle
    " a , \tb< c > ,".toList
  have hroot : parseList .angle true " a , \tb< c > ,".toList
      = .ok ⟨[], [leaf " a ".toList, ⟨['b'], [leaf "c ".toList], []⟩, empty], []⟩ := rfl
  ⟨Brackets.visible_angle, Brackets.distinct_angle, hroot, (h.2 _ hroot).1, h.1.mp ⟨_, hroot⟩⟩

end TypeSignature.Tree
