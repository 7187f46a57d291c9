import TypeSignature.Cleaning
import TypeSignature.Proofs.Tree.Canonical

/-!
# Texts — what holds of every text of a tree

Reading gives a tree no character that the text does not have, and only characters without a
structural role.  Trimming the texts of a tree and removing nodes keep what holds of every text.
-/

namespace TypeSignature.Tree

mutual

/-- Every text of the tree satisfies `p`. -/
def Texts (p : Text → Prop) : Tree → Prop
  | ⟨left, children, right⟩ => p left ∧ TextsIn p children ∧ p right

/-- Every text in a row of siblings satisfies `p`. -/
def TextsIn (p : Text → Prop) : List Tree → Prop
  | [] => True
  | t :: ts => Texts p t ∧ TextsIn p ts

end

variable {p q : Text → Prop}

theorem texts_iff {t : Tree} : t.Texts p ↔ p t.left ∧ TextsIn p t.children ∧ p t.right := by
  cases t
  rfl

theorem textsIn_iff {ts : List Tree} : TextsIn p ts ↔ ∀ t ∈ ts, t.Texts p := by
  induction ts with
  | nil => simp [TextsIn]
  | cons t ts ih => rw [TextsIn, ih, List.forall_mem_cons]

mutual

theorem Texts.mapText {f : Text → Text} (h : ∀ s, p s → q (f s)) : ∀ {t : Tree}, t.Texts p →
    (t.mapText f).Texts q
  | ⟨_, _, _⟩, ht => ⟨h _ ht.1, TextsIn.mapTextIn h ht.2.1, h _ ht.2.2⟩

theorem TextsIn.mapTextIn {f : Text → Text} (h : ∀ s, p s → q (f s)) : ∀ {ts : List Tree},
    TextsIn p ts → TextsIn q (Tree.mapTextIn f ts)
  | [], _ => trivial
  | _ :: _, hts => ⟨Texts.mapText h hts.1, TextsIn.mapTextIn h hts.2⟩

end

mutual

theorem Texts.mono (h : ∀ s, p s → q s) : ∀ {t : Tree}, t.Texts p → t.Texts q
  | ⟨_, _, _⟩, ht => ⟨h _ ht.1, TextsIn.mono h ht.2.1, h _ ht.2.2⟩

theorem TextsIn.mono (h : ∀ s, p s → q s) : ∀ {ts : List Tree}, TextsIn p ts → TextsIn q ts
  | [], _ => trivial
  | _ :: _, hts => ⟨Texts.mono h hts.1, TextsIn.mono h hts.2⟩

end

mutual

theorem Texts.filter (keep : Tree → Bool) : ∀ {t : Tree}, t.Texts p → (t.filter keep).Texts p
  | ⟨_, _, _⟩, ht => ⟨ht.1, TextsIn.filterIn keep ht.2.1, ht.2.2⟩

theorem TextsIn.filterIn (keep : Tree → Bool) : ∀ {ts : List Tree}, TextsIn p ts →
    TextsIn p (Tree.filterIn keep ts)
  | [], _ => trivial
  | t :: ts, hts => by
    have hrest := TextsIn.filterIn keep hts.2
    rw [Tree.filterIn]
    split
    · exact ⟨Texts.filter keep hts.1, hrest⟩
    · exact hrest

end

theorem Texts.prune (r : RuleSet) (h : ∀ s, p s → q (Text.trimSpaces s)) {t : Tree}
    (ht : t.Texts p) : (t.prune r).Texts q :=
  Texts.filter _ (Texts.mapText h ht)

mutual

theorem Texts.of_mem_preorder : ∀ {t : Tree}, t.Texts p → ∀ u ∈ t.preorder, p u.left ∧ p u.right
  | ⟨left, children, right⟩, ht, u, hu => by
    rcases List.mem_cons.mp hu with rfl | hu
    · exact ⟨ht.1, ht.2.2⟩
    · exact TextsIn.of_mem_preorderIn ht.2.1 u hu

theorem TextsIn.of_mem_preorderIn : ∀ {ts : List Tree}, TextsIn p ts →
    ∀ u ∈ preorderIn ts, p u.left ∧ p u.right
  | t :: ts, hts, u, hu => by
    rcases List.mem_append.mp hu with hu | hu
    · exact Texts.of_mem_preorder hts.1 u hu
    · exact TextsIn.of_mem_preorderIn hts.2 u hu

end

/-! ## 1. The texts of a tree that was read -/

section

variable {b : Brackets} {skipBlanks : Bool} {outer : Nat} {P : Char → Prop}

theorem texts_empty : empty.Texts fun s => ∀ c ∈ s, P c := by
  simp [texts_iff, empty, TextsIn]

theorem Texts.addChild {t child : Tree} (ht : t.Texts p) (hchild : child.Texts p) :
    (t.addChild child).Texts p := by
  rw [texts_iff, textsIn_iff] at ht ⊢
  refine ⟨ht.1, fun u hu => ?_, ht.2.2⟩
  rcases List.mem_append.mp hu with hu | hu
  · exact ht.2.1 u hu
  · rwa [List.mem_singleton.mp hu]

theorem Texts.addChar {t : Tree} (ht : t.Texts fun s => ∀ c ∈ s, P c) (afterGroup : Bool) {c : Char}
    (hc : P c) : (t.addChar afterGroup c).Texts fun s => ∀ c ∈ s, P c := by
  obtain ⟨hleft, hchildren, hright⟩ := texts_iff.mp ht
  have hconcat : ∀ {s : Text}, (∀ d ∈ s, P d) → ∀ d ∈ s ++ [c], P d := by
    intro s hs d hd
    rcases List.mem_append.mp hd with hd | hd
    · exact hs d hd
    · rwa [List.mem_singleton.mp hd]
  cases afterGroup with
  | true => exact texts_iff.mpr ⟨hleft, hchildren, hconcat hright⟩
  | false => exact texts_iff.mpr ⟨hconcat hleft, hchildren, hright⟩

/-- The characters of a text that are read as text are all that the tree has. -/
theorem Scan.texts_of_read {start last : Scan} {s : Text}
    (hstart : ∀ t ∈ start.current :: start.ancestors, t.Texts fun s => ∀ c ∈ s, P c)
    (h : start.read b skipBlanks outer s = .ok last) (hs : ∀ c ∈ s, b.role c = .text → P c) :
    ∀ t ∈ last.current :: last.ancestors, t.Texts fun s => ∀ c ∈ s, P c := by
  refine read_induction (motive := fun s scan => (∀ c ∈ s, b.role c = .text → P c) →
    ∀ t ∈ scan.current :: scan.ancestors, t.Texts fun s => ∀ c ∈ s, P c) ?_ ?_ h hs
  · exact fun _ => hstart
  · intro s scan c next ih hmove hconcat
    have hscan := ih fun d hd => hconcat d (List.mem_append_left _ hd)
    obtain ⟨hcurrent, hancestors⟩ := List.forall_mem_cons.mp hscan
    -- the structural characters move nodes, and only text gives a node a character
    cases hmove with
    | pass => exact hscan
    | opening => exact List.forall_mem_cons.mpr ⟨texts_empty, hscan⟩
    | separator _ _ hwait =>
      rw [hwait, List.forall_mem_cons] at hancestors
      exact List.forall_mem_cons.mpr ⟨texts_empty,
        List.forall_mem_cons.mpr ⟨hancestors.1.addChild hcurrent, hancestors.2⟩⟩
    | closing _ _ hwait =>
      rw [hwait, List.forall_mem_cons] at hancestors
      exact List.forall_mem_cons.mpr ⟨hancestors.1.addChild hcurrent, hancestors.2⟩
    | text _ hrole =>
      have hc := hconcat c List.mem_concat_self hrole
      exact List.forall_mem_cons.mpr ⟨hcurrent.addChar _ hc, hancestors⟩

theorem Scan.texts_toTree {scan : Scan}
    (h : ∀ t ∈ scan.current :: scan.ancestors, t.Texts p) : scan.toTree.Texts p := by
  obtain ⟨current, ancestors, afterGroup, afterStructural⟩ := scan
  obtain ⟨hcurrent, hancestors⟩ := List.forall_mem_cons.mp h
  simp only [toTree]
  induction ancestors generalizing current with
  | nil => exact hcurrent
  | cons parent rest ih =>
    obtain ⟨hparent, hrest⟩ := List.forall_mem_cons.mp hancestors
    have hnext := hparent.addChild hcurrent
    exact ih (parent.addChild current) (List.forall_mem_cons.mpr ⟨hnext, hrest⟩) hnext hrest

theorem Scan.texts_of_outcome {start : Scan} {s : Text} {t : Tree}
    (hstart : ∀ t ∈ start.current :: start.ancestors, t.Texts fun s => ∀ c ∈ s, P c)
    (h : start.outcome b skipBlanks outer s = .ok t) (hs : ∀ c ∈ s, b.role c = .text → P c) :
    t.Texts fun s => ∀ c ∈ s, P c := by
  obtain ⟨last, hread, hfinish⟩ := outcome_eq_ok_iff.mp h
  have htexts := texts_toTree (texts_of_read hstart hread hs)
  rw [finish] at hfinish
  split at hfinish
  · cases hfinish
  · rwa [← Except.ok.inj hfinish]

theorem texts_of_parseList {s : Text} {root : Tree} (h : parseList b skipBlanks s = .ok root)
    (hs : ∀ c ∈ s, b.role c = .text → P c) : root.Texts fun s => ∀ c ∈ s, P c := by
  refine Scan.texts_of_outcome ?_ (parseList_eq_ok_iff.mp h) hs
  simp [Scan.list, texts_empty]

end

end TypeSignature.Tree
