import Mathlib.Data.List.TakeWhile
import TypeSignature.Path

/-!
# Path — each step upwards cuts one component

What is cut from the end of a path is text, and what counts is components.  Separators and `.` steps
at the end are no components, so a path without them has the same ones, and the path in front of the
last name has all but one.  The way up ends at the root or at the empty path.  The other way, a file
of a directory has one component more, and its name tells its extension.
-/

namespace TypeSignature

namespace Path

/-- A path from the root. -/
def IsAbsolute (p : Path) : Prop := p.head? = some '/'

instance (p : Path) : Decidable p.IsAbsolute := inferInstanceAs (Decidable (_ = _))

variable {p q : Path} {name : Text}

/-! ## 1. Components -/

theorem components_nil : components [] = [] := rfl

theorem names_nil : names [] = [] := rfl

theorem names_singleton (h : '/' ∉ name) (hne : name ≠ []) (hdot : name ≠ ['.']) :
    names name = [name] := by
  rw [names, steps, Text.splitOn_of_not_mem h]
  simp [hne, hdot]

theorem components_separator_cons (t : Text) : components ('/' :: t) = ['/'] :: names t := by
  have hsteps : steps ('/' :: t) = [] :: steps t := by
    rw [steps, Text.splitOn, if_pos rfl, steps]
  rw [components, hsteps]
  rfl

theorem IsAbsolute.components_eq (h : p.IsAbsolute) : p.components = ['/'] :: names p.tail := by
  cases p with
  | nil => cases h
  | cons c t =>
    obtain rfl : c = '/' := Option.some.inj h
    exact components_separator_cons t

theorem components_of_name (h : '/' ∉ name) (hne : name ≠ []) : components name = [name] := by
  have habsolute : name.head? ≠ some '/' := fun hhead => h (List.mem_of_mem_head? hhead)
  rw [components, steps, Text.splitOn_of_not_mem h]
  simp only [habsolute, hne, if_false, List.filter_nil]

theorem components_append_of_ne_nil (hp : p ≠ []) (t : Text) :
    components (p ++ '/' :: t) = components p ++ names t := by
  have hsteps : steps (p ++ '/' :: t) = steps p ++ steps t := Text.splitOn_append_cons '/' p t
  have hhead : (p ++ '/' :: t).head? = p.head? := by
    cases p with
    | nil => exact absurd rfl hp
    | cons => rfl
  obtain ⟨first, further, hfirst⟩ := List.exists_cons_of_ne_nil (Text.splitOn_ne_nil '/' p)
  change steps p = first :: further at hfirst
  rw [components, components, hsteps, hfirst, hhead, List.cons_append]
  simp only [List.filter_append, names]
  by_cases habsolute : p.head? = some '/'
  · rw [if_pos habsolute, if_pos habsolute, List.cons_append]
  · rw [if_neg habsolute, if_neg habsolute]
    by_cases hempty : first = []
    · rw [if_pos hempty, if_pos hempty]
    · rw [if_neg hempty, if_neg hempty, List.cons_append]

/-- A separator at the end is a component only where it is the root. -/
theorem components_concat_separator (hp : p ≠ []) : components (p ++ ['/']) = components p := by
  rw [components_append_of_ne_nil hp, names_nil, List.append_nil]

theorem components_append (p : Path) (t : Text) :
    components (p ++ '/' :: t) = components (p ++ ['/']) ++ names t := by
  cases p with
  | nil =>
    rw [List.nil_append, List.nil_append, components_separator_cons, components_separator_cons,
      names_nil, List.singleton_append]
  | cons c p =>
    have hne : c :: p ≠ [] := List.cons_ne_nil c p
    rw [components_concat_separator hne, components_append_of_ne_nil hne]

/-! ## 2. Idle ends -/

theorem dropIdle_suffix (q : Text) : dropIdle q <:+ q := by
  fun_induction dropIdle q with
  | case1 => exact List.suffix_rfl
  | case2 q _ ih => exact ih.trans (List.suffix_cons '/' q)
  | case3 q ih => exact ih.trans (List.suffix_cons '.' ('/' :: q))
  | case4 => exact List.suffix_rfl

/-- Only the root ends with a separator, and no `.` stands behind one. -/
theorem dropIdle_settled (q : Text) : dropIdle q = ['/'] ∨
    (∀ r, dropIdle q ≠ '/' :: r) ∧ ∀ r, dropIdle q ≠ '.' :: '/' :: r := by
  fun_induction dropIdle q with
  | case1 => exact .inl rfl
  | case2 q _ ih => exact ih
  | case3 q ih => exact ih
  | case4 q _ hseparator hdot => exact .inr ⟨hseparator, hdot⟩

theorem components_dropIdle (q : Text) :
    components (dropIdle q).reverse = components q.reverse := by
  fun_induction dropIdle q with
  | case1 => rfl
  | case2 q hne ih =>
    rw [ih, List.reverse_cons, components_concat_separator]
    simpa using hne
  | case3 q ih =>
    have hidle : names ['.'] = [] := by decide
    have hdot : ('.' :: '/' :: q).reverse = q.reverse ++ '/' :: ['.'] := by simp
    rw [ih, hdot, components_append, hidle, List.append_nil, List.reverse_cons]
  | case4 => rfl

/-! ## 3. One step up -/

theorem parent?_of_ne (hempty : dropIdle p.reverse ≠ []) (hroot : dropIdle p.reverse ≠ ['/']) :
    p.parent? = some (dropIdle ((dropIdle p.reverse).dropWhile (· != '/'))).reverse := by
  unfold parent?
  split
  · exact absurd ‹_› hempty
  · exact absurd ‹_› hroot
  · rfl

/-- The components in front of the last name, wherever idle steps stand. -/
theorem components_drop_name (hempty : q ≠ []) (hseparator : ∀ r, q ≠ '/' :: r)
    (hdot : ∀ r, q ≠ '.' :: '/' :: r) : ∃ name, '/' ∉ name ∧
      components q.reverse = components (q.dropWhile (· != '/')).reverse ++ [name] := by
  have hsplit : q.takeWhile (· != '/') ++ q.dropWhile (· != '/') = q :=
    List.takeWhile_append_dropWhile
  have hhead := List.head?_dropWhile_not (· != '/') q
  generalize hname : q.takeWhile (· != '/') = name at hsplit
  generalize q.dropWhile (· != '/') = rest at hsplit hhead ⊢
  have hnot : '/' ∉ name.reverse := by
    rw [List.mem_reverse, ← hname]
    intro hmem
    simpa using List.mem_takeWhile_imp hmem
  subst hsplit
  refine ⟨name.reverse, hnot, ?_⟩
  -- the text is reversed, so it would begin with the separator if the name were empty
  have hne : name.reverse ≠ [] := by
    rw [Ne, List.reverse_eq_nil_iff]
    rintro rfl
    cases rest with
    | nil => exact hempty rfl
    | cons c rest =>
      obtain rfl : c = '/' := by simpa using hhead
      exact hseparator rest rfl
  cases rest with
  | nil =>
    rw [List.append_nil, components_of_name hnot hne]
    rfl
  | cons c rest =>
    obtain rfl : c = '/' := by simpa using hhead
    -- behind a separator a lone dot would be idle
    have hdots : name.reverse ≠ ['.'] := by
      intro h
      have hname : name = ['.'] := List.reverse_eq_iff.mp h
      exact hdot rest (by rw [hname]; rfl)
    rw [List.reverse_append, List.reverse_cons, List.append_assoc]
    show components (rest.reverse ++ '/' :: name.reverse) = _
    rw [components_append, names_singleton hnot hne hdots]

theorem components_of_idle (h : dropIdle p.reverse = []) : p.components = [] := by
  have hcomponents := components_dropIdle p.reverse
  rw [List.reverse_reverse, h, List.reverse_nil, components_nil] at hcomponents
  exact hcomponents.symm

theorem components_of_root (h : dropIdle p.reverse = ['/']) :
    p.IsAbsolute ∧ p.components = [['/']] := by
  have hcomponents := components_dropIdle p.reverse
  have hbegins := List.reverse_prefix.mpr (dropIdle_suffix p.reverse)
  rw [List.reverse_reverse, h] at hcomponents hbegins
  obtain ⟨rest, rfl⟩ := hbegins
  exact ⟨rfl, hcomponents.symm⟩

/-- What lacks but one name of a path is absolute just when the path is. -/
theorem isAbsolute_of_prefix (hbegins : q <+: p) (hname : '/' ∉ name)
    (h : p.components = q.components ++ [name]) : q.IsAbsolute ↔ p.IsAbsolute := by
  obtain ⟨rest, rfl⟩ := hbegins
  cases q with
  | nil =>
    constructor
    · intro habsolute
      cases habsolute
    · intro habsolute
      rw [habsolute.components_eq, components_nil] at h
      obtain rfl : ['/'] = name := (List.cons.inj h).1
      exact absurd (List.mem_singleton_self '/') hname
  | cons c q => exact Iff.rfl

/-- A path without a parent has no component but the root; any other path has one name more than
its parent, which is how its own text begins. -/
theorem parent?_cases (p : Path) :
    p.parent? = none ∧ p.components = (if p.IsAbsolute then [['/']] else []) ∨
    ∃ parent name, p.parent? = some parent ∧ parent <+: p ∧ (parent.IsAbsolute ↔ p.IsAbsolute) ∧
      p.components = parent.components ++ [name] := by
  by_cases hempty : dropIdle p.reverse = []
  · left
    have hnone : p.parent? = none := by simp only [parent?, hempty]
    have hcomponents := components_of_idle hempty
    have hrelative : ¬ p.IsAbsolute := by
      intro habsolute
      rw [habsolute.components_eq] at hcomponents
      cases hcomponents
    rw [if_neg hrelative]
    exact ⟨hnone, hcomponents⟩
  by_cases hroot : dropIdle p.reverse = ['/']
  · left
    have hnone : p.parent? = none := by simp only [parent?, hroot]
    obtain ⟨habsolute, hcomponents⟩ := components_of_root hroot
    rw [if_pos habsolute]
    exact ⟨hnone, hcomponents⟩
  · right
    have hsettled := (dropIdle_settled p.reverse).resolve_left hroot
    obtain ⟨name, hname, hcut⟩ := components_drop_name hempty hsettled.1 hsettled.2
    have hshorter := (dropIdle_suffix _).trans
      ((List.dropWhile_suffix (· != '/')).trans (dropIdle_suffix p.reverse))
    have hbegins := List.reverse_prefix.mpr hshorter
    rw [List.reverse_reverse] at hbegins
    have hcomponents := components_dropIdle p.reverse
    rw [List.reverse_reverse, hcut, ← components_dropIdle] at hcomponents
    exact ⟨_, name, parent?_of_ne hempty hroot, hbegins,
      isAbsolute_of_prefix hbegins hname hcomponents.symm, hcomponents.symm⟩

/-! ## 4. The way up -/

/-- How many paths there are from a path upwards, the path included: one for each component, and
the empty path if there is no root. -/
def reach (p : Path) : Nat :=
  if p.IsAbsolute then p.components.length else p.components.length + 1

theorem reach_of_parent?_none (h : p.parent? = none) : p.reach = 1 := by
  rcases parent?_cases p with ⟨-, hcomponents⟩ | ⟨parent, name, hparent, -⟩
  · unfold reach
    rw [hcomponents]
    by_cases habsolute : p.IsAbsolute
    · rw [if_pos habsolute, if_pos habsolute]
      rfl
    · rw [if_neg habsolute, if_neg habsolute]
      rfl
  · rw [hparent] at h
    cases h

theorem reach_of_parent? (habsolute : q.IsAbsolute ↔ p.IsAbsolute)
    (h : p.components = q.components ++ [name]) : p.reach = q.reach + 1 := by
  unfold reach
  rw [h, List.length_append, List.length_singleton]
  by_cases hp : p.IsAbsolute
  · rw [if_pos hp, if_pos (habsolute.mpr hp)]
  · rw [if_neg hp, if_neg (mt habsolute.mp hp)]

theorem length_ancestors (p : Path) (limit : Nat) :
    (p.ancestors limit).length = min limit p.reach := by
  induction limit generalizing p with
  | zero => rw [ancestors, List.length_nil, Nat.zero_min]
  | succ limit ih =>
    rw [ancestors, List.length_cons]
    rcases parent?_cases p with ⟨hnone, -⟩ | ⟨parent, name, hparent, -, habsolute, hcomponents⟩
    · rw [hnone, reach_of_parent?_none hnone]
      show 1 = _
      omega
    · rw [hparent, reach_of_parent? habsolute hcomponents]
      show (parent.ancestors limit).length + 1 = _
      rw [ih]
      omega

theorem components_of_getElem?_ancestors {limit i : Nat} (h : (p.ancestors limit)[i]? = some q) :
    q <+: p ∧ q.components = p.components.take (p.components.length - i) := by
  induction limit generalizing p i with
  | zero =>
    rw [ancestors, List.getElem?_nil] at h
    cases h
  | succ limit ih =>
    rw [ancestors] at h
    cases i with
    | zero =>
      rw [List.getElem?_cons_zero, Option.some_inj] at h
      rw [← h, Nat.sub_zero, List.take_length]
      exact ⟨List.prefix_rfl, rfl⟩
    | succ i =>
      rw [List.getElem?_cons_succ] at h
      rcases parent?_cases p with ⟨hnone, -⟩ | ⟨parent, name, hparent, hbegins, -, hcomponents⟩
      · rw [hnone, List.getElem?_nil] at h
        cases h
      · rw [hparent] at h
        obtain ⟨hq, hrest⟩ := ih h
        have hcount : p.components.length - (i + 1) = parent.components.length - i := by
          rw [hcomponents, List.length_append, List.length_singleton]
          omega
        refine ⟨hq.trans hbegins, ?_⟩
        rw [hrest, hcount, hcomponents, List.take_append_of_le_length (by omega)]

/-- **The way up.**  From a path upwards every component is cut once, the last one first, and what
is left is how the path was written, up to the root or else to the empty path. -/
theorem ancestors_exact (start : Path) (limit : Nat) :
    (start.ancestors limit).length
      = min limit
          (if start.IsAbsolute then start.components.length else start.components.length + 1) ∧
    ∀ i (h : i < (start.ancestors limit).length),
      (start.ancestors limit)[i] <+: start ∧
      (start.ancestors limit)[i].components
        = start.components.take (start.components.length - i) :=
  ⟨length_ancestors start limit, fun _ h =>
    components_of_getElem?_ancestors (List.getElem?_eq_getElem h)⟩

/-- The way up from a path with idle steps, which begins with one that counts. -/
theorem ancestors_exact_idle :
    components "./a//../b/.".toList = [['.'], ['a'], ['.', '.'], ['b']] ∧
    (ancestors 64 "./a//../b/.".toList).length = 5 ∧
    ∃ _ : 1 < (ancestors 64 "./a//../b/.".toList).length,
      (ancestors 64 "./a//../b/.".toList)[1] <+: "./a//../b/.".toList ∧
      (ancestors 64 "./a//../b/.".toList)[1].components = [['.'], ['a'], ['.', '.']] := by
  have hcomponents : components "./a//../b/.".toList = [['.'], ['a'], ['.', '.'], ['b']] := by
    decide
  have hrelative : ¬ IsAbsolute "./a//../b/.".toList := by decide
  obtain ⟨hlength, hway⟩ := ancestors_exact "./a//../b/.".toList 64
  rw [if_neg hrelative, hcomponents] at hlength
  rw [hcomponents] at hway
  have hsecond : 1 < (ancestors 64 "./a//../b/.".toList).length := by
    rw [hlength]
    decide
  exact ⟨hcomponents, hlength, hsecond, hway 1 hsecond⟩

/-! ## 5. Files of a directory -/

theorem components_join (p : Path) (h : '/' ∉ name) (hne : name ≠ []) (hdot : name ≠ ['.']) :
    (p.join name).components = p.components ++ [name] := by
  unfold join
  by_cases hempty : p = []
  · subst hempty
    show components name = [name]
    exact components_of_name h hne
  by_cases hlast : p.getLast? = some '/'
  · obtain ⟨u, rfl⟩ := List.getLast?_eq_some_iff.mp hlast
    rw [if_pos (by simp), List.append_assoc, List.singleton_append, components_append,
      names_singleton h hne hdot]
  · rw [if_neg (by simp [hempty, hlast]), components_append_of_ne_nil hempty,
      names_singleton h hne hdot]

/-- The name of a file tells its extension, whatever directory it is in. -/
theorem extension?_join (p : Path) (h : '/' ∉ name) (hne : name ≠ []) (hdot : name ≠ ['.']) :
    (p.join name).extension? = extension? name := by
  have hfile : (p.join name).fileName? = fileName? name := by
    unfold fileName?
    rw [components_join p h hne hdot, components_of_name h hne, List.getLast?_concat]
    rfl
  rw [extension?, hfile, extension?]

end Path

end TypeSignature
