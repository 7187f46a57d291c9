import TypeSignature.Proofs.EastConst
import TypeSignature.Proofs.Gaps
import TypeSignature.Proofs.Tree.Names

/-!
# Declarators — what a moved `const` qualifies

In `const T D` the leading `const` qualifies the type that `T` names, whatever pointers and
references the declarator `D` puts behind it, so the one place it can move to is that of
`T const D`.  Moving `const` passes over the name and stops in front of the first listed tail that
the declarator ends with.  A declarator that is a listed tail as a whole keeps its meaning; of any
other, the signs in front of the tail become part of what is `const`.
-/

namespace TypeSignature

open Text

/-! ## 1. Names and declarators as they are written -/

/-- The tokens of a declarator. -/
inductive Sign where
  | pointer
  | reference
  | const
  deriving DecidableEq, Repr

namespace Sign

/-- The spelling of a token. -/
def text : Sign → Text
  | pointer => ['*']
  | reference => ['&']
  | const => "const".toList

/-- The last character of a token. -/
def last : Sign → Char
  | pointer => '*'
  | reference => '&'
  | const => 't'

/-- A token may stand behind another, or come first; `const` stands directly behind `*` only. -/
def Follows (before sign : Option Sign) : Prop := sign = some const → before = some pointer

end Sign

/-- Tokens one after the other, each with the white space in front of it. -/
def tokensText (tokens : List (Text × Sign)) : Text :=
  tokens.flatMap fun token => token.1 ++ token.2.text

/-- A declarator as it is written. -/
structure Declarator where
  /-- The tokens, each with the white space in front of it. -/
  tokens : List (Text × Sign)
  blank : ∀ token ∈ tokens, ∀ c ∈ token.1, isBlank c = true
  follows : (none :: tokens.map fun token => some token.2).IsChain Sign.Follows

/-- The name of a type as it is written: a word, and perhaps arguments in angle brackets. -/
structure TypeName where
  word : Text
  /-- The arguments with their brackets, if there are any. -/
  group : Text
  isWord : IsWord word
  ne_const : word ≠ "const".toList
  enclosed : group = [] ∨ ∃ arguments, group = '<' :: (arguments ++ ['>'])

namespace Declarator

/-- The tokens without white space. -/
def signs (d : Declarator) : List Sign := d.tokens.map Prod.snd

def text (d : Declarator) : Text := tokensText d.tokens

/-- What canonical spacing makes of the declarator behind a name. -/
def canonical (d : Declarator) : Text :=
  if d.tokens = [] then [] else ' ' :: canonicalSpacing d.text

end Declarator

def TypeName.text (n : TypeName) : Text := n.word ++ n.group

/-- `const T D` in canonical spacing. -/
def constInFront (n : TypeName) (d : Declarator) : Text :=
  canonicalSpacing ("const ".toList ++ n.text ++ " ".toList ++ d.text)

/-- `T const D` in canonical spacing. -/
def constBehind (n : TypeName) (d : Declarator) : Text :=
  canonicalSpacing (n.text ++ " const ".toList ++ d.text)

/-- The tails that `const` is moved in front of, the empty one at last. -/
def eastTails : List Text := eastConstTails.map Prod.fst ++ [[]]

/-- The declarators that are listed as tails. -/
def listedDeclarators : List (List Sign) :=
  [[.pointer, .const], [.pointer, .const, .reference], [.pointer, .reference], [.reference],
   [.pointer], []]

/-! ## 2. Declarators in canonical spacing -/

theorem Sign.visible (sign : Sign) : ∀ c ∈ sign.text, isBlank c = false := by
  have hall : sign.text.all (!isBlank ·) = true := by cases sign <;> rfl
  simpa using hall

/-- Tokens differ in their first characters. -/
theorem flatMap_text_injective : Function.Injective (List.flatMap Sign.text) := by
  intro signs
  induction signs with
  | nil =>
    intro signs' h
    cases signs' with
    | nil => rfl
    | cons sign' signs' => cases sign' <;> simp [Sign.text] at h
  | cons sign signs ih =>
    intro signs' h
    cases signs' with
    | nil => cases sign <;> simp [Sign.text] at h
    | cons sign' signs' =>
      cases sign <;> cases sign' <;> simp [Sign.text] at h
      all_goals rw [ih h]

theorem settled_sign {before : Option Sign} {sign : Sign} (h : Sign.Follows before (some sign))
    (spaced spaced' : Bool) : settled (before.map Sign.last) spaced sign.text
      = settled (before.map Sign.last) spaced' sign.text := by
  unfold Sign.Follows at h
  rcases before with _ | _ | _ | _ <;> cases sign <;> cases spaced <;> cases spaced' <;>
    first | rfl | simp at h

/-- White space between the tokens does not count: each gap has a `*` or `&` on one side. -/
theorem settled_tokensText {tokens : List (Text × Sign)}
    (hblank : ∀ token ∈ tokens, ∀ c ∈ token.1, isBlank c = true) {before : Option Sign}
    (hfollows : (before :: tokens.map fun token => some token.2).IsChain Sign.Follows)
    (spaced spaced' : Bool) : settled (before.map Sign.last) spaced (tokensText tokens)
      = settled (before.map Sign.last) spaced' ((tokens.map Prod.snd).flatMap Sign.text) := by
  induction tokens generalizing before spaced spaced' with
  | nil => rfl
  | cons token tokens ih =>
    obtain ⟨gap, sign⟩ := token
    obtain ⟨hgap, hblank⟩ := List.forall_mem_cons.mp hblank
    rw [List.map_cons, List.isChain_cons_cons] at hfollows
    have hlast : lastVisible (before.map Sign.last) sign.text = some sign.last := by
      cases sign <;> rfl
    have hends : ∀ spaced, endsSpaced spaced sign.text = false := by
      intro spaced
      cases sign <;> rfl
    rw [tokensText, List.flatMap_cons, List.map_cons, List.flatMap_cons, List.append_assoc,
      settled_blanks_append hgap]
    apply settled_append_congr (settled_sign hfollows.1 _ _)
    rw [hlast, hends, hends]
    exact ih hblank hfollows.2 false false

namespace Declarator

theorem canonicalSpacing_text (d : Declarator) :
    canonicalSpacing d.text = canonicalSpacing (d.signs.flatMap Sign.text) :=
  canonicalSpacing_of_settled (settled_tokensText d.blank d.follows false false)

theorem nonblank_text (d : Declarator) : nonblank d.text = d.signs.flatMap Sign.text := by
  have hvisible : ∀ c ∈ d.signs.flatMap Sign.text, isBlank c = false := by
    intro c hc
    obtain ⟨sign, -, hc⟩ := List.mem_flatMap.mp hc
    exact sign.visible c hc
  rw [← nonblank_of_visible hvisible]
  exact nonblank_eq_of_settled (settled_tokensText d.blank d.follows false false)

/-- A declarator that is not empty begins with `*` or `&`. -/
theorem text_cases (d : Declarator) : d.tokens = [] ∨ d.tokens ≠ [] ∧
    ∃ gap y rest, d.text = gap ++ y :: rest ∧ (∀ c ∈ gap, isBlank c = true) ∧
      (y = '*' ∨ y = '&') := by
  obtain ⟨tokens, hblank, hfollows⟩ := d
  cases tokens with
  | nil => exact .inl rfl
  | cons token tokens =>
    obtain ⟨gap, sign⟩ := token
    have hgap := (List.forall_mem_cons.mp hblank).1
    have hsign := (List.isChain_cons_cons.mp hfollows).1
    have htext : text ⟨(gap, sign) :: tokens, hblank, hfollows⟩
        = gap ++ (sign.text ++ tokensText tokens) := by
      simp [text, tokensText]
    refine .inr ⟨List.cons_ne_nil _ _, gap, ?_⟩
    rw [htext]
    cases sign with
    | pointer => exact ⟨'*', tokensText tokens, rfl, hgap, .inl rfl⟩
    | reference => exact ⟨'&', tokensText tokens, rfl, hgap, .inr rfl⟩
    | const => exact absurd (hsign rfl) (by simp)

/-- Behind a name, a declarator is empty or begins with a space and `*` or `&`. -/
theorem canonical_cases (d : Declarator) : d.canonical = [] ∨
    ∃ y rest, d.canonical = ' ' :: y :: rest ∧ (y = '*' ∨ y = '&') := by
  rcases d.text_cases with htokens | ⟨htokens, gap, y, rest, htext, hgap, hy⟩
  · left
    rw [canonical, if_pos htokens]
  · right
    have hvisible : isBlank y = false := by rcases hy with rfl | rfl <;> decide
    have hhead : (canonicalSpacing d.text).head? = some y := by
      rw [head?_canonicalSpacing, htext, nonblank_append, nonblank_eq_nil hgap,
        nonblank_cons_of_visible hvisible]
      rfl
    obtain ⟨rest, hrest⟩ := List.head?_eq_some_iff.mp hhead
    exact ⟨y, rest, by rw [canonical, if_neg htokens, hrest], hy⟩

theorem head?_canonical (d : Declarator) : ∀ c ∈ d.canonical.head?, c = ' ' := by
  intro c hc
  rcases d.canonical_cases with h | ⟨y, rest, h, -⟩
  · simp [h] at hc
  · simpa [h, eq_comm] using hc

/-- The listed declarators are those that come to a listed tail. -/
theorem canonical_mem_eastTails_iff (d : Declarator) :
    d.canonical ∈ eastTails ↔ d.signs ∈ listedDeclarators := by
  have htails : eastTails = listedDeclarators.map fun signs =>
      if signs = [] then [] else ' ' :: canonicalSpacing (signs.flatMap Sign.text) := by
    decide
  have hlisted : ∀ signs ∈ listedDeclarators, nonblank (if signs = [] then [] else
      ' ' :: canonicalSpacing (signs.flatMap Sign.text)) = signs.flatMap Sign.text := by
    decide
  have hempty : d.tokens = [] ↔ d.signs = [] := by simp [signs]
  rw [htails, List.mem_map]
  constructor
  · rintro ⟨signs, hsigns, h⟩
    -- the characters tell the tokens
    have hsame : signs.flatMap Sign.text = d.signs.flatMap Sign.text := by
      rw [← hlisted signs hsigns, h, canonical]
      split
      · rename_i htokens
        rw [hempty.mp htokens]
        rfl
      · rw [nonblank_cons, nonblank_canonicalSpacing, d.nonblank_text]
        rfl
    rwa [← flatMap_text_injective hsame]
  · intro h
    refine ⟨d.signs, h, ?_⟩
    rw [canonical, d.canonicalSpacing_text]
    simp only [hempty]

end Declarator

/-! ## 3. Names in canonical spacing -/

theorem spacedBehind_of_unruled {x : Char} {s : Text} (hx : x ∉ ruledChars)
    (hvisible : ∀ c ∈ s, isBlank c = false) (hs : ∀ c ∈ s, c ∉ ruledChars) :
    SpacedBehind x false s := by
  induction s generalizing x with
  | nil => exact .nil
  | cons c s ih =>
    obtain ⟨hc, hvisible⟩ := List.forall_mem_cons.mp hvisible
    obtain ⟨hunruled, hs⟩ := List.forall_mem_cons.mp hs
    have hsingle : ¬ Doubles x c := by
      rintro ⟨-, rfl | rfl⟩ <;> simp [ruledChars] at hx
    exact SpacedBehind.gap hc hsingle (spaceBetween_of_unruled hx hunruled false)
      (ih hunruled hvisible hs)

theorem IsWord.canonicalSpacing_eq {s : Text} (h : IsWord s) : canonicalSpacing s = s := by
  obtain ⟨hne, hvisible, hunruled⟩ := h
  obtain ⟨c, s, rfl⟩ := List.exists_cons_of_ne_nil hne
  obtain ⟨hc, hvisible⟩ := List.forall_mem_cons.mp hvisible
  obtain ⟨hx, hs⟩ := List.forall_mem_cons.mp hunruled
  exact (CanonicallySpaced.cons hc (spacedBehind_of_unruled hx hvisible hs)).canonicalSpacing_eq

theorem IsWord.nonblank_eq {s : Text} (h : IsWord s) : nonblank s = s :=
  nonblank_of_visible h.visible

/-- The last character of a name: one without a rule, or the bracket that closes its arguments. -/
def EndsName (x : Char) : Prop := x = '>' ∨ x ∉ ruledChars

theorem spaceBetween_of_endsName {x y : Char} (hx : EndsName x) (hy : y = '*' ∨ y = '&')
    (spaced : Bool) : spaceBetween x y spaced = true := by
  rcases hx with rfl | hx
  · rcases hy with rfl | rfl <;> simp [spaceBetween]
  · simp only [ruledChars, List.mem_cons, List.not_mem_nil, or_false, not_or] at hx
    rcases hy with rfl | rfl <;> simp [spaceBetween, hx]

theorem spaceBetween_const_of_endsName {x : Char} (hx : EndsName x) :
    spaceBetween x 'c' true = true := by
  rcases hx with rfl | hx
  · rfl
  · exact spaceBetween_of_unruled hx (by decide) true

theorem not_doubles_of_endsName {x : Char} (hx : EndsName x) (y : Char) : ¬ Doubles x y := by
  rintro ⟨-, rfl | rfl⟩ <;> simp [EndsName, ruledChars] at hx

namespace TypeName

variable (n : TypeName)

theorem exists_getLast?_word : ∃ x, n.word.getLast? = some x ∧ x ∉ ruledChars :=
  ⟨_, List.getLast?_eq_some_getLast n.isWord.nonempty,
    n.isWord.unruled _ (List.getLast_mem n.isWord.nonempty)⟩

theorem exists_text_eq_cons :
    ∃ c rest, isBlank c = false ∧ c ∉ ruledChars ∧ n.text = c :: rest := by
  obtain ⟨c, word, hword⟩ := List.exists_cons_of_ne_nil n.isWord.nonempty
  have hc : c ∈ n.word := by rw [hword]; exact List.mem_cons_self
  exact ⟨c, word ++ n.group, n.isWord.visible c hc, n.isWord.unruled c hc, by rw [text, hword]; rfl⟩

theorem exists_getLast?_nonblank : ∃ x, (nonblank n.text).getLast? = some x ∧ EndsName x := by
  rw [text, nonblank_append, n.isWord.nonblank_eq]
  rcases n.enclosed with hgroup | ⟨arguments, hgroup⟩
  · obtain ⟨x, hlast, hx⟩ := n.exists_getLast?_word
    exact ⟨x, by rwa [hgroup, nonblank_nil, List.append_nil], .inr hx⟩
  · have hclosing : nonblank ['>'] = ['>'] := by decide
    refine ⟨'>', ?_, .inl rfl⟩
    rw [hgroup, nonblank_cons, nonblank_append, hclosing, ← List.append_assoc, ← List.append_assoc,
      List.getLast?_concat]

theorem canonicalSpacing_text :
    canonicalSpacing n.text = n.word ++ canonicalSpacing n.group := by
  have hnil : canonicalSpacing [] = [] := canonicalSpacing_eq_nil_iff.mpr rfl
  rw [text]
  rcases n.enclosed with hgroup | ⟨arguments, hgroup⟩
  · rw [hgroup, hnil, List.append_nil, n.isWord.canonicalSpacing_eq]
  · obtain ⟨x, hlast, hx⟩ := n.exists_getLast?_word
    have hends : endsSpaced false n.word = false := by
      obtain ⟨init, hinit⟩ := List.getLast?_eq_some_iff.mp hlast
      rw [hinit, endsSpaced_concat_of_visible]
      exact n.isWord.visible x (by simp [hinit])
    -- arguments follow the word without a gap
    have hgap : spaceBetween x '<' false = false := by
      simp only [ruledChars, List.mem_cons, List.not_mem_nil, or_false, not_or] at hx
      simp [spaceBetween, hx]
    rw [hgroup, canonicalSpacing_append_cons (by rwa [n.isWord.nonblank_eq]) (by decide)
      (not_doubles_of_endsName (.inr hx) '<'), n.isWord.canonicalSpacing_eq, hends, hgap,
      spaceIf_false, List.nil_append]

/-- What stands behind the word of a name belongs to a bracket. -/
theorem head?_canonicalSpacing_group : ∀ c ∈ (canonicalSpacing n.group).head?, c = '<' := by
  intro c hc
  rw [head?_canonicalSpacing] at hc
  rcases n.enclosed with hgroup | ⟨arguments, hgroup⟩
  · simp [hgroup] at hc
  · have hopening : nonblank ['<'] = ['<'] := by decide
    rw [hgroup, nonblank_cons, hopening] at hc
    exact (Option.some.inj hc).symm

theorem closed : ' ' ∉ canonicalSpacing n.text ∨
    (canonicalSpacing n.text).getLast? = some '>' := by
  rcases n.enclosed with hgroup | ⟨arguments, hgroup⟩
  · left
    have hnil : canonicalSpacing [] = [] := canonicalSpacing_eq_nil_iff.mpr rfl
    rw [canonicalSpacing_text, hgroup, hnil, List.append_nil]
    intro hspace
    have hvisible := n.isWord.visible ' ' hspace
    simp at hvisible
  · right
    have hclosing : nonblank ['>'] = ['>'] := by decide
    rw [getLast?_canonicalSpacing, text, nonblank_append, hgroup, nonblank_cons, nonblank_append,
      hclosing, ← List.append_assoc, ← List.append_assoc, List.getLast?_concat]

end TypeName

/-- A declarator behind a name is spaced on its own. -/
theorem canonicalSpacing_append_text {s : Text} {x : Char} (hx : (nonblank s).getLast? = some x)
    (hname : EndsName x) (d : Declarator) :
    canonicalSpacing (s ++ d.text) = canonicalSpacing s ++ d.canonical := by
  rcases d.text_cases with htokens | ⟨htokens, gap, y, rest, htext, hgap, hy⟩
  · simp [Declarator.text, Declarator.canonical, htokens, tokensText]
  · have hvisible : isBlank y = false := by rcases hy with rfl | rfl <;> decide
    have hlast : (nonblank (s ++ gap)).getLast? = some x := by
      rw [nonblank_append, nonblank_eq_nil hgap, List.append_nil, hx]
    rw [Declarator.canonical, if_neg htokens, htext, canonicalSpacing_blanks_append hgap,
      ← List.append_assoc,
      canonicalSpacing_append_cons hlast hvisible (not_doubles_of_endsName hname y),
      canonicalSpacing_append_blanks s hgap, spaceBetween_of_endsName hname hy, spaceIf_true,
      List.singleton_append]

theorem constInFront_eq (n : TypeName) (d : Declarator) :
    constInFront n d = "const ".toList ++ (canonicalSpacing n.text ++ d.canonical) := by
  obtain ⟨x, hlast, hx⟩ := n.exists_getLast?_nonblank
  obtain ⟨c, rest, hc, hunruled, htext⟩ := n.exists_text_eq_cons
  have hspace : ∀ c ∈ " ".toList, isBlank c = true := List.forall_mem_singleton.mpr isBlank_space
  have hends : (nonblank ("const ".toList ++ n.text ++ " ".toList)).getLast? = some x := by
    rw [nonblank_append, nonblank_eq_nil hspace, List.append_nil, nonblank_append,
      List.getLast?_append, hlast, Option.some_or]
  have hgap : spaceBetween 't' c true = true := spaceBetween_of_unruled (by decide) hunruled true
  have hconst : canonicalSpacing "const ".toList = "const".toList := by decide
  have hword : EndsName 't' := .inr (by decide)
  have hlead : endsSpaced false "const ".toList = true := rfl
  rw [constInFront, canonicalSpacing_append_text hends hx, canonicalSpacing_append_blanks _ hspace,
    htext, canonicalSpacing_append_cons (x := 't') rfl hc (not_doubles_of_endsName hword c), hlead,
    hgap, hconst, spaceIf_true]
  simp

theorem constBehind_eq (n : TypeName) (d : Declarator) :
    constBehind n d = canonicalSpacing n.text ++ (" const".toList ++ d.canonical) := by
  obtain ⟨x, hlast, hx⟩ := n.exists_getLast?_nonblank
  have hspace : ∀ c ∈ " ".toList, isBlank c = true := List.forall_mem_singleton.mpr isBlank_space
  have hends : (nonblank (n.text ++ " const ".toList)).getLast? = some 't' := by
    rw [nonblank_append, List.getLast?_append]
    rfl
  have hname : (nonblank (n.text ++ " ".toList)).getLast? = some x := by
    rw [nonblank_append, nonblank_eq_nil hspace, List.append_nil, hlast]
  have hgap : endsSpaced false (n.text ++ " ".toList) = true := by
    rw [endsSpaced_append]
    rfl
  have hconst : canonicalSpacing ('c' :: "onst ".toList) = "const".toList := by decide
  have hword : EndsName 't' := .inr (by decide)
  have htext : n.text ++ " const ".toList = (n.text ++ " ".toList) ++ 'c' :: "onst ".toList := by
    simp
  rw [constBehind, canonicalSpacing_append_text hends hword, htext,
    canonicalSpacing_append_cons hname (by decide) (not_doubles_of_endsName hx 'c'), hgap,
    spaceBetween_const_of_endsName hx, canonicalSpacing_append_blanks _ hspace, hconst]
  simp

/-! ## 4. Moving `const` past a name -/

section

variable {name d : Text} (hclosed : ' ' ∉ name ∨ name.getLast? = some '>')

include hclosed

/-- No listed tail reaches into a name. -/
theorem beforeTail?_append {tail : Text} (hhead : tail.head? = some ' ') (htail : '>' ∉ tail) :
    (name ++ d).beforeTail? tail = (d.beforeTail? tail).map (name ++ ·) := by
  ext rest
  rw [Option.map_eq_some_iff]
  simp only [beforeTail?_eq_some_iff]
  constructor
  · intro h
    rcases List.append_eq_append_iff.mp h with ⟨skipped, rfl, hd⟩ | ⟨reached, hname, htext⟩
    · exact ⟨skipped, hd, rfl⟩
    · cases reached with
      | nil => exact ⟨[], htext.symm, by rw [hname, List.append_nil, List.append_nil]⟩
      | cons c reached =>
        -- what it reaches begins with the tail's space and ends with the name's bracket
        exfalso
        rw [htext] at hhead htail
        have hc : c = ' ' := Option.some.inj hhead
        rcases hclosed with hspace | hlast
        · exact hspace (by rw [hname, hc]; simp)
        · rw [hname, List.getLast?_append_of_ne_nil _ (List.cons_ne_nil c reached)] at hlast
          exact htail (List.mem_append_left _ (List.mem_of_mem_getLast? hlast))
  · rintro ⟨skipped, rfl, rfl⟩
    rw [List.append_assoc]

theorem eastConstTail?_append {tails : List (Text × Text)}
    (htails : ∀ row ∈ tails, row.1.head? = some ' ' ∧ '>' ∉ row.1) :
    eastConstTail? ("const ".toList ++ (name ++ d)) tails
      = (eastConstTail? ("const ".toList ++ d) tails).map (name ++ ·) := by
  have hstrip : ∀ s tail : Text,
      stripSurrounding ("const ".toList ++ s) "const ".toList tail = s.beforeTail? tail := by
    intro s tail
    rw [stripSurrounding, afterLead?_eq_some_iff.mpr rfl]
    rfl
  induction tails with
  | nil => rfl
  | cons row tails ih =>
    obtain ⟨⟨hhead, htail⟩, htails⟩ := List.forall_mem_cons.mp htails
    rw [eastConstTail?, eastConstTail?, hstrip, hstrip, beforeTail?_append hclosed hhead htail,
      ih htails]
    cases d.beforeTail? row.1 <;> simp

end

/-- A leading `const` goes in front of the first listed tail, and to the end if there is none. -/
theorem eastConst_const_append {s : Text} (hs : ∀ c ∈ s.head?, c ≠ '*') :
    eastConst ("const ".toList ++ s)
      = (eastConstTail? ("const ".toList ++ s) eastConstTails).getD (s ++ " const".toList) := by
  have hlead : "const ".toList.isPrefixOf ("const ".toList ++ s) = true :=
    List.isPrefixOf_iff_prefix.mpr (List.prefix_append _ _)
  have hpointer : afterLead? ("const ".toList ++ s) "const * ".toList = none := by
    rw [Option.eq_none_iff_forall_ne_some]
    intro rest hrest
    have hpointer : s = "* ".toList ++ rest := by simpa using afterLead?_eq_some_iff.mp hrest
    rw [hpointer] at hs
    exact hs '*' rfl rfl
  have hconst : afterLead? ("const ".toList ++ s) "const ".toList = some s :=
    afterLead?_eq_some_iff.mpr rfl
  rw [eastConst, hlead, hpointer, hconst, if_neg (by simp)]
  cases eastConstTail? ("const ".toList ++ s) eastConstTails <;> rfl

/-- A name makes no difference to what `const` does behind it. -/
theorem eastConst_name_append {name d : Text} (hne : name ≠ []) (hname : ∀ c ∈ name.head?, c ≠ '*')
    (hclosed : ' ' ∉ name ∨ name.getLast? = some '>') (hd : ∀ c ∈ d.head?, c = ' ') :
    eastConst ("const ".toList ++ (name ++ d)) = name ++ eastConst ("const ".toList ++ d) := by
  have htails : ∀ row ∈ eastConstTails, row.1.head? = some ' ' ∧ '>' ∉ row.1 := by decide
  have hwhole : ∀ c ∈ (name ++ d).head?, c ≠ '*' := by
    obtain ⟨a, name, rfl⟩ := List.exists_cons_of_ne_nil hne
    exact hname
  have hbehind : ∀ c ∈ d.head?, c ≠ '*' := by
    intro c hc
    rw [hd c hc]
    decide
  rw [eastConst_const_append hwhole, eastConst_const_append hbehind,
    eastConstTail?_append hclosed htails]
  cases eastConstTail? ("const ".toList ++ d) eastConstTails <;> simp

theorem exists_eastConst_eq {d : Text} (hd : ∀ c ∈ d.head?, c = ' ') :
    ∃ skipped tail, d = skipped ++ tail ∧ tail ∈ eastTails ∧
      eastConst ("const ".toList ++ d) = skipped ++ (" const".toList ++ tail) := by
  have heast : ∀ row ∈ eastConstTails, row.2 = " const".toList ++ row.1 := by decide
  have hbehind : ∀ c ∈ d.head?, c ≠ '*' := by
    intro c hc
    rw [hd c hc]
    decide
  rw [eastConst_const_append hbehind]
  cases htail : eastConstTail? ("const ".toList ++ d) eastConstTails with
  | none => exact ⟨d, [], by simp, by simp [eastTails], by simp⟩
  | some out =>
    obtain ⟨row, hrow, skipped, hs, hout⟩ := eastConstTail?_eq_some htail
    refine ⟨skipped, row.1, List.append_cancel_left hs, ?_, ?_⟩
    · exact List.mem_append_left _ (List.mem_map_of_mem hrow)
    · rw [Option.getD_some, hout, heast row hrow]

/-- In front of a listed declarator, and of no other, `const` stops at once. -/
theorem eastConst_canonical_iff (d : Declarator) :
    eastConst ("const ".toList ++ d.canonical) = " const".toList ++ d.canonical ↔
      d.signs ∈ listedDeclarators := by
  have hlisted : ∀ tail ∈ eastTails,
      eastConst ("const ".toList ++ tail) = " const".toList ++ tail := by
    decide
  rw [← d.canonical_mem_eastTails_iff]
  refine ⟨fun h => ?_, hlisted d.canonical⟩
  obtain ⟨skipped, tail, hd, htail, hmoved⟩ := exists_eastConst_eq d.head?_canonical
  have hcommute : skipped ++ " const".toList = " const".toList ++ skipped := by
    rw [hmoved, hd, ← List.append_assoc, ← List.append_assoc] at h
    exact List.append_cancel_right h
  -- what is skipped would begin with a space and `c`, but has `*` or `&` there
  rcases skipped with _ | ⟨a, _ | ⟨c, skipped⟩⟩
  · rwa [hd, List.nil_append]
  · simp at hcommute
  · have hc : c = 'c' := by
      have hboth : a = ' ' ∧ c = 'c' ∧
          skipped ++ " const".toList = "onst".toList ++ a :: c :: skipped := by
        simpa using hcommute
      exact hboth.2.1
    rcases d.canonical_cases with hnil | ⟨y, rest, hsign, hy⟩
    · rw [hd] at hnil
      simp at hnil
    · have hsame : a = ' ' ∧ c = y ∧ skipped ++ tail = rest := by
        rw [hd] at hsign
        simpa using hsign
      rw [← hsame.2.1, hc] at hy
      simp at hy

/-! ## 5. What is qualified -/

theorem eastConst_constInFront (n : TypeName) (d : Declarator) : eastConst (constInFront n d)
    = canonicalSpacing n.text ++ eastConst ("const ".toList ++ d.canonical) := by
  obtain ⟨c, rest, hc, hunruled, htext⟩ := n.exists_text_eq_cons
  have hhead : (canonicalSpacing n.text).head? = some c := by
    rw [head?_canonicalSpacing, htext, nonblank_cons_of_visible hc]
    rfl
  rw [constInFront_eq, eastConst_name_append ?_ ?_ n.closed d.head?_canonical]
  · intro hnil
    rw [hnil] at hhead
    cases hhead
  · intro x hx hpointer
    rw [hhead] at hx
    obtain rfl := Option.some.inj hx
    rw [hpointer] at hunruled
    simp [ruledChars] at hunruled

/-- The word that a text begins with ends at the first space or bracket. -/
def leadingWord (s : Text) : Text := s.takeWhile fun c => c != ' ' && c != '<'

theorem leadingWord_append {s rest : Text} (hs : IsWord s)
    (hrest : ∀ c ∈ rest.head?, c = ' ' ∨ c = '<') : leadingWord (s ++ rest) = s := by
  have hword : ∀ c ∈ s, (c != ' ' && c != '<') = true := by
    intro c hc
    have hspace := ne_space_of_visible (hs.visible c hc)
    have hbracket : c ≠ '<' := by
      rintro rfl
      exact hs.unruled '<' hc (by simp [ruledChars])
    simp [hspace, hbracket]
  have hend : rest.takeWhile (fun c => c != ' ' && c != '<') = [] := by
    cases rest with
    | nil => rfl
    | cons c rest => rcases hrest c rfl with rfl | rfl <;> rfl
  rw [leadingWord, List.takeWhile_append_of_pos hword, hend, List.append_nil]

/-- Moving changes the text, for the name's word is not `const`. -/
theorem eastConst_constInFront_ne (n : TypeName) (d : Declarator) :
    eastConst (constInFront n d) ≠ constInFront n d := by
  obtain ⟨skipped, tail, hd, -, hmoved⟩ := exists_eastConst_eq d.head?_canonical
  have hbehind : ∀ c ∈ (canonicalSpacing n.group ++ (skipped ++ (" const".toList ++ tail))).head?,
      c = ' ' ∨ c = '<' := by
    have hskipped : ∀ c ∈ skipped.head?, c = ' ' := by
      intro c hc
      exact d.head?_canonical c (by rw [hd, List.head?_append, hc]; rfl)
    intro c hc
    rw [List.head?_append, List.head?_append] at hc
    rcases hgroup : (canonicalSpacing n.group).head? with _ | a
    · rcases hskip : skipped.head? with _ | a
      · rw [hgroup, hskip] at hc
        exact .inl (Option.some.inj hc).symm
      · rw [hgroup, hskip] at hc
        exact .inl ((Option.some.inj hc) ▸ hskipped a hskip)
    · rw [hgroup] at hc
      exact .inr ((Option.some.inj hc) ▸ n.head?_canonicalSpacing_group a hgroup)
  have hconst : leadingWord (constInFront n d) = "const".toList := by
    rw [constInFront_eq]
    rfl
  intro h
  rw [← h, eastConst_constInFront, hmoved, n.canonicalSpacing_text, List.append_assoc,
    leadingWord_append n.isWord hbehind] at hconst
  exact n.ne_const hconst

/-- **A moved `const` qualifies the same type exactly in front of a listed declarator.** -/
theorem eastConst_qualifies_iff (n : TypeName) (d : Declarator) :
    eastConst (constInFront n d) = constInFront n d ∨
      eastConst (constInFront n d) = constBehind n d ↔ d.signs ∈ listedDeclarators := by
  rw [or_iff_right (eastConst_constInFront_ne n d), eastConst_constInFront, constBehind_eq,
    List.append_cancel_left_eq, eastConst_canonical_iff]

/-- A map to pointers, with white space in its arguments. -/
def TypeName.pointerMap : TypeName where
  word := "std::map".toList
  group := "<int, const char *>".toList
  isWord := isWord_of_isAlphanum (by decide) (by simp)
  ne_const := by decide
  enclosed := .inr ⟨"int, const char *".toList, rfl⟩

/-- ` * const&`, which is listed. -/
def Declarator.pointerConstReference : Declarator where
  tokens := [([' '], .pointer), ([' '], .const), ([], .reference)]
  blank := by simp
  follows := by simp [Sign.Follows]

/-- `**`, which is not. -/
def Declarator.pointerPointer : Declarator where
  tokens := [([], .pointer), ([], .pointer)]
  blank := by simp
  follows := by simp [Sign.Follows]

/-- The map stays `const` behind the one declarator and not behind the other. -/
theorem eastConst_qualifies_iff_map :
    constInFront .pointerMap .pointerConstReference
      = "const std::map<int, const char *> * const &".toList ∧
    eastConst "const std::map<int, const char *> * const &".toList
      = "std::map<int, const char *> const * const &".toList ∧
    constInFront .pointerMap .pointerPointer = "const std::map<int, const char *> **".toList ∧
    eastConst "const std::map<int, const char *> **".toList
      ≠ "const std::map<int, const char *> **".toList ∧
    eastConst "const std::map<int, const char *> **".toList
      ≠ "std::map<int, const char *> const **".toList := by
  have hfront : constInFront .pointerMap .pointerConstReference
      = "const std::map<int, const char *> * const &".toList := by decide +kernel
  have hbehind : constBehind .pointerMap .pointerConstReference
      = "std::map<int, const char *> const * const &".toList := by decide +kernel
  have hfront' : constInFront .pointerMap .pointerPointer
      = "const std::map<int, const char *> **".toList := by decide +kernel
  have hbehind' : constBehind .pointerMap .pointerPointer
      = "std::map<int, const char *> const **".toList := by decide +kernel
  have hlisted := eastConst_qualifies_iff .pointerMap .pointerConstReference
  have hunlisted := eastConst_qualifies_iff .pointerMap .pointerPointer
  rw [hfront, hbehind] at hlisted
  rw [hfront', hbehind'] at hunlisted
  have hmoved := hfront ▸ eastConst_constInFront_ne .pointerMap .pointerConstReference
  have hneither := not_or.mp (mt hunlisted.mp (by decide))
  exact ⟨hfront, (hlisted.mpr (by decide)).resolve_left hmoved, hfront', hneither⟩

/-- Both pointers of `const char **` become `const`, and what they point to does not. -/
theorem eastConst_pointerPointer :
    canonicalSpacing "const char **".toList = "const char **".toList ∧
      eastConst "const char **".toList = "char ** const".toList ∧
      canonicalSpacing "char const **".toList = "char const **".toList := by
  decide

end TypeSignature
