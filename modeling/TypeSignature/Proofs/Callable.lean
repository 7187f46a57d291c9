import TypeSignature.Callable
import TypeSignature.Proofs.Acceptance

/-!
# Callable — where the two groups of a signature are

A callable's signature is read from its end: the last `)` ends the parameters, and the last `)` in
front of the group that it closes ends the owner.  Reading a text backwards over groups finds the
bracket that opens the last one exactly when what stands between the two is balanced, so a signature
can be taken apart in one way at most, and one that cannot be is refused.
-/

namespace TypeSignature

open Text

variable {s before content rest body : Text} {c : Char}

/-! ## 1. Reading up to a character -/

theorem bne_of_not_mem (h : c ∉ s) : ∀ a ∈ s, (a != c) = true := by
  intro a ha
  simpa using ne_of_mem_of_not_mem ha h

theorem dropWhile_ne_eq_cons_iff {x : Char} : s.dropWhile (· != c) = x :: rest ↔
    x = c ∧ ∃ before, c ∉ before ∧ s = before ++ c :: rest := by
  constructor
  · intro h
    have hx : x = c := by
      have hstop := List.head_dropWhile_not (· != c) (l := s) (by simp [h])
      simpa [h] using hstop
    refine ⟨hx, s.takeWhile (· != c), fun hc => ?_, ?_⟩
    · have hpassed := List.mem_takeWhile_imp hc
      simp at hpassed
    · have hsplit := List.takeWhile_append_dropWhile (p := (· != c)) (l := s)
      rw [h, hx] at hsplit
      exact hsplit.symm
  · rintro ⟨rfl, before, hbefore, rfl⟩
    rw [List.dropWhile_append_of_pos (bne_of_not_mem hbefore), List.dropWhile_cons_of_neg (by simp)]

/-- The same from the other end. -/
theorem reverse_dropWhile_ne_eq_cons_iff {x : Char} {reversed : Text} :
    s.reverse.dropWhile (· != c) = x :: reversed ↔
      x = c ∧ ∃ rest, c ∉ rest ∧ s = reversed.reverse ++ c :: rest := by
  rw [dropWhile_ne_eq_cons_iff]
  refine and_congr_right fun _ => ?_
  constructor
  · rintro ⟨rest, hrest, hs⟩
    refine ⟨rest.reverse, by simpa using hrest, ?_⟩
    rw [← List.reverse_reverse s, hs]
    simp
  · rintro ⟨rest, hrest, rfl⟩
    exact ⟨rest.reverse, by simpa using hrest, by simp⟩

theorem dropWhile_ne_eq_nil_iff : s.dropWhile (· != c) = [] ↔ c ∉ s := by
  rw [List.dropWhile_eq_nil_iff]
  constructor
  · intro h hc
    simpa using h c hc
  · exact bne_of_not_mem

theorem reverse_dropWhile_ne_eq_nil_iff : s.reverse.dropWhile (· != c) = [] ↔ c ∉ s := by
  rw [dropWhile_ne_eq_nil_iff, List.mem_reverse]

/-! ## 2. The last group of a text -/

/-- Parentheses; a comma has no bearing on how they nest. -/
def Brackets.round : Brackets := ⟨'(', ')', ','⟩

/-- The number of parentheses open behind a text, unless one closes that was not opened. -/
def openGroups (s : Text) : Option Nat := Brackets.round.levelAfter true 0 s

/-- Every parenthesis has its partner. -/
def BalancedGroups (s : Text) : Prop := openGroups s = some 0

instance (s : Text) : Decidable (BalancedGroups s) := decEq (openGroups s) (some 0)

theorem openGroups_concat (s : Text) (c : Char) : openGroups (s ++ [c]) = (openGroups s).bind
    fun depth => if c = '(' then some (depth + 1)
      else if c = ')' then (if 0 < depth then some (depth - 1) else none) else some depth := by
  rw [openGroups, Brackets.levelAfter_concat]
  congr 1
  funext depth
  unfold Brackets.levelStep Brackets.role Brackets.round
  grind

/-- Reading backwards finds the parenthesis in front of the shortest text that leaves as many open
as are to be closed. -/
theorem groupStart_eq_some_iff {depth : Nat} {reversed inner front : Text} :
    groupStart depth content reversed = some (inner, front) ↔
      ∃ read, openGroups read = some depth ∧ reversed = read.reverse ++ '(' :: front ∧
        inner = read ++ content := by
  constructor
  · intro h
    -- what is read grows at its front, so a step adds the last character of the text read behind it
    fun_induction groupStart depth content reversed with
    | case1 => cases h
    | case2 depth content reversed ih =>
      obtain ⟨read, hopen, rfl, rfl⟩ := ih h
      refine ⟨read ++ [')'], ?_, by simp, by simp⟩
      rw [openGroups_concat, hopen]
      rfl
    | case3 content reversed =>
      cases h
      exact ⟨[], rfl, rfl, rfl⟩
    | case4 content reversed depth _ ih =>
      obtain ⟨read, hopen, rfl, rfl⟩ := ih h
      refine ⟨read ++ ['('], ?_, by simp, by simp⟩
      rw [openGroups_concat, hopen]
      rfl
    | case5 depth content c reversed hclosing hopening ih =>
      obtain ⟨read, hopen, rfl, rfl⟩ := ih h
      refine ⟨read ++ [c], ?_, by simp, by simp⟩
      rw [openGroups_concat, hopen, Option.bind_some, if_neg hopening, if_neg hclosing]
  · rintro ⟨read, hopen, rfl, rfl⟩
    induction read using List.reverseRecOn generalizing depth content with
    | nil =>
      cases hopen
      rfl
    | append_singleton read c ih =>
      rw [openGroups_concat, Option.bind_eq_some_iff] at hopen
      obtain ⟨level, hread, hstep⟩ := hopen
      have hrest : groupStart level (c :: content) (read.reverse ++ '(' :: front)
          = some (read ++ c :: content, front) := ih hread
      rw [List.reverse_concat, List.cons_append, List.append_assoc, List.singleton_append]
      unfold groupStart
      by_cases hclosing : c = ')'
      · have hlevel : level = depth + 1 := by
          simp [hclosing] at hstep
          omega
        rw [if_pos hclosing, ← hlevel, hrest]
      · rw [if_neg hclosing]
        by_cases hopening : c = '('
        · have hlevel : depth = level + 1 := by
            simpa [hopening, eq_comm] using hstep
          rw [if_pos hopening, hlevel]
          exact hrest
        · have hlevel : level = depth := by
            simpa [hopening, hclosing] using hstep
          rw [if_neg hopening, ← hlevel, hrest]

theorem lastGroup_eq_ok_iff : lastGroup s = .ok (before, content) ↔
    BalancedGroups content ∧ ∃ rest, ')' ∉ rest ∧
      s = before ++ '(' :: (content ++ ')' :: rest) := by
  unfold lastGroup
  constructor
  · intro h
    split at h
    · cases h
    · rename_i c reversed hreversed
      obtain ⟨-, rest, hrest, hs⟩ := reverse_dropWhile_ne_eq_cons_iff.mp hreversed
      split at h
      · cases h
      · rename_i inner front hgroup
        cases h
        obtain ⟨read, hopen, rfl, rfl⟩ := groupStart_eq_some_iff.mp hgroup
        refine ⟨by rwa [List.append_nil], rest, hrest, ?_⟩
        rw [hs]
        simp
  · rintro ⟨hbalanced, rest, hrest, rfl⟩
    have hreversed : (before ++ '(' :: (content ++ ')' :: rest)).reverse.dropWhile (· != ')')
        = ')' :: (content.reverse ++ '(' :: before.reverse) :=
      reverse_dropWhile_ne_eq_cons_iff.mpr ⟨rfl, rest, hrest, by simp⟩
    have hgroup : groupStart 0 [] (content.reverse ++ '(' :: before.reverse)
        = some (content, before.reverse) :=
      groupStart_eq_some_iff.mpr ⟨content, hbalanced, rfl, by simp⟩
    simp only [hreversed, hgroup, List.reverse_reverse]

theorem callableBody_eq_ok_iff : callableBody s = .ok body ↔
    ∃ wrapper init rest, '<' ∉ wrapper ∧ ')' ∉ rest ∧ body = init ++ [')'] ∧
      s = wrapper ++ '<' :: (init ++ ')' :: rest) := by
  unfold callableBody dropEndWhile
  constructor
  · intro h
    split at h
    · cases h
    · rename_i c inner hinner
      obtain ⟨-, wrapper, hwrapper, hs⟩ := dropWhile_ne_eq_cons_iff.mp hinner
      split at h
      · cases h
      · rename_i hbody
        cases h
        cases hreversed : inner.reverse.dropWhile (· != ')') with
        | nil => simp [hreversed] at hbody
        | cons c reversed =>
          obtain ⟨rfl, rest, hrest, rfl⟩ := reverse_dropWhile_ne_eq_cons_iff.mp hreversed
          exact ⟨wrapper, reversed.reverse, rest, hwrapper, hrest, by simp, hs⟩
  · rintro ⟨wrapper, init, rest, hwrapper, hrest, rfl, rfl⟩
    have hinner : (wrapper ++ '<' :: (init ++ ')' :: rest)).dropWhile (· != '<')
        = '<' :: (init ++ ')' :: rest) :=
      dropWhile_ne_eq_cons_iff.mpr ⟨rfl, wrapper, hwrapper, rfl⟩
    have hreversed : (init ++ ')' :: rest).reverse.dropWhile (· != ')') = ')' :: init.reverse :=
      reverse_dropWhile_ne_eq_cons_iff.mpr ⟨rfl, rest, hrest, by simp⟩
    rw [hinner]
    simp only [hreversed]
    simp

/-! ## 3. A signature taken apart -/

/-- A callable's signature taken apart, as `wrapper<result(owner)between(parameters)rest`. -/
structure CallableParts where
  wrapper : Text
  result : Text
  owner : Text
  between : Text
  parameters : Text
  rest : Text
  wrapper_unopened : '<' ∉ wrapper
  between_unclosed : ')' ∉ between
  rest_unclosed : ')' ∉ rest
  owner_balanced : BalancedGroups owner
  parameters_balanced : BalancedGroups parameters

namespace CallableParts

/-- What stands in front of the parameters. -/
def resultAndOwner (p : CallableParts) : Text :=
  p.result ++ '(' :: (p.owner ++ ')' :: p.between)

/-- The signature as a whole. -/
def text (p : CallableParts) : Text :=
  p.wrapper ++ '<' :: (p.resultAndOwner ++ '(' :: (p.parameters ++ ')' :: p.rest))

/-- How a callable with these parts is written, when a parameter and the result are written as
`write` says. -/
def describe (r : RuleSet) (write : Text → Except Error Text) (p : CallableParts) :
    Except Error Text := do
  let parameters ← (splitTypes p.parameters).mapM write
  let joined := join ", ".toList parameters
  let result ← write (trimBlanks p.result)
  pure ("lambda: (".toList ++ placeConst r (if joined = "void".toList then [] else joined)
    ++ ") -> ".toList ++ placeConst r result)

variable (p : CallableParts)

theorem callableBody_text :
    callableBody p.text = .ok (p.resultAndOwner ++ '(' :: (p.parameters ++ [')'])) :=
  callableBody_eq_ok_iff.mpr ⟨p.wrapper, p.resultAndOwner ++ '(' :: p.parameters, p.rest,
    p.wrapper_unopened, p.rest_unclosed, by simp, by simp [text]⟩

theorem lastGroup_body : lastGroup (p.resultAndOwner ++ '(' :: (p.parameters ++ [')']))
    = .ok (p.resultAndOwner, p.parameters) :=
  lastGroup_eq_ok_iff.mpr ⟨p.parameters_balanced, [], by simp, rfl⟩

theorem lastGroup_resultAndOwner : lastGroup p.resultAndOwner = .ok (p.result, p.owner) :=
  lastGroup_eq_ok_iff.mpr ⟨p.owner_balanced, p.between, p.between_unclosed, rfl⟩

theorem callableSignature_text (r : RuleSet) (clean : Bool) :
    callableSignature r clean p.text = p.describe r (cleanPart r clean) := by
  simp only [callableSignature, callableBody_text, lastGroup_body, lastGroup_resultAndOwner,
    refuseCallable, describe, parameterList, bind, Except.bind, pure, Except.pure]
  cases (splitTypes p.parameters).mapM (cleanPart r clean) <;> rfl

theorem takeWhile_text : p.text.takeWhile (· != '<') = p.wrapper := by
  rw [text, List.takeWhile_append_of_pos (bne_of_not_mem p.wrapper_unopened),
    List.takeWhile_cons_of_neg (by simp), List.append_nil]

/-- A signature can be taken apart in one way at most. -/
theorem text_injective : Function.Injective text := by
  intro p q h
  have hbody := p.callableBody_text
  have hlast := p.lastGroup_body
  have hnext := p.lastGroup_resultAndOwner
  rw [h, q.callableBody_text, Except.ok.injEq] at hbody
  rw [← hbody, q.lastGroup_body, Except.ok.injEq, Prod.mk.injEq] at hlast
  rw [← hlast.1, q.lastGroup_resultAndOwner, Except.ok.injEq, Prod.mk.injEq] at hnext
  have hwrapper : p.wrapper = q.wrapper := by rw [← p.takeWhile_text, h, q.takeWhile_text]
  have hbetween : p.between = q.between := by
    have howner := hlast.1
    rw [resultAndOwner, resultAndOwner, hnext.1, hnext.2] at howner
    simpa using howner.symm
  have hrest : p.rest = q.rest := by
    rw [text, text, hlast.1, hlast.2, hwrapper] at h
    simpa using h
  cases p
  cases q
  simp_all

end CallableParts

/-- What has a body, a last group in it and a last group in front of that can be taken apart. -/
theorem exists_callableParts {resultAndOwner parameters result owner : Text}
    (hbody : callableBody s = .ok body) (hlast : lastGroup body = .ok (resultAndOwner, parameters))
    (hnext : lastGroup resultAndOwner = .ok (result, owner)) :
    ∃ p : CallableParts, p.text = s := by
  obtain ⟨wrapper, init, rest, hwrapper, hrest, rfl, rfl⟩ := callableBody_eq_ok_iff.mp hbody
  obtain ⟨hparameters, behind, hbehind, hgroup⟩ := lastGroup_eq_ok_iff.mp hlast
  obtain ⟨howner, between, hbetween, hnext⟩ := lastGroup_eq_ok_iff.mp hnext
  -- nothing stands behind the last group, for a body ends with `)`
  have hnil : behind = [] := by
    rcases List.eq_nil_or_concat behind with hnil | ⟨front, c, rfl⟩
    · exact hnil
    · have hends : init ++ [')']
          = (resultAndOwner ++ '(' :: (parameters ++ ')' :: front)) ++ [c] := by
        simpa using hgroup
      have hc : [')'] = [c] := List.append_inj_right' hends rfl
      simp [← hc] at hbehind
  rw [hnil, hnext] at hgroup
  have hinit : init = result ++ '(' :: (owner ++ ')' :: between) ++ '(' :: parameters := by
    rw [← List.append_left_inj [')'], hgroup]
    simp
  refine ⟨⟨wrapper, result, owner, between, parameters, rest, hwrapper, hbetween, hrest, howner,
    hparameters⟩, ?_⟩
  rw [hinit]
  simp [CallableParts.text, CallableParts.resultAndOwner]

theorem parameterList_of_not_clean (r : RuleSet) (s : Text) : ∃ out,
    parameterList r false s = .ok out := by
  have hmap : (splitTypes s).mapM (cleanPart r false) = .ok (splitTypes s) := by
    have hpure := List.mapM_pure (m := Except Error) (l := splitTypes s) (f := id)
    rwa [List.map_id] at hpure
  rw [parameterList, hmap]
  exact ⟨_, rfl⟩

/-- **Exact extraction.**  A signature that can be taken apart is described by its parts, and the
first error in them is that of the whole; one that cannot be is refused. -/
theorem callableSignature_exact (r : RuleSet) (clean : Bool) (s : Text) :
    (∀ p : CallableParts, p.text = s →
      callableSignature r clean s = p.describe r (if clean then cleanForDisplay r else .ok)) ∧
    ((∀ p : CallableParts, p.text ≠ s) →
      ∃ fault : CallableFault,
        callableSignature r false s = .error (.malformedCallable s fault.message)) := by
  have hwrite : cleanPart r clean = if clean then cleanForDisplay r else .ok := by
    cases clean <;> rfl
  constructor
  · rintro p rfl
    rw [p.callableSignature_text, hwrite]
  · intro h
    cases hbody : callableBody s with
    | error fault =>
      refine ⟨fault, ?_⟩
      simp only [callableSignature, hbody, refuseCallable, bind, Except.bind]
    | ok body =>
      cases hlast : lastGroup body with
      | error fault =>
        refine ⟨fault, ?_⟩
        simp only [callableSignature, hbody, hlast, refuseCallable, bind, Except.bind]
      | ok groups =>
        obtain ⟨resultAndOwner, parameters⟩ := groups
        cases hnext : lastGroup resultAndOwner with
        | error fault =>
          obtain ⟨written, hwritten⟩ := parameterList_of_not_clean r parameters
          refine ⟨fault, ?_⟩
          simp only [callableSignature, hbody, hlast, hnext, hwritten, refuseCallable, bind,
            Except.bind]
        | ok groups =>
          obtain ⟨p, hp⟩ := exists_callableParts hbody hlast hnext
          exact absurd hp (h p)

/-- A member function that takes a pointer to a function. -/
def CallableParts.functionPointer : CallableParts where
  wrapper := "std::__1::__mem_fn".toList
  result := "int ".toList
  owner := "ns::$_4::*".toList
  between := []
  parameters := "int (*)(char), int".toList
  rest := " const>".toList
  wrapper_unopened := by decide
  between_unclosed := by decide
  rest_unclosed := by decide
  owner_balanced := by decide
  parameters_balanced := by decide

/-- The parentheses of a parameter stay with it, and a type without any is refused. -/
theorem callableSignature_exact_functionPointer :
    CallableParts.functionPointer.text
      = "std::__1::__mem_fn<int (ns::$_4::*)(int (*)(char), int) const>".toList ∧
    callableSignature .default true
        "std::__1::__mem_fn<int (ns::$_4::*)(int (*)(char), int) const>".toList
      = .ok "lambda: (int(*)(char), int) -> int".toList ∧
    (∀ p : CallableParts, p.text ≠ "__mem_fn<int>".toList) ∧
    ∃ fault : CallableFault, callableSignature .default false "__mem_fn<int>".toList
      = .error (.malformedCallable "__mem_fn<int>".toList fault.message) := by
  have htext : CallableParts.functionPointer.text
      = "std::__1::__mem_fn<int (ns::$_4::*)(int (*)(char), int) const>".toList := by decide
  have hdescribe : CallableParts.functionPointer.describe .default (cleanForDisplay .default)
      = .ok "lambda: (int(*)(char), int) -> int".toList := by
    decide +kernel
  have hrefused : ∀ p : CallableParts, p.text ≠ "__mem_fn<int>".toList := by
    intro p hp
    have hbody := p.callableBody_text
    rw [hp] at hbody
    cases hbody
  refine ⟨htext, ?_, hrefused, (callableSignature_exact .default false _).2 hrefused⟩
  rw [(callableSignature_exact .default true _).1 _ htext]
  exact hdescribe

end TypeSignature
