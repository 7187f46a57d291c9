import TypeSignature.Proofs.Callable
import TypeSignature.Proofs.Text.Positions

/-!
# Slicing — a callable's signature taken apart by byte positions

A signature can be taken apart by slices of it alone.  Their bounds come from looking for a
character from either end, and the beginning of a group is where a count of groups, raised at each
`)` and lowered at each `(`, comes back to zero.  This works only as long as the count that is
lowered is not zero, and as long as each slice has its bounds in order, in the text and where
characters end.  A computation of this kind writes down what it demands and stops at the first
demand that is not met.  There never is one, and the outcome is the same.
-/

namespace TypeSignature

open Text

namespace Slicing

/-! ## 1. Computations that make demands -/

/-- What a computation with positions relies on. -/
inductive Demand where
  /-- That a count can be lowered by one. -/
  | lower (count : Nat)
  /-- That a text has a part between two byte positions. -/
  | slice (s : Text) (start stop : Nat)
  deriving DecidableEq

/-- The count is positive; the bounds are in order, in the text and where it can be cut. -/
def Demand.Met : Demand → Prop
  | lower count => 0 < count
  | slice s start stop =>
    start ≤ stop ∧ stop ≤ byteSize s ∧ s.IsBoundary start ∧ s.IsBoundary stop

/-- The demands that a computation makes, in order, and its outcome.  It has none when it stops at a
demand that is not met. -/
structure Run (α : Type) where
  demands : List Demand
  outcome : Option α
  met_iff : outcome.isSome = true ↔ ∀ demand ∈ demands, demand.Met

namespace Run

variable {α β ε : Type}

def done (a : α) : Run α where
  demands := []
  outcome := some a
  met_iff := by simp

/-- Goes on with an outcome, if there is one. -/
def next (x : Run α) (f : α → Run β) : Run β where
  demands := x.demands ++ match x.outcome with
    | none => []
    | some a => (f a).demands
  outcome := x.outcome.bind fun a => (f a).outcome
  met_iff := by
    -- it stops in the first part, or all that the first part demands is met
    have hx := x.met_iff
    cases h : x.outcome with
    | none => simpa [h] using hx
    | some a =>
      have hall : ∀ demand ∈ x.demands, demand.Met := hx.mp (by rw [h]; rfl)
      simp only [Option.bind_some, (f a).met_iff, List.forall_mem_append]
      exact ⟨fun hrest => ⟨hall, hrest⟩, fun hboth => hboth.2⟩

instance : Monad Run where
  pure := done
  bind := next

def lower (count : Nat) : Run Nat where
  demands := [.lower count]
  outcome := if 0 < count then some (count - 1) else none
  met_iff := by simp [Demand.Met]

def slice (s : Text) (start stop : Nat) : Run Text where
  demands := [.slice s start stop]
  outcome := s.slice? start stop
  met_iff := by rw [isSome_slice?_iff, List.forall_mem_singleton, Demand.Met]

@[simp] theorem outcome_pure (a : α) : (pure a : Run α).outcome = some a := rfl

@[simp] theorem outcome_bind (x : Run α) (f : α → Run β) :
    (x >>= f).outcome = x.outcome.bind fun a => (f a).outcome := rfl

@[simp] theorem outcome_map (f : α → β) (x : Run α) : (f <$> x).outcome = x.outcome.map f := by
  show (x.outcome.bind fun a => some (f a)) = x.outcome.map f
  cases x.outcome <;> rfl

theorem outcome_slice_eq_some_iff {s t : Text} {start stop : Nat} :
    (slice s start stop).outcome = some t ↔
      ∃ u v, s = u ++ (t ++ v) ∧ byteSize u = start ∧ byteSize u + byteSize t = stop :=
  slice?_eq_some_iff

/-- What follows a part that can fail runs on its result. -/
theorem outcome_bind_except {x : ExceptT ε Run α} {e : Except ε α} {f : α → ExceptT ε Run β}
    {g : α → Except ε β} (hx : x.run.outcome = some e)
    (hf : ∀ a, (f a).run.outcome = some (g a)) : (x >>= f).run.outcome = some (e >>= g) := by
  rw [ExceptT.run_bind, outcome_bind, hx]
  cases e with
  | error => rfl
  | ok a => exact hf a

end Run

/-! ## 2. A signature by its slices -/

/-- What follows the first `<`, up to and with the last `)`. -/
def body (s : Text) : Run (Except CallableFault Text) :=
  match s.find? ['<'] with
  | none => pure (.error .noOpening)
  | some start => do
    let inner ← Run.slice s (start + 1) (byteSize s)
    match inner.findLast? ')' with
    | none => pure (.error .noClosing)
    | some last => do
      let body ← Run.slice inner 0 (last + 1)
      pure (.ok body)

/-- How far the beginning of a group has been sought. -/
inductive Search where
  /-- As many groups have been read whose beginnings have not. -/
  | seeking (depth : Nat)
  /-- The outermost of them begins at a byte position. -/
  | found (position : Nat)

/-- Reads the character at a byte position, of a text that is read backwards. -/
def step (depth position : Nat) (c : Char) : Run Search :=
  if c = ')' then pure (.seeking (depth + 1))
  else if c = '(' then do
    let depth ← Run.lower depth
    pure (if depth = 0 then .found position else .seeking depth)
  else pure (.seeking depth)

/-- Reads characters, given with their byte positions, until the beginning is found. -/
def search : (depth : Nat) → List (Nat × Char) → Run (Option Nat)
  | _, [] => pure none
  | depth, (position, c) :: ahead => do
    match ← step depth position c with
    | .seeking depth => search depth ahead
    | .found position => pure (some position)

/-- What precedes the last group, and what the group holds. -/
def group (s : Text) : Run (Except CallableFault (Text × Text)) :=
  match s.findLast? ')' with
  | none => pure (.error .noGroup)
  | some close => do
    let closed ← Run.slice s 0 (close + 1)
    match ← search 0 (indices closed).reverse with
    | none => pure (.error .unbalanced)
    | some start => do
      let before ← Run.slice s 0 start
      let content ← Run.slice s (start + 1) close
      pure (.ok (before, content))

/-- A callable's signature as `lambda: (PARAMETERS) -> RESULT`, in the order of
`callableSignature`. -/
def signature (r : RuleSet) (clean : Bool) (s : Text) : ExceptT Error Run Text := do
  let body ← ExceptT.mk (refuseCallable s <$> body s)
  let (resultAndOwner, parameters) ← ExceptT.mk (refuseCallable s <$> group body)
  let parameters ← ExceptT.mk (pure (parameterList r clean parameters))
  let (result, _) ← ExceptT.mk (refuseCallable s <$> group resultAndOwner)
  let result ← ExceptT.mk (pure (cleanPart r clean (trimBlanks result)))
  pure ("lambda: (".toList ++ parameters ++ ") -> ".toList ++ placeConst r result)

/-! ## 3. Its demands are met -/

theorem outcome_slice_closed (front rest : Text) :
    (Run.slice (front ++ ')' :: rest) 0 (byteSize front + 1)).outcome = some (front ++ [')']) := by
  refine Run.outcome_slice_eq_some_iff.mpr ⟨[], rest, by simp, rfl, ?_⟩
  rw [byteSize_append, byteSize_nil, Nat.zero_add]
  rfl

theorem outcome_slice_before (before content rest : Text) :
    (Run.slice ((before ++ '(' :: content) ++ ')' :: rest) 0 (byteSize before)).outcome
      = some before :=
  Run.outcome_slice_eq_some_iff.mpr ⟨[], '(' :: (content ++ ')' :: rest), by simp, rfl, by simp⟩

theorem outcome_slice_content (before content rest : Text) :
    (Run.slice ((before ++ '(' :: content) ++ ')' :: rest) (byteSize before + 1)
      (byteSize (before ++ '(' :: content))).outcome = some content := by
  refine Run.outcome_slice_eq_some_iff.mpr ⟨before ++ ['('], ')' :: rest, by simp, ?_, ?_⟩
  · exact byteSize_append ..
  · rw [← byteSize_append]
    simp

theorem outcome_body (s : Text) : (body s).outcome = some (callableBody s) := by
  unfold callableBody dropEndWhile
  cases hopening : s.dropWhile (· != '<') with
  | nil =>
    rw [body, find?_char_of_not_mem (dropWhile_ne_eq_nil_iff.mp hopening)]
    rfl
  | cons c inner =>
    obtain ⟨rfl, wrapper, hwrapper, rfl⟩ := dropWhile_ne_eq_cons_iff.mp hopening
    have hstart : (wrapper ++ '<' :: inner).find? ['<'] = some (byteSize wrapper) :=
      (onlyAtEnd_singleton hwrapper).find?_eq inner
    have hinner : (Run.slice (wrapper ++ '<' :: inner) (byteSize wrapper + 1)
        (byteSize (wrapper ++ '<' :: inner))).outcome = some inner := by
      refine Run.outcome_slice_eq_some_iff.mpr ⟨wrapper ++ ['<'], [], by simp, ?_, ?_⟩
      · exact byteSize_append ..
      · rw [← byteSize_append]
        simp
    simp only [body, hstart, Run.outcome_bind, hinner, Option.bind_some]
    cases hclosing : inner.reverse.dropWhile (· != ')') with
    | nil =>
      rw [findLast?_of_not_mem (reverse_dropWhile_ne_eq_nil_iff.mp hclosing)]
      rfl
    | cons c reversed =>
      obtain ⟨rfl, rest, hrest, rfl⟩ := reverse_dropWhile_ne_eq_cons_iff.mp hclosing
      simp [findLast?_eq reversed.reverse hrest, outcome_slice_closed]

/-- While a group is sought, the count that a step lowers is positive, and it is positive again
unless the group has been found. -/
theorem step_cases (depth position : Nat) (c : Char) :
    c = ')' ∧ (step (depth + 1) position c).outcome = some (.seeking (depth + 2)) ∨
    c = '(' ∧ depth = 0 ∧ (step (depth + 1) position c).outcome = some (.found position) ∨
    c = '(' ∧ (∃ outer, depth = outer + 1 ∧
      (step (depth + 1) position c).outcome = some (.seeking (outer + 1))) ∨
    c ≠ ')' ∧ c ≠ '(' ∧ (step (depth + 1) position c).outcome = some (.seeking (depth + 1)) := by
  unfold step
  by_cases hclosing : c = ')'
  · left
    rw [if_pos hclosing]
    exact ⟨hclosing, rfl⟩
  · right
    rw [if_neg hclosing]
    by_cases hopening : c = '('
    · rw [if_pos hopening]
      cases depth with
      | zero => exact .inl ⟨hopening, rfl, rfl⟩
      | succ outer => exact .inr (.inl ⟨hopening, outer, rfl, rfl⟩)
    · rw [if_neg hopening]
      exact .inr (.inr ⟨hclosing, hopening, rfl⟩)

/-- With a group to be found, the search comes to its end, and it finds what reading backwards over
groups finds. -/
theorem outcome_search (depth : Nat) (content s : Text) :
    (search (depth + 1) (indices s).reverse).outcome =
      some ((groupStart depth content s.reverse).map fun (_, before) => byteSize before.reverse) := by
  -- each step takes the last character, and leads from a count above zero to one above zero
  induction s using List.reverseRecOn generalizing depth content with
  | nil => rfl
  | append_singleton s c ih =>
    rw [indices_concat, List.reverse_concat, List.reverse_concat, search, Run.outcome_bind]
    unfold groupStart
    rcases step_cases depth (byteSize s) c with
      ⟨rfl, hstep⟩ | ⟨rfl, rfl, hstep⟩ | ⟨rfl, outer, rfl, hstep⟩ | ⟨hclosing, hopening, hstep⟩
    · rw [hstep, if_pos rfl]
      exact ih (depth + 1) (')' :: content)
    · rw [hstep, if_neg (by decide), if_pos rfl]
      simp
    · rw [hstep, if_neg (by decide), if_pos rfl]
      exact ih outer ('(' :: content)
    · rw [hstep, if_neg hclosing, if_neg hopening]
      exact ih depth (c :: content)

/-- The search begins at the end of a group, so its first step raises the count from zero. -/
theorem search_closing (s : Text) : (search 0 (indices (s ++ [')'])).reverse).outcome =
    (search 1 (indices s).reverse).outcome := by
  rw [indices_concat, List.reverse_concat]
  rfl

/-- Begun anywhere else it can stop. -/
example : (search 0 (indices ['(']).reverse).outcome = none := rfl

theorem outcome_group (s : Text) : (group s).outcome = some (lastGroup s) := by
  unfold lastGroup
  cases hclosing : s.reverse.dropWhile (· != ')') with
  | nil =>
    rw [group, findLast?_of_not_mem (reverse_dropWhile_ne_eq_nil_iff.mp hclosing)]
    rfl
  | cons c reversed =>
    obtain ⟨rfl, rest, hrest, rfl⟩ := reverse_dropWhile_ne_eq_cons_iff.mp hclosing
    have hsearch := outcome_search 0 [] reversed.reverse
    rw [← search_closing, List.reverse_reverse] at hsearch
    simp only [group, findLast?_eq reversed.reverse hrest, Run.outcome_bind, outcome_slice_closed,
      Option.bind_some, hsearch]
    cases hgroup : groupStart 0 [] reversed with
    | none => rfl
    | some found =>
      -- all bounds are sizes of what stands in front of a parenthesis, or one more
      obtain ⟨content, before⟩ := found
      obtain ⟨read, -, rfl, rfl⟩ := groupStart_eq_some_iff.mp hgroup
      have hfront : (read.reverse ++ '(' :: before).reverse = before.reverse ++ '(' :: read := by
        simp
      rw [hfront, List.append_nil]
      simp only [Option.map_some, Option.bind_some, Run.outcome_bind, outcome_slice_before,
        outcome_slice_content]
      rfl

theorem outcome_refuse {α : Type} {x : Run (Except CallableFault α)} {e : Except CallableFault α}
    (s : Text) (h : x.outcome = some e) :
    (ExceptT.mk (refuseCallable s <$> x)).run.outcome = some (refuseCallable s e) := by
  show (refuseCallable s <$> x).outcome = some (refuseCallable s e)
  rw [Run.outcome_map, h]
  rfl

/-- **Slicing is safe.**  Whatever the signature, the rules and the choice of cleaning, each count
that is lowered is positive, and each slice lies in its text, with its bounds in order and where
characters end; so the computation does not stop early, and it agrees with the reading by
characters. -/
theorem signature_meets_demands (r : RuleSet) (clean : Bool) (s : Text) :
    (∀ demand ∈ (signature r clean s).run.demands, demand.Met) ∧
    (signature r clean s).run.outcome = some (callableSignature r clean s) := by
  have houtcome : (signature r clean s).run.outcome = some (callableSignature r clean s) := by
    -- the parts in their order, each with its outcome
    refine Run.outcome_bind_except (outcome_refuse s (outcome_body s)) fun body => ?_
    refine Run.outcome_bind_except (outcome_refuse s (outcome_group body)) ?_
    rintro ⟨resultAndOwner, parameters⟩
    refine Run.outcome_bind_except (Run.outcome_pure _) fun parameters => ?_
    refine Run.outcome_bind_except (outcome_refuse s (outcome_group resultAndOwner)) ?_
    rintro ⟨result, owner⟩
    exact Run.outcome_bind_except (Run.outcome_pure _) fun result => rfl
  refine ⟨(signature r clean s).run.met_iff.mp ?_, houtcome⟩
  rw [houtcome]
  rfl

/-- Positions are bytes: each of the letters takes two.  The owner is looked for in a slice of what
the parameters were looked for in. -/
example : (signature .empty false "é<ü(λ)(β(γ))ö>".toList).run.demands =
    [.slice "é<ü(λ)(β(γ))ö>".toList 3 20, .slice "ü(λ)(β(γ))ö>".toList 0 14,
      .slice "ü(λ)(β(γ))".toList 0 14, .lower 2, .lower 1,
      .slice "ü(λ)(β(γ))".toList 0 6, .slice "ü(λ)(β(γ))".toList 7 13,
      .slice "ü(λ)".toList 0 6, .lower 1, .slice "ü(λ)".toList 0 2, .slice "ü(λ)".toList 3 5] := by
  decide +kernel

end Slicing

end TypeSignature
