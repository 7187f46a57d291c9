import TypeSignature.Cleaning
import TypeSignature.Proofs.Tree.Addresses
import TypeSignature.Proofs.Tree.Items

/-!
# Walking — a walk is a run over the list of nodes

A visitor that sees and changes only the texts of a node leaves every node where it stands.  So a
walk comes down to a row of stops: each is rewritten with the state that the stop before it left,
from the first node of the order to the last.  When the state has no say in the texts, the order
makes no difference to the tree; trimming is such a walk.
-/

namespace TypeSignature.Tree

universe u

variable {σ : Type u}

/-! ## 1. A state that passes through a list -/

/-- Rewrites the items from the first to the last, each with the state that the one before left. -/
def thread {α β : Type} (f : α → σ → β × σ) : List α → σ → List β × σ
  | [], s => ([], s)
  | a :: as, s =>
    let first := f a s
    let rest := thread f as first.2
    (first.1 :: rest.1, rest.2)

section

variable {α β : Type} (f : α → σ → β × σ)

theorem thread_cons (a : α) (as : List α) (s : σ) : thread f (a :: as) s
    = ((f a s).1 :: (thread f as (f a s).2).1, (thread f as (f a s).2).2) := rfl

theorem thread_append (as bs : List α) (s : σ) : thread f (as ++ bs) s
    = ((thread f as s).1 ++ (thread f bs (thread f as s).2).1,
        (thread f bs (thread f as s).2).2) := by
  induction as generalizing s with
  | nil => rfl
  | cons a as ih => rw [List.cons_append, thread_cons, ih, thread_cons, List.cons_append]

theorem thread_map {g : α → α} {h : β → β} (hf : ∀ a s, f (g a) s = (h (f a s).1, (f a s).2))
    (as : List α) (s : σ) :
    thread f (as.map g) s = ((thread f as s).1.map h, (thread f as s).2) := by
  induction as generalizing s with
  | nil => rfl
  | cons a as ih => rw [List.map_cons, thread_cons, hf, ih, thread_cons, List.map_cons]

end

/-! ## 2. The equations of a walk -/

/-- Applies a visitor to every node of a row of siblings. -/
def transformIn (v : Visitor σ) : Order → List Tree → σ → List Tree × σ
  | .parentFirst => walkDownIn v
  | .childrenFirst => walkUpIn v

theorem transformIn_nil (v : Visitor σ) (order : Order) (s : σ) :
    transformIn v order [] s = ([], s) := by
  cases order with
  | parentFirst =>
    show walkDownIn v [] s = ([], s)
    rw [walkDownIn]
  | childrenFirst => rfl

theorem transformIn_cons (v : Visitor σ) (order : Order) (t : Tree) (ts : List Tree) (s : σ) :
    transformIn v order (t :: ts) s =
      ((transform v order t s).1 :: (transformIn v order ts (transform v order t s).2).1,
        (transformIn v order ts (transform v order t s).2).2) := by
  cases order with
  | parentFirst =>
    show walkDownIn v (t :: ts) s = _
    rw [walkDownIn]
    rfl
  | childrenFirst => rfl

section

variable (f : Text → Text → σ → Text × Text × σ) (left right : Text) (children : List Tree) (s : σ)

theorem transform_onTexts_parentFirst :
    transform (.onTexts f) .parentFirst ⟨left, children, right⟩ s =
      let texts := f left right s
      let below := transformIn (.onTexts f) .parentFirst children texts.2.2
      (⟨texts.1, below.1, texts.2.1⟩, below.2) := by
  show walkDown _ _ _ = _
  rw [walkDown]
  rfl

theorem transform_onTexts_childrenFirst :
    transform (.onTexts f) .childrenFirst ⟨left, children, right⟩ s =
      let below := transformIn (.onTexts f) .childrenFirst children s
      let texts := f left right below.2
      (⟨texts.1, below.1, texts.2.1⟩, texts.2.2) := rfl

/-- In either order, a walk rewrites the texts of a node once and walks through its children once. -/
theorem exists_transform_onTexts (order : Order) : ∃ here below,
    (transform (.onTexts f) order ⟨left, children, right⟩ s).1 =
      ⟨(f left right here).1, (transformIn (.onTexts f) order children below).1,
        (f left right here).2.1⟩ := by
  cases order with
  | parentFirst =>
    rw [transform_onTexts_parentFirst]
    exact ⟨s, (f left right s).2.2, rfl⟩
  | childrenFirst =>
    rw [transform_onTexts_childrenFirst]
    exact ⟨(transformIn (.onTexts f) .childrenFirst children s).2, s, rfl⟩

end

/-! ## 3. What a walk does to the nodes -/

/-- Rewrites the texts at a stop, and leaves it where it is. -/
def Stop.rewrite (f : Text → Text → σ → Text × Text × σ) (stop : Stop) (s : σ) : Stop × σ :=
  let texts := f stop.left stop.right s
  ({ stop with left := texts.1, right := texts.2.1 }, texts.2.2)

/-- The tree without its texts. -/
def shape (t : Tree) : Tree := t.mapText fun _ => []

section

variable (f : Text → Text → σ → Text × Text × σ) (order : Order)

mutual

theorem thread_stops : ∀ (t : Tree) (s : σ), thread (Stop.rewrite f) (t.stops order) s =
    ((transform (.onTexts f) order t s).1.stops order, (transform (.onTexts f) order t s).2)
  | ⟨left, children, right⟩, s => by
    have hbelow := thread_stopsIn 0 children
    -- the root is the first stop or the last one
    cases order with
    | parentFirst =>
      have hhere : Stop.rewrite f ⟨[], left, right⟩ s
          = (⟨[], (f left right s).1, (f left right s).2.1⟩, (f left right s).2.2) := rfl
      rw [stops, thread_cons, hhere, hbelow, transform_onTexts_parentFirst, stops]
    | childrenFirst =>
      rw [stops, thread_append, hbelow, thread_cons, transform_onTexts_childrenFirst, stops]
      rfl

theorem thread_stopsIn : ∀ (i : Nat) (ts : List Tree) (s : σ),
    thread (Stop.rewrite f) (stopsIn order i ts) s =
      (stopsIn order i (transformIn (.onTexts f) order ts s).1,
        (transformIn (.onTexts f) order ts s).2)
  | _, [], s => by
    rw [transformIn_nil]
    rfl
  | i, t :: ts, s => by
    have hunder : ∀ stop s, Stop.rewrite f (Stop.under i stop) s
        = (Stop.under i (Stop.rewrite f stop s).1, (Stop.rewrite f stop s).2) := fun _ _ => rfl
    rw [stopsIn, thread_append, thread_map _ hunder, thread_stops t s, thread_stopsIn (i + 1) ts,
      transformIn_cons, stopsIn]

end

end

section

variable {f : Text → Text → σ → Text × Text × σ} {g h : Text → Text}

mutual

/-- If `g` sees each text that the visitor writes as `h` of the text before, then it sees the tree
that the walk leaves as `h` of the tree before. -/
theorem mapText_transform (hf : ∀ left right s, g (f left right s).1 = h left ∧
    g (f left right s).2.1 = h right) (order : Order) : ∀ (t : Tree) (s : σ),
    (transform (.onTexts f) order t s).1.mapText g = t.mapText h
  | ⟨left, children, right⟩, s => by
    obtain ⟨here, below, htree⟩ := exists_transform_onTexts f left right children s order
    obtain ⟨hleft, hright⟩ := hf left right here
    rw [htree, mapText, mapText, hleft, hright, mapTextIn_transformIn hf order children below]

theorem mapTextIn_transformIn (hf : ∀ left right s, g (f left right s).1 = h left ∧
    g (f left right s).2.1 = h right) (order : Order) : ∀ (ts : List Tree) (s : σ),
    mapTextIn g (transformIn (.onTexts f) order ts s).1 = mapTextIn h ts
  | [], s => by
    rw [transformIn_nil]
    rfl
  | t :: ts, s => by
    have hfirst := mapText_transform hf order t s
    have hrest := mapTextIn_transformIn hf order ts (transform (.onTexts f) order t s).2
    rw [transformIn_cons, mapTextIn, mapTextIn, hfirst, hrest]

end

theorem shape_transform (f : Text → Text → σ → Text × Text × σ) (order : Order) (t : Tree) (s : σ) :
    (transform (.onTexts f) order t s).1.shape = t.shape := by
  unfold shape
  apply mapText_transform
  exact fun _ _ _ => ⟨rfl, rfl⟩

end

/-- The texts that the visitor writes do not depend on the state. -/
def TextsStateless (f : Text → Text → σ → Text × Text × σ) : Prop :=
  ∀ left right s s', (f left right s).1 = (f left right s').1 ∧
    (f left right s).2.1 = (f left right s').2.1

mutual

theorem transform_congr {f : Text → Text → σ → Text × Text × σ} (hf : TextsStateless f)
    (order order' : Order) : ∀ (t : Tree) (s s' : σ),
    (transform (.onTexts f) order t s).1 = (transform (.onTexts f) order' t s').1
  | ⟨left, children, right⟩, s, s' => by
    obtain ⟨here, below, htree⟩ := exists_transform_onTexts f left right children s order
    obtain ⟨here', below', htree'⟩ := exists_transform_onTexts f left right children s' order'
    obtain ⟨hleft, hright⟩ := hf left right here here'
    rw [htree, htree', hleft, hright, transformIn_congr hf order order' children below below']

theorem transformIn_congr {f : Text → Text → σ → Text × Text × σ} (hf : TextsStateless f)
    (order order' : Order) : ∀ (ts : List Tree) (s s' : σ),
    (transformIn (.onTexts f) order ts s).1 = (transformIn (.onTexts f) order' ts s').1
  | [], s, s' => by rw [transformIn_nil, transformIn_nil]
  | t :: ts, s, s' => by
    have hfirst := transform_congr hf order order' t s s'
    have hrest := transformIn_congr hf order order' ts (transform (.onTexts f) order t s).2
      (transform (.onTexts f) order' t s').2
    rw [transformIn_cons, transformIn_cons, hfirst, hrest]

end

/-- **Every node once, in order.**  A walk whose visitor sees and changes only texts runs through
the nodes of the tree in its order and passes its state from each to the next.  It keeps the shape
of the tree, and the order shows in the tree only if the state shows in the texts. -/
theorem transform_onTexts_threads (f : Text → Text → σ → Text × Text × σ) (t : Tree) :
    (∀ order, Enumerates order t (t.stops order)) ∧
    (∀ order s,
      thread (Stop.rewrite f) (t.stops order) s =
        ((transform (.onTexts f) order t s).1.stops order,
          (transform (.onTexts f) order t s).2) ∧
      (transform (.onTexts f) order t s).1.shape = t.shape) ∧
    (TextsStateless f → ∀ s, (transform (.onTexts f) .parentFirst t s).1
      = (transform (.onTexts f) .childrenFirst t s).1) := by
  refine ⟨fun order => enumerates_stops order t, fun order s => ?_, fun hf s => ?_⟩
  · exact ⟨thread_stops f order t s, shape_transform f order t s⟩
  · exact transform_congr hf .parentFirst .childrenFirst t s s

/-- A visitor that counts the nodes and exchanges their texts gives one tree in both orders. -/
theorem transform_onTexts_threads_exchange :
    TextsStateless (fun left right (n : Nat) => (right, left, n + 1)) ∧
    (transform (.onTexts fun left right (n : Nat) => (right, left, n + 1)) .parentFirst
        ⟨['a'], [⟨['b'], [leaf ['c']], ['*']⟩, leaf ['d']], []⟩ 0).1
      = ⟨[], [⟨['*'], [⟨[], [], ['c']⟩], ['b']⟩, ⟨[], [], ['d']⟩], ['a']⟩ := by
  have hf : TextsStateless fun left right (n : Nat) => (right, left, n + 1) :=
    fun _ _ _ _ => ⟨rfl, rfl⟩
  refine ⟨hf, ?_⟩
  rw [(transform_onTexts_threads _ _).2.2 hf 0]
  rfl

/-! ## 4. Trimming -/

/-- Trims the spaces around both texts of a node. -/
def Visitor.trimming : Visitor Unit :=
  .onTexts fun left right s => (Text.trimSpaces left, Text.trimSpaces right, s)

theorem transform_trimming (order : Order) (t : Tree) :
    (transform .trimming order t ()).1 = t.trimFragments := by
  rw [← mapText_id (transform .trimming order t ()).1]
  unfold Visitor.trimming trimFragments
  apply mapText_transform
  exact fun _ _ _ => ⟨rfl, rfl⟩

end TypeSignature.Tree
