import TypeSignature.Tree.Walk

/-!
# Addresses — where the nodes of a tree stand

The address of a node is the index of the child to go down to, for each level from the root.  A
walk meets the nodes of a tree in an order that their addresses tell: where two addresses part, the
smaller index comes first, and where one goes on behind the other, it depends on the walk whether a
node comes before or after the nodes below it.  `stops` lists the nodes in that order.
-/

namespace TypeSignature.Tree

/-- The node at an address, if the tree has one there. -/
def nodeAt? : Tree → List Nat → Option Tree
  | t, [] => some t
  | t, i :: path => t.children[i]?.bind fun child => child.nodeAt? path

theorem nodeAt?_nil (t : Tree) : t.nodeAt? [] = some t := rfl

theorem nodeAt?_cons (t : Tree) (i : Nat) (path : List Nat) :
    t.nodeAt? (i :: path) = t.children[i]?.bind fun child => child.nodeAt? path := rfl

theorem nodeAt?_cons_eq_some_iff {t u : Tree} {i : Nat} {path : List Nat} :
    t.nodeAt? (i :: path) = some u ↔
      ∃ child, t.children[i]? = some child ∧ child.nodeAt? path = some u := by
  rw [nodeAt?_cons, Option.bind_eq_some_iff]

/-! ## 1. The nodes of a tree in the order of a walk -/

/-- A node as a walk meets it. -/
structure Stop where
  /-- Where the node stands. -/
  address : List Nat
  /-- The text before its group. -/
  left : Text
  /-- The text after its group. -/
  right : Text

/-- A stop below the child of index `i`, seen from the parent. -/
def Stop.under (i : Nat) (stop : Stop) : Stop := { stop with address := i :: stop.address }

mutual

/-- The nodes of a tree, each before or after the nodes below it. -/
def stops (order : Order) : Tree → List Stop
  | ⟨left, children, right⟩ =>
    match order with
    | .parentFirst => ⟨[], left, right⟩ :: stopsIn order 0 children
    | .childrenFirst => stopsIn order 0 children ++ [⟨[], left, right⟩]

/-- The nodes of a row of siblings that begins with the child of index `i`. -/
def stopsIn (order : Order) : Nat → List Tree → List Stop
  | _, [] => []
  | i, t :: ts => (stops order t).map (Stop.under i) ++ stopsIn order (i + 1) ts

end

/-- Whether the node at one address is met before the node at another. -/
def Order.Precedes (order : Order) : List Nat → List Nat → Prop
  | [], [] => False
  | [], _ :: _ => order = .parentFirst
  | _ :: _, [] => order = .childrenFirst
  | i :: path, j :: path' => i < j ∨ i = j ∧ order.Precedes path path'

/-- The stops are the nodes of the tree, each of them once, in the given order. -/
structure Enumerates (order : Order) (t : Tree) (stops : List Stop) : Prop where
  mem_iff : ∀ stop, stop ∈ stops ↔
    ∃ u, t.nodeAt? stop.address = some u ∧ u.left = stop.left ∧ u.right = stop.right
  ordered : stops.Pairwise fun first second => order.Precedes first.address second.address
  once : (stops.map Stop.address).Nodup

variable {order : Order} {t : Tree} {stop : Stop}

theorem not_precedes_self (order : Order) (path : List Nat) : ¬ order.Precedes path path := by
  induction path with
  | nil => exact id
  | cons i path ih =>
    unfold Order.Precedes
    simp only [Nat.lt_irrefl, true_and, false_or]
    exact ih

/-! ## 2. `stops` enumerates -/

theorem mem_stops_iff : stop ∈ t.stops order ↔
    stop = ⟨[], t.left, t.right⟩ ∨ stop ∈ stopsIn order 0 t.children := by
  cases t
  cases order with
  | parentFirst => rw [stops, List.mem_cons]
  | childrenFirst => rw [stops, List.mem_append, List.mem_singleton, or_comm]

theorem mem_stopsIn_iff {ts : List Tree} {i : Nat} : stop ∈ stopsIn order i ts ↔
    ∃ (k : Nat) (child : Tree), ts[k]? = some child ∧
      ∃ below ∈ child.stops order, below.under (i + k) = stop := by
  induction ts generalizing i with
  | nil => simp [stopsIn]
  | cons t ts ih =>
    rw [stopsIn, List.mem_append, List.mem_map, ih]
    constructor
    · rintro (hfirst | ⟨k, child, hchild, below, hbelow, rfl⟩)
      · exact ⟨0, t, rfl, hfirst⟩
      · exact ⟨k + 1, child, hchild, below, hbelow, by rw [Nat.add_assoc, Nat.add_comm 1]⟩
    · rintro ⟨k, child, hchild, below, hbelow, rfl⟩
      cases k with
      | zero =>
        cases hchild
        exact .inl ⟨below, hbelow, rfl⟩
      | succ k =>
        exact .inr ⟨k, child, hchild, below, hbelow, by rw [Nat.add_assoc, Nat.add_comm 1]⟩

theorem mem_stops_iff_nodeAt? (path : List Nat) (t : Tree) (left right : Text) :
    ⟨path, left, right⟩ ∈ t.stops order ↔
      ∃ u, t.nodeAt? path = some u ∧ u.left = left ∧ u.right = right := by
  induction path generalizing t with
  | nil =>
    -- only the root has this address
    rw [mem_stops_iff, mem_stopsIn_iff]
    constructor
    · rintro (hroot | ⟨k, child, -, below, -, hunder⟩)
      · cases hroot
        exact ⟨t, rfl, rfl, rfl⟩
      · cases hunder
    · rintro ⟨u, hu, rfl, rfl⟩
      cases hu
      exact .inl rfl
  | cons i path ih =>
    rw [mem_stops_iff, mem_stopsIn_iff]
    simp only [nodeAt?_cons_eq_some_iff]
    constructor
    · rintro (hroot | ⟨k, child, hchild, ⟨path', left', right'⟩, hbelow, hunder⟩)
      · cases hroot
      · rw [Nat.zero_add] at hunder
        cases hunder
        obtain ⟨u, hu, htexts⟩ := (ih child).mp hbelow
        exact ⟨u, ⟨child, hchild, hu⟩, htexts⟩
    · rintro ⟨u, ⟨child, hchild, hu⟩, htexts⟩
      refine .inr ⟨i, child, hchild, ⟨path, left, right⟩, (ih child).mpr ⟨u, hu, htexts⟩, ?_⟩
      rw [Nat.zero_add]
      rfl

theorem exists_address_of_mem_stopsIn {ts : List Tree} {i : Nat} (h : stop ∈ stopsIn order i ts) :
    ∃ j path, i ≤ j ∧ stop.address = j :: path := by
  obtain ⟨k, child, -, below, -, rfl⟩ := mem_stopsIn_iff.mp h
  exact ⟨i + k, below.address, Nat.le_add_right i k, rfl⟩

mutual

theorem pairwise_stops (order : Order) : ∀ t : Tree,
    (t.stops order).Pairwise fun first second => order.Precedes first.address second.address
  | ⟨left, children, right⟩ => by
    have hbelow := pairwise_stopsIn order 0 children
    cases order with
    | parentFirst =>
      rw [stops, List.pairwise_cons]
      refine ⟨fun stop hstop => ?_, hbelow⟩
      obtain ⟨j, path, -, haddress⟩ := exists_address_of_mem_stopsIn hstop
      rw [haddress]
      rfl
    | childrenFirst =>
      rw [stops, List.pairwise_append]
      refine ⟨hbelow, List.pairwise_singleton _ _, fun stop hstop root hroot => ?_⟩
      obtain ⟨j, path, -, haddress⟩ := exists_address_of_mem_stopsIn hstop
      rw [haddress, List.mem_singleton.mp hroot]
      rfl

theorem pairwise_stopsIn (order : Order) : ∀ (i : Nat) (ts : List Tree),
    (stopsIn order i ts).Pairwise fun first second => order.Precedes first.address second.address
  | _, [] => List.Pairwise.nil
  | i, t :: ts => by
    rw [stopsIn, List.pairwise_append, List.pairwise_map]
    refine ⟨?_, pairwise_stopsIn order (i + 1) ts, fun first hfirst second hsecond => ?_⟩
    · exact (pairwise_stops order t).imp fun hprecedes => .inr ⟨rfl, hprecedes⟩
    · -- the indices tell the first sibling from the further ones
      obtain ⟨below, -, rfl⟩ := List.mem_map.mp hfirst
      obtain ⟨j, path, hj, haddress⟩ := exists_address_of_mem_stopsIn hsecond
      rw [haddress]
      exact .inl hj

end

theorem enumerates_stops (order : Order) (t : Tree) : Enumerates order t (t.stops order) where
  mem_iff stop := mem_stops_iff_nodeAt? stop.address t stop.left stop.right
  ordered := pairwise_stops order t
  once := by
    apply List.pairwise_map.mpr
    apply (pairwise_stops order t).imp
    intro first second hprecedes hsame
    rw [hsame] at hprecedes
    exact not_precedes_self order _ hprecedes

example : (stops .childrenFirst ⟨['a'], [⟨['b'], [leaf ['c']], []⟩, leaf ['d']], []⟩).map
    (fun stop => (stop.address, stop.left))
      = [([0, 0], ['c']), ([0], ['b']), ([1], ['d']), ([], ['a'])] := rfl

end TypeSignature.Tree
