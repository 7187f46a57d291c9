import TypeSignature.Text.Quoted

/-!
# Document — what a configuration document holds

A document is read from one of two notations into the same tree of scalars, sequences and maps.
The text of a document may be faulty.  The tree then shows what was read before the fault: every
sequence and map that was open there is incomplete, and a value that should have followed is
`absent`.  Whoever walks the tree in order meets a fault of the text exactly where a reader would
who acts on each value as soon as it is complete.
-/

namespace TypeSignature

/-- A document, or a part of one. -/
inductive Document where
  | null
  | boolean (value : Bool)
  | integer (value : Int)
  /-- A number that is no integer, as messages show it. -/
  | float (shown : Text)
  | string (value : Text)
  | sequence (items : List Document) (complete : Bool)
  /-- The members in order; a member's key is missing when it cannot be represented. -/
  | map (members : List (Option Text × Document)) (complete : Bool)
  /-- A well-formed scalar whose value cannot be represented. -/
  | unreadable
  /-- The text is at fault where a value should stand. -/
  | absent
  deriving Repr, Inhabited

namespace Document

/-- How messages name an integer; beyond the two usual ranges of 64 bits they add its width. -/
def describeInteger (n : Int) : Text :=
  "integer `".toList ++ Text.ofInt n ++
    if n < -Nat.pow 2 63 then "` as i128".toList
    else if n < Nat.pow 2 64 then "`".toList
    else if n < Nat.pow 2 127 then "` as i128".toList
    else "` as u128".toList

/-- How messages name what stands at a place, if something legible does. -/
def describe? : Document → Option Text
  | null => some "null".toList
  | boolean true => some "boolean `true`".toList
  | boolean false => some "boolean `false`".toList
  | integer n => some (describeInteger n)
  | float shown => some ("floating point `".toList ++ shown ++ "`".toList)
  | string s => some ("string ".toList ++ s.quoted)
  | sequence .. => some "sequence".toList
  | map .. => some "map".toList
  | unreadable => none
  | absent => none

mutual

/-- Whether every scalar and key in the document could be represented. -/
def legible : Document → Bool
  | sequence items _ => itemsLegible items
  | map members _ => membersLegible members
  | unreadable => false
  | _ => true

/-- Whether all items of a sequence are legible. -/
def itemsLegible : List Document → Bool
  | [] => true
  | item :: items => legible item && itemsLegible items

/-- Whether all members of a map are legible. -/
def membersLegible : List (Option Text × Document) → Bool
  | [] => true
  | (key, value) :: members => key.isSome && legible value && membersLegible members

end

end Document

end TypeSignature
