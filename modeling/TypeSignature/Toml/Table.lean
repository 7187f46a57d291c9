import TypeSignature.Document

/-!
# Table — how the lines of a TOML document add up

Headers and dotted keys open tables within tables.  A table is opened by one header at most; one
that only lies on the way to another may still be opened by its own, while dotted keys extend only
what dotted keys have opened, and a written value is never extended.
-/

namespace TypeSignature.Toml

/-- What opened a table. -/
inductive Origin where
  /-- Its own header. -/
  | header
  /-- The header of a table inside it. -/
  | passing
  /-- A dotted key. -/
  | dotted
  deriving DecidableEq, Repr

/-- What a key stands for while a document is read. -/
inductive Item where
  /-- A written value. -/
  | value (document : Document)
  /-- A table that may still grow. -/
  | table (origin : Origin) (members : List (Text × Item))
  /-- A sequence of tables, the last one first. -/
  | tables (elements : List (List (Text × Item)))
  deriving Repr, Inhabited

/-- The members of a table, in the order in which they were written. -/
abbrev Members := List (Text × Item)

namespace Members

/-- The members with another item for a key, which may be new. -/
def set (key : Text) (item : Item) : Members → Members
  | [] => [(key, item)]
  | (k, old) :: members =>
    if k = key then (k, item) :: members else (k, old) :: set key item members

/-- Gives a value to a dotted key. -/
def assign (value : Document) : (path : List Text) → Members → Option Members
  | [], _ => none
  | [key], members =>
    match members.lookup key with
    | none => some (set key (.value value) members)
    | some _ => none
  | key :: path, members =>
    let within (inner : Members) (wrap : Members → Item) : Option Members :=
      (assign value path inner).map fun inner => set key (wrap inner) members
    match members.lookup key with
    | none => within [] (.table .dotted)
    | some (.table .dotted inner) => within inner (.table .dotted)
    | some (.table .passing inner) =>
      if path.length = 1 then none else within inner (.table .passing)
    | some (.tables (last :: before)) =>
      if path.length = 1 then none else within last fun inner => .tables (inner :: before)
    | some _ => none

/-- Opens the table of a header, or with `element` one more element of a sequence of tables. -/
def openTable (element : Bool) : (path : List Text) → Members → Option Members
  | [], _ => none
  | [key], members =>
    match members.lookup key, element with
    | none, false => some (set key (.table .header []) members)
    | some (.table .passing inner), false => some (set key (.table .header inner) members)
    | none, true => some (set key (.tables [[]]) members)
    | some (.tables elements), true => some (set key (.tables ([] :: elements)) members)
    | some _, _ => none
  | key :: path, members =>
    let within (inner : Members) (wrap : Members → Item) : Option Members :=
      (openTable element path inner).map fun inner => set key (wrap inner) members
    match members.lookup key with
    | none => within [] (.table .passing)
    | some (.table origin inner) => within inner (.table origin)
    | some (.tables (last :: before)) => within last fun inner => .tables (inner :: before)
    | some _ => none

/-- Changes the table that a header has opened. -/
def modifyAt (change : Members → Option Members) : (header : List Text) → Members → Option Members
  | [], members => change members
  | key :: header, members =>
    let within (inner : Members) (wrap : Members → Item) : Option Members :=
      (modifyAt change header inner).map fun inner => set key (wrap inner) members
    match members.lookup key with
    | some (.table origin inner) => within inner (.table origin)
    | some (.tables (last :: before)) => within last fun inner => .tables (inner :: before)
    | _ => none

end Members

/-- The members of a map in ascending order of their keys. -/
def sortMembers (members : List (Option Text × Document)) : List (Option Text × Document) :=
  members.mergeSort fun a b => !decide (b.1.getD [] < a.1.getD [])

mutual

/-- The document that an item stands for. -/
def Item.toDocument : Item → Document
  | .value document => document
  | .table _ members => .map (sortMembers (membersToDocument members)) true
  | .tables elements => .sequence (tablesToDocument elements).reverse true

/-- The members of a map, in the order in which they were written. -/
def membersToDocument : List (Text × Item) → List (Option Text × Document)
  | [] => []
  | (key, item) :: members => (some key, item.toDocument) :: membersToDocument members

/-- A sequence of tables, in the order in which they are given. -/
def tablesToDocument : List (List (Text × Item)) → List Document
  | [] => []
  | members :: tables =>
    .map (sortMembers (membersToDocument members)) true :: tablesToDocument tables

end

end TypeSignature.Toml
