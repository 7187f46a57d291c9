import TypeSignature.Document
import TypeSignature.Rules.Field

/-!
# Decode — from a document to a rule set

A document is walked in order and the first thing wrong with it is reported.  A map names the
fields by any of their spellings, each once, in any order; other members are passed over.  A
sequence lists the values of all fields in order.  A field that is missing is noticed when the map
has ended.
-/

namespace TypeSignature

/-- What a place in a document should hold. -/
inductive Expected where
  | sequence
  | string
  | map
  | boolean
  | limit
  | rules
  deriving DecidableEq, Repr

/-- How messages name what was expected. -/
def Expected.name : Expected → Text
  | sequence => "a sequence".toList
  | string => "a string".toList
  | map => "a map".toList
  | boolean => "a boolean".toList
  | limit => "usize".toList
  | rules => "struct RuleSet".toList

/-- Why a document holds no rule set. -/
inductive DecodeFault where
  /-- The text breaks the rules of its notation. -/
  | malformed
  /-- A field occurs nowhere. -/
  | missing (field : Field)
  /-- A field occurs a second time. -/
  | duplicate (field : Field)
  /-- A place holds the wrong kind of value. -/
  | wrongType (found : Text) (expected : Expected)
  /-- A place holds the right kind of value, but not in range. -/
  | wrongValue (found : Text) (expected : Expected)
  /-- A sequence of fields ends after `count` values. -/
  | tooShort (count : Nat)
  deriving DecidableEq, Repr

namespace DecodeFault

/-- The wording of a fault.  It is a normal form: readers of a notation add the line and column at
which they stopped, and tell in words of their own what breaks the notation. -/
def message : DecodeFault → Text
  | malformed => "syntax".toList
  | missing field => "missing field `".toList ++ field.name ++ "`".toList
  | duplicate field => "duplicate field `".toList ++ field.name ++ "`".toList
  | wrongType found expected =>
    "invalid type: ".toList ++ found ++ ", expected ".toList ++ expected.name
  | wrongValue found expected =>
    "invalid value: ".toList ++ found ++ ", expected ".toList ++ expected.name
  | tooShort count =>
    "invalid length ".toList ++ Text.ofNat count ++ ", expected ".toList ++
      Expected.rules.name ++ " with 7 elements".toList

end DecodeFault

/-- Either a value or the first fault of a document. -/
abbrev Decoded := Except DecodeFault

namespace Document

/-- The fault of a document that is not what was expected. -/
def mismatch (d : Document) (expected : Expected) : DecodeFault :=
  match d.describe? with
  | some found => .wrongType found expected
  | none => .malformed

/-- A sequence or map must have been complete for its value to count. -/
def ended {α : Type} (complete : Bool) (value : α) : Decoded α :=
  if complete then .ok value else .error .malformed

/-- A text. -/
def text : Document → Decoded Text
  | .string s => .ok s
  | d => .error (d.mismatch .string)

/-- A list of texts. -/
def textList : Document → Decoded (List Text)
  | .sequence items complete => do ended complete (← items.mapM text)
  | d => .error (d.mismatch .sequence)

/-- A key must have been legible to count. -/
def legibleKey : Option Text → Decoded Text
  | some key => .ok key
  | none => .error .malformed

/-- The substitutions of a map; of two members with one key the later counts. -/
def substitutions : Replacements → List (Option Text × Document) → Decoded Replacements
  | table, [] => .ok table
  | table, (key, value) :: members => do
    let key ← legibleKey key
    let value ← value.text
    substitutions (table.insert key value) members

/-- A table of substitutions. -/
def replacementTable : Document → Decoded Replacements
  | .map members complete => do ended complete (← substitutions .empty members)
  | d => .error (d.mismatch .map)

/-- A truth value. -/
def truth : Document → Decoded Bool
  | .boolean b => .ok b
  | d => .error (d.mismatch .boolean)

/-- A limit of at most 64 bits; a negative integer has the right type but no value. -/
def limit : Document → Decoded UInt64
  | .integer n =>
    if 0 ≤ n ∧ n < Nat.pow 2 64 then .ok n.toNat.toUInt64
    else if -Nat.pow 2 63 ≤ n ∧ n < 0 then .error (.wrongValue (describeInteger n) .limit)
    else .error (.wrongType (describeInteger n) .limit)
  | d => .error (d.mismatch .limit)

/-- The value of a field. -/
def fieldValue : (f : Field) → Document → Decoded f.Value
  | .namespaces | .keywords | .custom | .undesirable => textList
  | .replacements => replacementTable
  | .eastConst => truth
  | .indentLimit => limit

/-- Adds the fields among the members of a map to a draft.  A repeated field is refused on sight
of its key.  Members with other keys are passed over; a `strict` reader wants even those to be
legible. -/
def addMembers (strict : Bool) : Draft → List (Option Text × Document) → Decoded Draft
  | draft, [] => .ok draft
  | draft, (key, value) :: members => do
    let key ← legibleKey key
    match Field.ofKey? key with
    | some f =>
      if draft.has f then .error (.duplicate f)
      else addMembers strict (draft.set f (← value.fieldValue f)) members
    | none =>
      if strict && !value.legible then .error .malformed
      else addMembers strict draft members

/-- Adds the values of the given fields, listed in order; `count` values came before. -/
def addItems (complete : Bool) : Draft → (count : Nat) → List Field → List Document → Decoded Draft
  | draft, _, [], [] => ended complete draft
  | _, _, [], _ :: _ => .error .malformed
  | _, count, _ :: _, [] => if complete then .error (.tooShort count) else .error .malformed
  | draft, count, f :: fields, item :: items => do
    addItems complete (draft.set f (← item.fieldValue f)) (count + 1) fields items

/-- A draft becomes a rule set when it lacks nothing. -/
def finishDraft (draft : Draft) : Decoded RuleSet := draft.finish.mapError .missing

/-- The rule set that a document holds. -/
def rules (strict : Bool) : Document → Decoded RuleSet
  | .map members complete => do
    finishDraft (← ended complete (← addMembers strict .empty members))
  | .sequence items complete => do finishDraft (← addItems complete .empty 0 Field.all items)
  | d => .error (d.mismatch .rules)

end Document

end TypeSignature
