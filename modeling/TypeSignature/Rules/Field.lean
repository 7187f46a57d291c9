import TypeSignature.Rules.Basic

/-!
# Field — the parts of a rule set, by the names that documents give them

Each field has one canonical name and may also be spelled with an underscore behind it; the
keywords have one more spelling.  A draft collects the values of fields while a document is read,
and becomes a rule set once no field is missing.
-/

namespace TypeSignature

/-- A field of a rule set. -/
inductive Field where
  | namespaces
  | keywords
  | custom
  | undesirable
  | replacements
  | eastConst
  | indentLimit
  deriving DecidableEq, Repr

namespace Field

/-- All fields, in the order in which documents list them. -/
def all : List Field :=
  [namespaces, keywords, custom, undesirable, replacements, eastConst, indentLimit]

theorem mem_all (f : Field) : f ∈ all := by cases f <;> decide

/-- The canonical name of a field. -/
def name : Field → Text
  | namespaces => "suppress_extra_namespaces".toList
  | keywords => "suppress_struct_class".toList
  | custom => "suppress_custom".toList
  | undesirable => "undesirable_type_nodes".toList
  | replacements => "replacements_after_undesirable_node_extractions".toList
  | eastConst => "force_east_const".toList
  | indentLimit => "indent_depth_limit".toList

/-- The spellings of a field other than its name. -/
def aliases (f : Field) : List Text :=
  (f.name ++ ['_']) ::
    match f with
    | keywords => ["suppress_extract_struct_class_".toList]
    | _ => []

/-- Whether a key means this field. -/
def isSpelled (f : Field) (key : Text) : Bool := key == f.name || f.aliases.contains key

/-- The field that a key means. -/
def ofKey? (key : Text) : Option Field := all.find? (·.isSpelled key)

/-- What a field holds. -/
abbrev Value : Field → Type
  | namespaces | keywords | custom | undesirable => List Text
  | replacements => Replacements
  | eastConst => Bool
  | indentLimit => UInt64

theorem ofKey?_name (f : Field) : ofKey? f.name = some f := by cases f <;> decide

end Field

/-- The value of a field. -/
def RuleSet.get (r : RuleSet) : (f : Field) → f.Value
  | .namespaces => r.namespaces
  | .keywords => r.keywords
  | .custom => r.custom
  | .undesirable => r.undesirable
  | .replacements => r.replacements
  | .eastConst => r.eastConst
  | .indentLimit => r.indentLimit

/-- A rule set of which some fields are known. -/
structure Draft where
  /-- The value of a field, if it is known. -/
  get? : (f : Field) → Option f.Value

namespace Draft

/-- The draft that knows nothing. -/
def empty : Draft := ⟨fun _ => none⟩

/-- Whether a field is known. -/
def has (d : Draft) (f : Field) : Bool := (d.get? f).isSome

/-- The draft that also knows a value for `f`. -/
def set (d : Draft) (f : Field) (value : f.Value) : Draft :=
  ⟨fun g => if h : f = g then some (h ▸ value) else d.get? g⟩

@[simp] theorem get?_set_self (d : Draft) (f : Field) (value : f.Value) :
    (d.set f value).get? f = some value := by simp [set]

theorem get?_set_of_ne (d : Draft) {f g : Field} (value : f.Value) (h : f ≠ g) :
    (d.set f value).get? g = d.get? g := by simp [set, h]

/-- The value of a field, or the field itself when it is missing. -/
def require (d : Draft) (f : Field) : Except Field f.Value :=
  match d.get? f with
  | some value => .ok value
  | none => .error f

/-- The rule set, or the first field that is missing. -/
def finish (d : Draft) : Except Field RuleSet := do
  let namespaces ← d.require .namespaces
  let keywords ← d.require .keywords
  let custom ← d.require .custom
  let undesirable ← d.require .undesirable
  let replacements ← d.require .replacements
  let eastConst ← d.require .eastConst
  let indentLimit ← d.require .indentLimit
  pure { namespaces, keywords, custom, undesirable, replacements, eastConst, indentLimit }

end Draft

end TypeSignature
