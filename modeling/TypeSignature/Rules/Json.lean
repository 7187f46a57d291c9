import TypeSignature.Error
import TypeSignature.Json.Printer
import TypeSignature.Json.Reader
import TypeSignature.Rules.Decode

/-!
# Json — rule sets as JSON texts

A rule set is written with its fields in order.  It is read from any JSON text that has each field
once; unknown members are passed over, whatever their values are.
-/

namespace TypeSignature.RuleSet

open TypeSignature.Json

/-- A list of texts in JSON. -/
def printTexts (level : Nat) (ts : List Text) : Text := printSequence level (ts.map printString)

/-- A table of substitutions in JSON. -/
def printReplacements (level : Nat) (table : Replacements) : Text :=
  printMap level (table.entries.map fun e => printMember e.1 (printString e.2))

/-- The value of a field in JSON. -/
def printField (r : RuleSet) (level : Nat) : Field → Text
  | .namespaces => printTexts level r.namespaces
  | .keywords => printTexts level r.keywords
  | .custom => printTexts level r.custom
  | .undesirable => printTexts level r.undesirable
  | .replacements => printReplacements level r.replacements
  | .eastConst => printBoolean r.eastConst
  | .indentLimit => Text.ofNat r.indentLimit.toNat

/-- The rule set as a JSON text. -/
def toJson (r : RuleSet) : Text :=
  printMap 0 (Field.all.map fun f => printMember f.name (r.printField 1 f))

/-- The rule set in a JSON text, or the first thing wrong with the text. -/
def decodeJson (s : Text) : Decoded RuleSet := do
  let (document, alone) := Json.read s
  let rules ← document.rules false
  Document.ended alone rules

/-- The rule set in a JSON text. -/
def ofJson (s : Text) : Except Error RuleSet :=
  (decodeJson s).mapError fun fault =>
    .configuration ("Failed to parse rule set JSON: ".toList ++ fault.message) none

/-- A complete JSON text to start from. -/
def exampleJson : Text :=
  "\x7b
    \"force_east_const\": true,
    \"indent_depth_limit\": 3,
    \"replacements_after_undesirable_node_extractions\": \x7b
        \"basic_string<_CharT, _Traits, _Allocator>\": \"std::string\",
        \"std::basic_string<char>\": \"std::string\"
    \x7d,
    \"suppress_custom\": [
        \" __ptr64\"
    ],
    \"suppress_extra_namespaces\": [
        \"::__1\",
        \"::__cxx11\"
    ],
    \"suppress_struct_class\": [
        \"class \",
        \"struct \"
    ],
    \"undesirable_type_nodes\": [
        \"std::char_traits\",
        \"std::allocator\",
        \"std::less\"
    ]
\x7d
".toList

end TypeSignature.RuleSet
