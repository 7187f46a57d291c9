import TypeSignature.Error
import TypeSignature.Rules.Decode
import TypeSignature.Toml.Reader

/-!
# Toml — rule sets as TOML texts

A TOML text is checked as a whole before its values are looked at, and these are looked at in the
order of their keys.
-/

namespace TypeSignature.RuleSet

/-- The rule set in a TOML text, or the first thing wrong with the text. -/
def decodeToml (s : Text) : Decoded RuleSet :=
  match Toml.read? s with
  | some document => document.rules true
  | none => .error .malformed

/-- The rule set in a TOML text. -/
def ofToml (s : Text) : Except Error RuleSet :=
  (decodeToml s).mapError fun fault =>
    .configuration ("Failed to parse rule set TOML: ".toList ++ fault.message) none

end TypeSignature.RuleSet
