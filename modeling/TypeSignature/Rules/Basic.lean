import TypeSignature.Rules.Replacements

/-!
# Rules — what cleaning a signature takes away and puts in place

A rule set is built once and then only read.  `RuleSet.default` knows the noise that common
compilers and standard libraries leave in type names; `RuleSet.empty` changes nothing but spacing.
-/

namespace TypeSignature

/-- Everything that cleaning a signature can be told. -/
structure RuleSet where
  /-- Texts that are deleted first, such as inline namespaces. -/
  namespaces : List Text
  /-- Texts that are deleted second, such as the keyword before a class name. -/
  keywords : List Text
  /-- Texts that are deleted last. -/
  custom : List Text
  /-- Arguments that are removed, by the text before their group. -/
  undesirable : List Text
  /-- Substitutions made once undesirable arguments are gone. -/
  replacements : Replacements
  /-- Whether a leading `const` is moved behind the type it qualifies. -/
  eastConst : Bool
  /-- The nesting up to which a signature stays on one line; zero means always. -/
  indentLimit : UInt64
  deriving DecidableEq

namespace RuleSet

/-- The rules for names as compilers print them. -/
def default : RuleSet where
  namespaces := ["::__1".toList, "::__cxx11".toList]
  keywords := ["class ".toList, "struct ".toList]
  custom := [" __ptr64".toList]
  undesirable := ["std::char_traits".toList, "std::allocator".toList, "std::less".toList]
  replacements := .ofList
    [("basic_string<_CharT, _Traits, _Allocator>".toList, "std::string".toList),
     ("std::basic_string<char>".toList, "std::string".toList)]
  eastConst := false
  indentLimit := 3

/-- The rules that delete, remove, replace and move nothing and never indent. -/
def empty : RuleSet where
  namespaces := []
  keywords := []
  custom := []
  undesirable := []
  replacements := .empty
  eastConst := false
  indentLimit := 0

instance : Inhabited RuleSet := ⟨default⟩

/-- Whether arguments of this name are removed. -/
def isUndesirable (r : RuleSet) (name : Text) : Bool := r.undesirable.contains name

end RuleSet

end TypeSignature
