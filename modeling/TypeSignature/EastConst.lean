import TypeSignature.Brackets

/-!
# EastConst — `const` behind the type it qualifies

`const T &` and `T const &` mean the same.  In a canonically spaced type a leading `const` is moved
behind the type's name, in front of the first pointer or reference sign.  Only the shapes listed
here are recognised; any other text stays as it is.
-/

namespace TypeSignature

open Text

/-- The declarators that may end a `const T`, longest first, and what replaces each when `const` is
moved in front of it. -/
def eastConstTails : List (Text × Text) :=
  [(" * const".toList, " const * const".toList),
   (" * const &".toList, " const * const &".toList),
   (" * &".toList, " const * &".toList),
   (" &".toList, " const &".toList),
   (" *".toList, " const *".toList)]

/-- Moves `const` in front of the first of the given declarators that the type ends with. -/
def eastConstTail? (s : Text) : List (Text × Text) → Option Text
  | [] => none
  | (tail, eastTail) :: tails =>
    match s.stripSurrounding "const ".toList tail with
    | some name => some (name ++ eastTail)
    | none => eastConstTail? s tails

/-- Moves a leading `const` behind the type that it qualifies. -/
def eastConst (s : Text) : Text :=
  if "const".toList.isSuffixOf s && !"const ".toList.isPrefixOf s then s
  else
    match eastConstTail? s eastConstTails with
    | some moved => moved
    | none =>
      match s.afterLead? "const * ".toList with
      | some name => name ++ " const *".toList
      | none =>
        match s.afterLead? "const ".toList with
        | some name => name ++ " const".toList
        | none => s

/-- Moves `const` in each type of a list. -/
def eastConstList (s : Text) : Text :=
  join [',', ' '] ((Brackets.angle.split s).map eastConst)

example : eastConst "const Foo * const &".toList = "Foo const * const &".toList := by decide

/-- A `const` that already stands behind its type stays there. -/
example : eastConst "Foo const".toList = "Foo const".toList := by decide

example : eastConstList "const int &, std::map<int, char>, const char *".toList
    = "int const &, std::map<int, char>, char const *".toList := by decide

end TypeSignature
