import TypeSignature.Text.Replace
import TypeSignature.Text.Spacing
import TypeSignature.Text.Trim

/-!
# Canonical — the one way to space a signature

Canonical spacing has a space after each comma and none before it, spaces around `&` and `*` while
`&&`, `**`, `* &` and `& *` stay together, no space on either side of a parenthesis, none behind
`<` or before `>`, and square brackets that are apart from their surroundings but tight around
their content.  It is reached by eighteen rules, one after the other; the order matters, since a
later rule mends what an earlier one leaves.
-/

namespace TypeSignature

open Text

/-- Spaces around single characters; white space has been collapsed before. -/
def spacePunctuation (s : Text) : Text :=
  s |> insertSpacesAfter ','
    |> insertSpacesAround '&'
    |> insertSpacesAround '*'
    |> removeSpacesAround ')'
    |> removeSpacesAround '('
    |> removeSpacesBefore '>'
    |> removeSpacesAfter '<'
    |> removeSpacesAfter '['
    |> removeSpacesBefore ']'
    |> insertSpacesBefore '['
    |> insertSpacesAfter ']'

/-- Spaces between pairs of punctuation characters. -/
def joinPunctuation (s : Text) : Text :=
  s.replace ['*', '&'] ['*', ' ', '&']
    |>.replace ['&', '*'] ['&', ' ', '*']
    |>.replace ['&', ' ', '&'] ['&', '&']
    |>.replace ['[', ' ', ']'] ['[', ']']
    |>.replace [' ', ','] [',']
    |>.replace ['*', ' ', '*'] ['*', '*']

/-- The text in canonical spacing. -/
def canonicalSpacing (s : Text) : Text :=
  trimSpaces (joinPunctuation (spacePunctuation (collapseBlanks s)))

example : canonicalSpacing "std::map<\n\tint  ,char>const&".toList
    = "std::map<int, char>const &".toList := by decide

example : canonicalSpacing "int*& f ( char ) [ 3 ]".toList = "int * & f(char) [3]".toList := by
  decide

end TypeSignature
