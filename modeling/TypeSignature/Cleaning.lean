import TypeSignature.Canonical
import TypeSignature.EastConst
import TypeSignature.Error
import TypeSignature.Rules.Basic
import TypeSignature.Tree.Render

/-!
# Cleaning — a signature without its noise

A signature is cleaned in a fixed order: noise is deleted from the text, the rest is read as a
tree, the texts of the tree are trimmed, undesirable arguments are removed, the tree is written on
one line, replacements are made, and the result is spaced canonically.  `normalize` moves `const`
on top of that when the rules ask for it, and `cleanForDisplay` also breaks what nests too deep
into lines.

A list of signatures is cleaned as the arguments of one unnamed group, so that its commas follow
the same rules as any other.
-/

namespace TypeSignature

open Text

/-- Deletes every occurrence of each text in turn. -/
def deleteAll (noise : List Text) (s : Text) : Text := noise.foldl (fun s text => s.replace text []) s

/-- Deletes the namespaces, then the keywords, then the custom texts of a rule set. -/
def removeNoise (r : RuleSet) (s : Text) : Text :=
  s |> deleteAll r.namespaces |> deleteAll r.keywords |> deleteAll r.custom

/-- Trims the spaces around every text of a tree. -/
def Tree.trimFragments (t : Tree) : Tree := t.mapText trimSpaces

/-- Removes every node below the root whose name, apart from spaces around it, is undesirable. -/
def Tree.dropUndesirable (r : RuleSet) (t : Tree) : Tree :=
  t.filter fun node => !r.isUndesirable (trimSpaces node.left)

/-- Trims the texts of a tree and removes its undesirable nodes. -/
def Tree.prune (r : RuleSet) (t : Tree) : Tree := t.trimFragments.dropUndesirable r

/-- Makes the replacements and spaces the result. -/
def finishText (r : RuleSet) (s : Text) : Text := canonicalSpacing (r.replacements.apply s)

/-- Cleans one signature; a comma outside of all brackets is refused. -/
def cleanSignature (r : RuleSet) (s : Text) : Except Error Text :=
  let signature := removeNoise r s
  match Tree.parse .angle true signature with
  | .error fault => .error (.malformedSignature signature fault)
  | .ok tree => .ok (finishText r ((tree.prune r).render .angle .compact))

/-- Cleans a list of signatures. -/
def cleanList (r : RuleSet) (s : Text) : Except Error Text :=
  let signatures := removeNoise r s
  match Tree.parseList .angle true signatures with
  | .error fault => .error (.malformedSignature signatures fault)
  | .ok tree => .ok (finishText r ((tree.prune r).renderItems .angle .compact))

/-- Moves `const` if the rules ask for it. -/
def placeConst (r : RuleSet) (s : Text) : Text := if r.eastConst then eastConstList s else s

/-- Cleans a list of signatures and moves `const` if the rules ask for it. -/
def normalize (r : RuleSet) (s : Text) : Except Error Text := (cleanList r s).map (placeConst r)

/-- Spaces a list of signatures and moves `const` if the rules ask for it; deletes and removes
nothing. -/
def reformat (r : RuleSet) (s : Text) : Text := placeConst r (canonicalSpacing s)

/-- The signatures of a list, without spaces around them. -/
def splitTypes (s : Text) : List Text := Brackets.angle.split s

/-- A list of signatures with each argument on a line of its own. -/
def layOut (s : Text) : Except Error Text :=
  match Tree.parseList .angle true s with
  | .error fault => .error (.malformedSignature s fault)
  | .ok tree => .ok (tree.renderItems .angle .indented)

/-- Lays a list of signatures out if brackets nest in it deeper than the rules allow on one line.
The root of the list counts as one level.  That level is added to the limit as a natural number: for
the greatest limit, where a sum of 64 bits would overflow, nothing is ever laid out. -/
def layOutIfDeep (r : RuleSet) (s : Text) : Except Error Text :=
  if r.indentLimit = 0 then .ok s
  else
    match Tree.parseList .angle true s with
    | .error fault => .error (.malformedSignature s fault)
    | .ok tree =>
      .ok (if r.indentLimit.toNat + 1 < tree.depth then tree.renderItems .angle .indented else s)

/-- Normalizes a list of signatures and lays it out if it nests too deep. -/
def cleanForDisplay (r : RuleSet) (s : Text) : Except Error Text :=
  (normalize r s).bind (layOutIfDeep r)

end TypeSignature
