import TypeSignature.Text.Blank

/-!
# Spacing — rules for single spaces around a character

Each rule rewrites a text in one reading and looks at most one character to either side.  The
removing rules take away one space next to each occurrence of a character; the inserting rules put
one where none is.
-/

namespace TypeSignature.Text

/-- Rewrites each character in the light of the one that precedes it in the text. -/
def mapWithPrevious (f : Option Char → Char → Text) : (previous : Option Char) → Text → Text
  | _, [] => []
  | previous, c :: s => f previous c ++ mapWithPrevious f (some c) s

/-- Rewrites each character in the light of the one that follows it in the text. -/
def mapWithNext (f : Char → Option Char → Text) : Text → Text
  | [] => []
  | c :: s => f c s.head? ++ mapWithNext f s

/-- Removes one space directly before each `token`. -/
def removeSpacesBefore (token : Char) (s : Text) : Text :=
  mapWithNext (fun c next => if c = ' ' ∧ next = some token then [] else [c]) s

/-- Removes one space directly after each `token`. -/
def removeSpacesAfter (token : Char) (s : Text) : Text :=
  mapWithPrevious (fun previous c => if previous = some token ∧ c = ' ' then [] else [c]) none s

/-- Removes one space on either side of each `token`. -/
def removeSpacesAround (token : Char) (s : Text) : Text :=
  removeSpacesBefore token (removeSpacesAfter token s)

/-- Puts a space before each `token` that follows neither a space nor another `token` and does not
begin the text. -/
def insertSpacesBefore (token : Char) (s : Text) : Text :=
  mapWithPrevious
    (fun previous c =>
      if c = token ∧ previous ≠ none ∧ previous ≠ some ' ' ∧ previous ≠ some token then [' ', c]
      else [c])
    none s

/-- Puts a space after each `token` that is followed by something other than a space. -/
def insertSpacesAfter (token : Char) (s : Text) : Text :=
  mapWithPrevious (fun previous c => if previous = some token ∧ c ≠ ' ' then [' ', c] else [c])
    none s

/-- Puts a space on either side of each `token`, where one is missing. -/
def insertSpacesAround (token : Char) (s : Text) : Text :=
  insertSpacesAfter token (insertSpacesBefore token s)

/-- Replaces each run of white space by one space. -/
def collapseBlanks (s : Text) : Text :=
  mapWithPrevious
    (fun previous c => if isBlank c then (if previous.any isBlank then [] else [' ']) else [c])
    none s

/-- A rule that keeps the characters `keep` selects, whatever precedes them, keeps their sequence
in the whole text. -/
theorem filter_mapWithPrevious {keep : Char → Bool} {f : Option Char → Char → Text}
    (h : ∀ previous c, (f previous c).filter keep = [c].filter keep) (previous : Option Char)
    (s : Text) : (mapWithPrevious f previous s).filter keep = s.filter keep := by
  induction s generalizing previous with
  | nil => rfl
  | cons c s ih =>
    rw [mapWithPrevious, List.filter_append, h, ih, ← List.filter_append, List.singleton_append]

/-- The same for a rule that looks at what follows. -/
theorem filter_mapWithNext {keep : Char → Bool} {f : Char → Option Char → Text}
    (h : ∀ c next, (f c next).filter keep = [c].filter keep) (s : Text) :
    (mapWithNext f s).filter keep = s.filter keep := by
  induction s with
  | nil => rfl
  | cons c s ih =>
    rw [mapWithNext, List.filter_append, h, ih, ← List.filter_append, List.singleton_append]

example : removeSpacesAround '(' "int ( int)".toList = "int(int)".toList := by decide
example : insertSpacesBefore '&' "int&&".toList = "int &&".toList := by decide
example : insertSpacesAfter '*' "int**".toList = "int* *".toList := by decide

end TypeSignature.Text
