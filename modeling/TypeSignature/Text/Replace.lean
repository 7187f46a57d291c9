import TypeSignature.Text.Basic

/-!
# Replace — substitution of every occurrence

`s.replace old new` reads `s` from the left.  Where `old` begins, it writes `new` and goes on
behind the occurrence; elsewhere it keeps the character.  Occurrences are thus taken leftmost first
and never overlap, and what was written is never read again, so a replacement that contains the
replaced text is substituted once for each occurrence.
-/

namespace TypeSignature.Text

/-- Substitution in progress: `skip` characters of an occurrence already replaced lie ahead. -/
def replaceFrom (old new : Text) : (skip : Nat) → Text → Text
  | _, [] => []
  | skip + 1, _ :: s => replaceFrom old new skip s
  | 0, c :: s =>
    if old.isPrefixOf (c :: s) then new ++ replaceFrom old new (old.length - 1) s
    else c :: replaceFrom old new 0 s

/-- The text with each occurrence of `old` replaced by `new`; the empty text occurs nowhere. -/
def replace (s old new : Text) : Text :=
  if old.isEmpty then s else replaceFrom old new 0 s

@[simp] theorem replace_empty (s new : Text) : replace s [] new = s := rfl

/-- With a skip, the occurrence's remaining characters are passed over. -/
theorem replaceFrom_skip (old new : Text) (skip : Nat) (s : Text) :
    replaceFrom old new skip s = replaceFrom old new 0 (s.drop skip) := by
  induction skip generalizing s with
  | zero => rfl
  | succ skip ih =>
    cases s with
    | nil => rfl
    | cons c s => rw [replaceFrom, ih, List.drop_succ_cons]

/-- Replacement resumes behind the inserted text, even when that text holds the replaced one. -/
example : replace "xax".toList "x".toList "yx".toList = "yxayx".toList := by decide

/-- Of two overlapping occurrences the left one counts. -/
example : replace "aaa".toList "aa".toList "b".toList = "ba".toList := by decide

end TypeSignature.Text
