import TypeSignature.Text.Basic

/-!
# Blank — the characters that only separate

A character is blank when it has the Unicode property White_Space.  The table lists the property's
ten ranges; it holds 25 characters, among them every one that `Char.isWhitespace` knows.  The zero
width characters U+200B and U+FEFF are not blank, nor are the separators U+001C to U+001F.
-/

namespace TypeSignature.Text

/-- The ranges of White_Space, ends included, in ascending order. -/
def blankRanges : List (Nat × Nat) :=
  [(0x9, 0xD), (0x20, 0x20), (0x85, 0x85), (0xA0, 0xA0), (0x1680, 0x1680), (0x2000, 0x200A),
   (0x2028, 0x2029), (0x202F, 0x202F), (0x205F, 0x205F), (0x3000, 0x3000)]

/-- Whether a character is white space. -/
def isBlank (c : Char) : Bool :=
  blankRanges.any fun (low, high) => low ≤ c.toNat && c.toNat ≤ high

example : (blankRanges.map fun (low, high) => high + 1 - low).sum = 25 := by decide

/-- Whatever counts as white space in ASCII is blank. -/
theorem isBlank_of_isWhitespace {c : Char} (h : c.isWhitespace = true) : isBlank c = true := by
  simp only [Char.isWhitespace, Bool.or_eq_true, decide_eq_true_eq] at h
  rcases h with ((rfl | rfl) | rfl) | rfl <;> decide

@[simp] theorem isBlank_space : isBlank ' ' = true := by decide

end TypeSignature.Text
