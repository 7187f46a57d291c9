/-!
# Text — signature text, character by character

Every rule of this library reads and writes text one character at a time, so a text is its list of
characters.  Positions, however, are counted in bytes: `Text.byteSize` is the size of the UTF-8
form, and it adds up over a concatenation.
-/

namespace TypeSignature

/-- A text is the list of its characters. -/
abbrev Text := List Char

namespace Text

/-- The number of bytes of the text in UTF-8; all positions in messages are counted this way. -/
def byteSize (s : Text) : Nat := s.foldr (fun c n => c.utf8Size + n) 0

@[simp] theorem byteSize_nil : byteSize [] = 0 := rfl

@[simp] theorem byteSize_cons (c : Char) (s : Text) :
    byteSize (c :: s) = c.utf8Size + byteSize s := rfl

@[simp] theorem byteSize_append (s t : Text) : byteSize (s ++ t) = byteSize s + byteSize t := by
  induction s with
  | nil => simp
  | cons c s ih => rw [List.cons_append, byteSize_cons, byteSize_cons, ih, Nat.add_assoc]

/-- The bytes of a string are the bytes of its characters. -/
theorem byteSize_toList (s : String) : byteSize s.toList = s.utf8ByteSize := by
  suffices h : ∀ t : Text, byteSize t = (String.ofList t).utf8ByteSize by
    rw [h, String.ofList_toList]
  intro t
  induction t with
  | nil => simp [String.ofList_nil]
  | cons c t ih =>
    have hsplit : String.ofList (c :: t) = String.ofList [c] ++ String.ofList t := by
      rw [← String.ofList_append]; rfl
    rw [byteSize_cons, ih, hsplit, String.utf8ByteSize_append, ← String.singleton_eq_ofList,
      String.utf8ByteSize_singleton]

/-- A natural number in decimal, without leading zeros. -/
def ofNat (n : Nat) : Text := Nat.toDigits 10 n

/-- An integer in decimal, with a minus sign in front when it is negative. -/
def ofInt : Int → Text
  | .ofNat n => ofNat n
  | .negSucc n => '-' :: ofNat (n + 1)

/-- What remains of `s` after `lead`, when `s` begins with it. -/
def afterLead? (s lead : Text) : Option Text := lead.isPrefixOf? s

/-- What remains of `s` before `tail`, when `s` ends with it. -/
def beforeTail? (s tail : Text) : Option Text := tail.isSuffixOf? s

theorem afterLead?_eq_some_iff {s lead rest : Text} :
    s.afterLead? lead = some rest ↔ s = lead ++ rest := by
  induction lead generalizing s with
  | nil =>
    show some s = some rest ↔ s = rest
    exact Option.some_inj
  | cons c lead ih =>
    cases s with
    | nil =>
      show none = some rest ↔ [] = c :: (lead ++ rest)
      simp
    | cons d s =>
      show (if c == d then afterLead? s lead else none) = some rest ↔ _
      by_cases h : c = d
      · simp [h, ih]
      · simp [h, Ne.symm h]

theorem beforeTail?_eq_some_iff {s tail rest : Text} :
    s.beforeTail? tail = some rest ↔ s = rest ++ tail := by
  have h := @afterLead?_eq_some_iff s.reverse tail.reverse rest.reverse
  unfold afterLead? at h
  unfold beforeTail? List.isSuffixOf?
  constructor
  · intro hs
    obtain ⟨r, hr, rfl⟩ := Option.map_eq_some_iff.1 hs
    rw [List.reverse_reverse] at h
    have := congrArg List.reverse (h.1 hr)
    simpa using this
  · rintro rfl
    rw [h.2 (by simp)]
    simp

/-- The texts in order, with `between` after each but the last. -/
def join (between : Text) : List Text → Text
  | [] => []
  | [s] => s
  | s :: t :: rest => s ++ between ++ join between (t :: rest)

@[simp] theorem join_nil (between : Text) : join between [] = [] := rfl

@[simp] theorem join_singleton (between s : Text) : join between [s] = s := rfl

theorem join_cons_cons (between s t : Text) (rest : List Text) :
    join between (s :: t :: rest) = s ++ between ++ join between (t :: rest) := rfl

/-- The pieces between the occurrences of a character; there is always a first one. -/
def splitOn (c : Char) : Text → List Text
  | [] => [[]]
  | d :: s =>
    if d = c then [] :: splitOn c s
    else
      match splitOn c s with
      | [] => [[d]]
      | piece :: pieces => (d :: piece) :: pieces

theorem splitOn_ne_nil (c : Char) (s : Text) : splitOn c s ≠ [] := by
  cases s with
  | nil => simp [splitOn]
  | cons d s =>
    rw [splitOn]
    split
    · simp
    · split <;> simp

theorem splitOn_of_not_mem {c : Char} {s : Text} (h : c ∉ s) : splitOn c s = [s] := by
  induction s with
  | nil => rfl
  | cons d s ih =>
    rw [List.mem_cons, not_or] at h
    rw [splitOn, if_neg (Ne.symm h.1), ih h.2]

theorem splitOn_append_cons (c : Char) (s t : Text) :
    splitOn c (s ++ c :: t) = splitOn c s ++ splitOn c t := by
  induction s with
  | nil =>
    show splitOn c (c :: t) = [] :: splitOn c t
    rw [splitOn, if_pos rfl]
  | cons d s ih =>
    rw [List.cons_append, splitOn, splitOn, ih]
    obtain ⟨piece, pieces, hpieces⟩ := List.exists_cons_of_ne_nil (splitOn_ne_nil c s)
    rw [hpieces]
    by_cases hd : d = c
    · rw [if_pos hd, if_pos hd]
      rfl
    · rw [if_neg hd, if_neg hd]
      rfl

/-- Splitting and joining again gives the text back. -/
theorem join_splitOn (c : Char) (s : Text) : join [c] (splitOn c s) = s := by
  induction s with
  | nil => rfl
  | cons d s ih =>
    rw [splitOn]
    cases h : splitOn c s with
    | nil => exact absurd h (splitOn_ne_nil c s)
    | cons piece pieces =>
      rw [h] at ih
      split
      · rename_i hd; simp [hd, join_cons_cons, ih]
      · cases pieces with
        | nil => simpa using ih
        | cons next rest =>
          simp only [join_cons_cons, List.cons_append] at ih ⊢
          rw [ih]

end Text

end TypeSignature
