import TypeSignature.Proofs.Json.Grammar

/-!
# Printing — what is printed is a JSON text that denotes what was printed

A string denotes its characters, one escape each, and a number of 64 bits denotes itself.  A
sequence or map denotes its items and members: the line breaks between them are white space around
each of them.
-/

namespace TypeSignature.Json

/-! ## 1. Strings -/

theorem Characters.append {s t : Text} {ps qs : List Piece} (hs : Characters s ps)
    (ht : Characters t qs) : Characters (s ++ t) (ps ++ qs) := by
  induction hs with
  | nil => exact ht
  | plain hquote hescape hcontrol _ ih => exact .plain hquote hescape hcontrol ih
  | escape hc _ ih => exact .escape hc ih
  | unit hn _ ih => exact .unit hn ih

/-- The code of a control character is read back from its two hexadecimal digits. -/
theorem readIn?_control {c : Char} (hc : c < ' ') :
    Text.readIn? 16 ['0', '0', Nat.digitChar (c.toNat / 16), Nat.digitChar (c.toNat % 16)]
      = some c.toNat ∧ unitPiece c.toNat = .char c := by
  have hall : ∀ n < 32, Text.readIn? 16 ['0', '0', Nat.digitChar (n / 16), Nat.digitChar (n % 16)]
      = some n ∧ unitPiece n = .char (Char.ofNat n) := by decide
  have hcontrol := hall c.toNat hc
  rw [Char.ofNat_toNat] at hcontrol
  exact hcontrol

theorem characters_escape (c : Char) : Characters (escape c) [.char c] := by
  unfold escape
  split
  · exact .escape rfl .nil
  · exact .escape rfl .nil
  · exact .escape rfl .nil
  · exact .escape rfl .nil
  · exact .escape rfl .nil
  · exact .escape rfl .nil
  · exact .escape rfl .nil
  · rename_i hquote hescape _ _ _ _ _
    by_cases hc : c < ' '
    · obtain ⟨hdigits, hunit⟩ := readIn?_control hc
      rw [if_pos hc, ← hunit]
      exact .unit hdigits .nil
    · rw [if_neg hc]
      exact .plain hquote hescape (Char.not_lt.mp hc) .nil

theorem joinPieces_map_char (s : Text) : joinPieces (s.map .char) = some s := by
  induction s with
  | nil => rfl
  | cons c s ih =>
    show (joinPieces (s.map .char)).map (c :: ·) = some (c :: s)
    rw [ih]
    rfl

/-- A printed string is a string that has the value printed. -/
theorem isString_printString (s : Text) : IsString (printString s) (some s) := by
  have hbody : Characters (s.flatMap escape) (s.map .char) := by
    induction s with
    | nil => exact .nil
    | cons c s ih => exact (characters_escape c).append ih
  exact ⟨_, _, rfl, hbody, (joinPieces_map_char s).symm⟩

/-! ## 2. Numbers -/

theorem digitWorth?_of_isDigit {c : Char} (hc : c.isDigit = true) :
    Text.digitWorth? c = some (c.toNat - '0'.toNat) := by
  unfold Text.digitWorth?
  rw [if_pos hc]

theorem appendDigits_of_isDigit (n : Nat) {digits : Text} (h : ∀ c ∈ digits, c.isDigit = true) :
    Text.appendDigits 10 n digits = Nat.ofDigitChars 10 digits n := by
  induction digits generalizing n with
  | nil => rfl
  | cons c digits ih =>
    obtain ⟨hc, h⟩ := List.forall_mem_cons.mp h
    show Text.appendDigits 10 (10 * n + (Text.digitWorth? c).getD 0) digits = _
    rw [digitWorth?_of_isDigit hc, ih _ h]
    rfl

theorem isDigit_of_mem_ofNat {n : Nat} {c : Char} (hc : c ∈ Text.ofNat n) : c.isDigit = true :=
  Nat.isDigit_of_mem_toDigits (by decide) (by decide) hc

theorem valueIn_ofNat (n : Nat) : Text.valueIn 10 (Text.ofNat n) = n := by
  unfold Text.valueIn
  rw [appendDigits_of_isDigit 0 fun _ => isDigit_of_mem_ofNat]
  exact Nat.ofDigitChars_ten_toDigits

/-- A number other than zero does not begin with a zero. -/
theorem head?_ofNat_ne_zero {n : Nat} (hn : 0 < n) : (Text.ofNat n).head? ≠ some '0' := by
  unfold Text.ofNat
  induction n using Nat.strongRecOn with
  | ind n ih =>
    by_cases h : n < 10
    · rw [Nat.toDigits_of_lt_base h]
      intro hzero
      have : n = 0 := Nat.digitChar_eq_zero.mp (Option.some.inj hzero)
      omega
    · rw [Nat.toDigits_of_base_le (by decide) (by omega), List.head?_append,
        Option.or_of_isSome (by simp)]
      exact ih (n / 10) (by omega) (by omega)

theorem isNumeral_ofNat (n : Nat) : IsNumeral (Text.ofNat n) ⟨false, Text.ofNat n, none, none⟩ where
  whole := ⟨Nat.toDigits_ne_nil, fun _ => isDigit_of_mem_ofNat⟩
  leading := by
    intro hzero
    by_cases hn : n = 0
    · rw [hn]
      rfl
    · exact absurd hzero (head?_ofNat_ne_zero (by omega))
  parts := ⟨[], [], .absent, .absent, (List.append_nil _).symm⟩

/-- A printed number denotes itself, as far as 64 bits reach. -/
theorem denotes_ofNat {n : Nat} (hn : n < Nat.pow 2 64) : Denotes (Text.ofNat n) (.integer n) := by
  have hnumber := Denotes.number (isNumeral_ofNat n)
  unfold Numeral.toDocument at hnumber
  simp only [valueIn_ofNat] at hnumber
  rw [if_neg (by decide), if_pos hn] at hnumber
  exact hnumber

/-! ## 3. Lines -/

theorem isSpace_lineBreak (level : Nat) : ∀ c ∈ lineBreak level, isSpace c = true := by
  intro c hc
  rcases List.mem_cons.mp hc with hc | hc
  · rw [hc]
    rfl
  · rw [List.eq_of_mem_replicate hc]
    rfl

/-- The line break before an item, as white space. -/
def breakSpace (level : Nat) : Space := ⟨lineBreak level, isSpace_lineBreak level⟩

/-- No white space. -/
def noSpace : Space := ⟨[], by simp⟩

/-- The space between a colon and a value. -/
def oneSpace : Space := ⟨[' '], List.forall_mem_singleton.mpr rfl⟩

theorem Denotes.isJson {s : Text} {d : Document} (h : Denotes s d) : IsJson s d :=
  ⟨⟨noSpace, s, noSpace⟩, (List.append_nil s).symm, h⟩

section Spread

variable {α β : Type} (part : α → Space → β) (final : Space)

/-- Parts with nothing behind them, but for the last one, which has the line break behind it. -/
def spread : List α → List β
  | [] => []
  | [a] => [part a final]
  | a :: b :: rest => part a noSpace :: spread (b :: rest)

variable {part final}

theorem forall_mem_spread {P : β → Prop} {parts : List α}
    (h : ∀ a ∈ parts, ∀ space, P (part a space)) : ∀ b ∈ spread part final parts, P b := by
  induction parts with
  | nil => simp [spread]
  | cons a parts ih =>
    obtain ⟨ha, hparts⟩ := List.forall_mem_cons.mp h
    cases parts with
    | nil => exact List.forall_mem_singleton.mpr (ha final)
    | cons b parts => exact List.forall_mem_cons.mpr ⟨ha noSpace, ih hparts⟩

theorem map_spread {γ : Type} {f : β → γ} {g : α → γ} (h : ∀ a space, f (part a space) = g a)
    (parts : List α) : (spread part final parts).map f = parts.map g := by
  induction parts with
  | nil => rfl
  | cons a parts ih =>
    cases parts with
    | nil => exact congrArg (fun c => [c]) (h a final)
    | cons b parts =>
      show f (part a noSpace) :: (spread part final (b :: parts)).map f = _
      rw [h, ih]
      rfl

theorem spread_ne_nil {parts : List α} (hne : parts ≠ []) : spread part final parts ≠ [] := by
  unfold spread
  split
  · exact absurd rfl hne
  · exact List.cons_ne_nil _ _
  · exact List.cons_ne_nil _ _

/-- Breaking the line before each part and behind the last is padding each part. -/
theorem join_spread {text : β → Text} {core : α → Text} {lead : Text}
    (h : ∀ a space, text (part a space) = lead ++ core a ++ space.val) {parts : List α}
    (hne : parts ≠ []) : Text.join [','] ((spread part final parts).map text)
      = lead ++ Text.join (',' :: lead) (parts.map core) ++ final.val := by
  induction parts with
  | nil => exact absurd rfl hne
  | cons a parts ih =>
    cases parts with
    | nil => exact h a final
    | cons b parts =>
      have hrest := ih (List.cons_ne_nil b parts)
      have hspread : spread part final (b :: parts) ≠ [] := spread_ne_nil (List.cons_ne_nil b parts)
      obtain ⟨c, rest, hspread⟩ := List.exists_cons_of_ne_nil hspread
      -- a comma stands between the first part and the others, for there are others
      show Text.join [','] (text (part a noSpace) :: (spread part final (b :: parts)).map text) = _
      rw [hspread, List.map_cons] at hrest ⊢
      rw [Text.join_cons_cons, hrest, h]
      show _ = lead ++ (core a ++ ',' :: lead ++ _) ++ final.val
      simp [noSpace]

end Spread

/-! ## 4. Sequences and maps -/

theorem printBlock_of_ne_nil (opening closing : Char) (level : Nat) {items : List Text}
    (hne : items ≠ []) : printBlock opening closing level items = opening ::
      (lineBreak (level + 1) ++ Text.join (',' :: lineBreak (level + 1)) items ++ lineBreak level
        ++ [closing]) := by
  unfold printBlock
  rw [if_neg (by simpa using hne)]
  simp

theorem denotes_printSequence (level : Nat) {items : List (Text × Document)}
    (hitems : ∀ i ∈ items, Denotes i.1 i.2) :
    Denotes (printSequence level (items.map (·.1))) (.sequence (items.map (·.2)) true) := by
  by_cases hne : items = []
  · rw [hne]
    exact .emptySequence noSpace
  · let part (i : Text × Document) (space : Space) : Padded × Document :=
      (⟨breakSpace (level + 1), i.1, space⟩, i.2)
    have htext : Text.join [','] ((spread part (breakSpace level) items).map (·.1.text))
        = lineBreak (level + 1) ++ Text.join (',' :: lineBreak (level + 1)) (items.map (·.1))
          ++ lineBreak level := by
      apply join_spread _ hne
      intro i space
      rfl
    have hdocuments : (spread part (breakSpace level) items).map (·.2) = items.map (·.2) := by
      apply map_spread
      intro i space
      rfl
    unfold printSequence
    rw [printBlock_of_ne_nil _ _ _ (by simpa using hne), ← htext, ← hdocuments]
    exact .sequence (spread_ne_nil hne) (forall_mem_spread fun i hi _ => hitems i hi)

/-- A printed map denotes its members, if their values are printed as they should be. -/
theorem denotes_printMap (level : Nat) {members : List (Text × Text × Document)}
    (hvalues : ∀ m ∈ members, Denotes m.2.1 m.2.2) :
    Denotes (printMap level (members.map fun m => printMember m.1 m.2.1))
      (.map (members.map fun m => (some m.1, m.2.2)) true) := by
  by_cases hne : members = []
  · rw [hne]
    exact .emptyMap noSpace
  · let part (m : Text × Text × Document) (space : Space) : Member :=
      { key := ⟨breakSpace (level + 1), printString m.1, noSpace⟩
        value := ⟨oneSpace, m.2.1, space⟩
        name := some m.1
        document := m.2.2 }
    have hmember : ∀ m space, (part m space).text
        = lineBreak (level + 1) ++ printMember m.1 m.2.1 ++ space.val := by
      intro m space
      simp [part, Member.text, Padded.text, printMember, breakSpace, noSpace, oneSpace]
    have htext : Text.join [','] ((spread part (breakSpace level) members).map Member.text)
        = lineBreak (level + 1) ++ Text.join (',' :: lineBreak (level + 1))
          (members.map fun m => printMember m.1 m.2.1) ++ lineBreak level := join_spread hmember hne
    have hdocuments : (spread part (breakSpace level) members).map (fun m => (m.name, m.document))
        = members.map fun m => (some m.1, m.2.2) := by
      apply map_spread
      intro m space
      rfl
    unfold printMap
    rw [printBlock_of_ne_nil _ _ _ (by simpa using hne), ← htext, ← hdocuments]
    exact .map (spread_ne_nil hne) (forall_mem_spread fun m _ _ => isString_printString m.1)
      (forall_mem_spread fun m hm _ => hvalues m hm)

end TypeSignature.Json
