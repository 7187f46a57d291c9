import TypeSignature.Proofs.Json.Grammar

/-!
# Words — how a text of the grammar is cut into words

White space is passed over, and a word ends where the grammar says.  Only a number could go on
behind its end, so it is told apart from what follows by the character that comes next.
-/

namespace TypeSignature.Json

variable {c : Char} {s rest : Text}

/-! ## 1. White space and single characters -/

theorem words_eq (s : Text) : words s =
    match s.dropWhile isSpace with
    | [] => []
    | c :: rest => (word c rest).1 :: words (word c rest).2 := by
  rw [words]
  split <;> rename_i h <;> rw [h]

theorem words_of_isSpace (hc : isSpace c = true) (s : Text) : words (c :: s) = words s := by
  rw [words_eq, List.dropWhile_cons_of_pos hc, ← words_eq]

theorem words_cons (hc : isSpace c = false) (s : Text) :
    words (c :: s) = (word c s).1 :: words (word c s).2 := by
  rw [words_eq, List.dropWhile_cons_of_neg (by simp [hc])]

theorem words_space_append (space : Space) (s : Text) : words (space.val ++ s) = words s := by
  obtain ⟨blanks, hblanks⟩ := space
  induction blanks with
  | nil => rfl
  | cons c blanks ih =>
    obtain ⟨hc, hrest⟩ := List.forall_mem_cons.mp hblanks
    show words (c :: (blanks ++ s)) = words s
    rw [words_of_isSpace hc]
    exact ih hrest

/-- The characters that are words by themselves. -/
def punctuation? : Char → Option Token
  | '[' => some .openSequence
  | ']' => some .closeSequence
  | '\x7b' => some .openMap
  | '\x7d' => some .closeMap
  | ':' => some .colon
  | ',' => some .comma
  | _ => none

theorem words_punctuation {token : Token} (h : punctuation? c = some token) (s : Text) :
    words (c :: s) = token :: words s := by
  unfold punctuation? at h
  split at h <;> cases h <;> exact words_cons (by decide) s

/-! ## 2. Strings -/

theorem pieces?_plain (hquote : c ≠ '\"') (hescape : c ≠ '\\') (hcontrol : ' ' ≤ c) (s : Text) :
    pieces? (c :: s) = (pieces? s).map fun (ps, s) => (.char c :: ps, s) := by
  rw [pieces?]
  · rw [if_neg (Char.not_lt.mpr hcontrol)]
  · exact hquote
  · intros
    contradiction
  · intros
    contradiction

theorem pieces?_escape {d : Char} (hc : escaped? c = some d) (s : Text) :
    pieces? ('\\' :: c :: s) = (pieces? s).map fun (ps, s) => (.char d :: ps, s) := by
  rw [pieces?]
  · rw [hc]
  · rintro a b c' d' s' rfl rfl
    cases hc

theorem Characters.pieces?_append {body : Text} {ps : List Piece} (h : Characters body ps)
    (rest : Text) : pieces? (body ++ '\"' :: rest) = some (ps, rest) := by
  induction h with
  | nil => rfl
  | plain hquote hescape hcontrol _ ih =>
    rw [List.cons_append, pieces?_plain hquote hescape hcontrol, ih]
    rfl
  | escape hc _ ih =>
    rw [List.cons_append, List.cons_append, pieces?_escape hc, ih]
    rfl
  | unit hn _ ih =>
    simp only [List.cons_append]
    rw [pieces?, hn, ih]
    rfl

theorem words_string {value : Option Text} (h : IsString s value) (rest : Text) :
    words (s ++ rest) = .string value :: words rest := by
  obtain ⟨body, ps, rfl, hbody, rfl⟩ := h
  have hpieces := hbody.pieces?_append rest
  have hword : word '\"' (body ++ '\"' :: rest) = (.string (joinPieces ps), rest) := by
    simp only [word, hpieces]
  rw [List.cons_append, List.append_assoc, List.singleton_append, words_cons (by decide), hword]

/-! ## 3. Numbers and names -/

/-- Nothing that could go on with a number. -/
def Stops (s : Text) : Prop := ∀ c ∈ s.head?, c.isDigit = false ∧ c ≠ '.' ∧ c ≠ 'e' ∧ c ≠ 'E'

/-- No digit comes next. -/
def NoDigit (s : Text) : Prop := ∀ c ∈ s.head?, c.isDigit = false

theorem Stops.noDigit (h : Stops s) : NoDigit s := fun c hc => (h c hc).1

theorem noDigit_cons (hc : c.isDigit = false) (s : Text) : NoDigit (c :: s) := by
  intro d hd
  rw [← Option.some.inj hd]
  exact hc

theorem IsDigits.ne_sign {digits : Text} (h : IsDigits digits) (s : Text) :
    digits ++ rest ≠ '-' :: s ∧ digits ++ rest ≠ '+' :: s := by
  obtain ⟨hne, hdigits⟩ := h
  cases digits with
  | nil => exact absurd rfl hne
  | cons c digits =>
    have hc := hdigits c List.mem_cons_self
    constructor
    all_goals
      intro heq
      rw [(List.cons.inj heq).1] at hc
      cases hc

theorem takeDigits?_append {digits : Text} (h : IsDigits digits) (hrest : NoDigit rest) :
    takeDigits? (digits ++ rest) = some (digits, rest) := by
  have htake : rest.takeWhile Char.isDigit = [] ∧ rest.dropWhile Char.isDigit = rest := by
    cases rest with
    | nil => exact ⟨rfl, rfl⟩
    | cons c rest => simp [hrest c rfl]
  unfold takeDigits?
  rw [List.takeWhile_append_of_pos h.2, List.dropWhile_append_of_pos h.2, htake.1, htake.2,
    List.append_nil]
  split
  · exact absurd rfl h.1
  · rfl

theorem takeWhole?_append {whole : Text} (h : IsDigits whole)
    (hleading : whole.head? = some '0' → whole = ['0']) (hrest : NoDigit rest) :
    takeWhole? (whole ++ rest) = some (whole, rest) := by
  unfold takeWhole?
  rw [takeDigits?_append h hrest]
  split
  · rename_i heq
    cases heq
    cases hleading rfl
  · rfl

theorem takeFraction?_append {fraction : Option Text} (h : IsFraction s fraction)
    (hdigit : NoDigit rest) (hpoint : rest.head? ≠ some '.') :
    takeFraction? (s ++ rest) = some (fraction, rest) := by
  cases h with
  | absent =>
    rw [List.nil_append]
    unfold takeFraction?
    split
    · exact absurd rfl hpoint
    · rfl
  | present h =>
    show (takeDigits? (_ ++ rest)).map _ = _
    rw [takeDigits?_append h hdigit]
    rfl

theorem takeExponentDigits?_append (negative : Bool) {digits : Text} (h : IsDigits digits)
    (hrest : NoDigit rest) :
    takeExponentDigits? negative (digits ++ rest) = some (some (negative, digits), rest) := by
  rw [takeExponentDigits?, takeDigits?_append h hrest]
  rfl

theorem takeExponent?_append {exponent : Option (Bool × Text)} (h : IsExponent s exponent)
    (hrest : Stops rest) : takeExponent? (s ++ rest) = some (exponent, rest) := by
  cases h with
  | absent =>
    cases rest with
    | nil => rfl
    | cons c rest =>
      obtain ⟨-, -, hsmall, hcapital⟩ := hrest c rfl
      have hmark : ¬ (c = 'e' ∨ c = 'E') := not_or.mpr ⟨hsmall, hcapital⟩
      show (if c = 'e' ∨ c = 'E' then _ else some (none, c :: rest)) = _
      rw [if_neg hmark]
  | @present mark sign digits negative hmark hsign h =>
    have hdigits := fun negative => takeExponentDigits?_append negative h hrest.noDigit
    rw [List.cons_append, List.append_assoc]
    cases hsign with
    | absent =>
      rw [List.nil_append, takeExponent?, if_pos hmark, hdigits]
      · exact fun t => (h.ne_sign t).1
      · exact fun t => (h.ne_sign t).2
    | plus =>
      show (if mark = 'e' ∨ mark = 'E' then takeExponentDigits? false (digits ++ rest) else _) = _
      rw [if_pos hmark, hdigits]
    | minus =>
      show (if mark = 'e' ∨ mark = 'E' then takeExponentDigits? true (digits ++ rest) else _) = _
      rw [if_pos hmark, hdigits]

theorem noDigit_append {fraction : Option Text} {exponent : Option (Bool × Text)} {u v : Text}
    (hu : IsFraction u fraction) (hv : IsExponent v exponent) (hrest : Stops rest) :
    NoDigit (u ++ (v ++ rest)) ∧ NoDigit (v ++ rest) ∧ (v ++ rest).head? ≠ some '.' := by
  have hexponent : NoDigit (v ++ rest) ∧ (v ++ rest).head? ≠ some '.' := by
    cases hv with
    | absent => exact ⟨hrest.noDigit, fun hpoint => (hrest '.' hpoint).2.1 rfl⟩
    | present hmark =>
      rw [List.cons_append]
      rcases hmark with rfl | rfl <;> exact ⟨noDigit_cons rfl _, by simp⟩
  refine ⟨?_, hexponent⟩
  cases hu with
  | absent => exact hexponent.1
  | present => exact noDigit_cons rfl _

theorem read?_append {x : Numeral} (h : IsNumeral s x) (hrest : Stops rest) :
    Numeral.read? (s ++ rest) = some (x, rest) := by
  obtain ⟨hwhole, hleading, fraction, exponent, hfraction, hexponent, rfl⟩ := h
  obtain ⟨hbehindWhole, hbehindFraction, hpoint⟩ := noDigit_append hfraction hexponent hrest
  have h₁ := takeWhole?_append hwhole hleading hbehindWhole
  have h₂ := takeFraction?_append hfraction hbehindFraction hpoint
  have h₃ := takeExponent?_append hexponent hrest
  unfold Numeral.read?
  split
  rename_i negative t hsign
  -- the sign is split off, and what is left are the three parts in turn
  have hparts : negative = x.negative ∧ t = x.whole ++ (fraction ++ (exponent ++ rest)) := by
    cases hnegative : x.negative with
    | true =>
      rw [hnegative, if_pos rfl, List.append_assoc, List.append_assoc, List.append_assoc] at hsign
      cases hsign
      exact ⟨rfl, rfl⟩
    | false =>
      rw [hnegative, if_neg (by decide), List.nil_append, List.append_assoc, List.append_assoc]
        at hsign
      split at hsign
      · rename_i heq
        exact absurd heq (hwhole.ne_sign _).1
      · cases hsign
        exact ⟨rfl, rfl⟩
  rw [hparts.1, hparts.2, h₁]
  show (takeFraction? _ >>= _) = _
  rw [h₂]
  show (takeExponent? _ >>= _) = _
  rw [h₃]
  rfl

theorem words_scalar {value : Document} (hspace : isSpace c = false) (hc : punctuation? c = none)
    (hquote : c ≠ '\"') (h : scalar? (c :: s) = some (value, rest)) :
    words (c :: s) = .scalar value :: words rest := by
  have hword : word c s = (.scalar value, rest) := by
    rw [word, h]
    all_goals
      rintro rfl
      first | exact hquote rfl | cases hc
  rw [words_cons hspace, hword]

theorem isSpace_of_isDigit (hc : c.isDigit = true) : isSpace c = false := by
  rw [Bool.eq_false_iff]
  intro hspace
  simp only [isSpace, Bool.or_eq_true, beq_iff_eq] at hspace
  rcases hspace with ((rfl | rfl) | rfl) | rfl <;> cases hc

theorem punctuation?_of_isDigit (hc : c.isDigit = true) : punctuation? c = none := by
  unfold punctuation?
  split
  all_goals first | rfl | cases hc

theorem words_number {x : Numeral} (h : IsNumeral s x) (hrest : Stops rest) :
    words (s ++ rest) = .scalar x.toDocument :: words rest := by
  have hread := read?_append h hrest
  obtain ⟨⟨hne, hdigits⟩, -, fraction, exponent, -, -, hs⟩ := h
  -- the first character is a minus sign or a digit
  obtain ⟨c, t, hst, hc⟩ : ∃ c t, s = c :: t ∧ (c = '-' ∨ c.isDigit = true) := by
    cases hnegative : x.negative with
    | true => exact ⟨'-', _, by rw [hs, hnegative]; rfl, .inl rfl⟩
    | false =>
      obtain ⟨c, whole, hwhole⟩ := List.exists_cons_of_ne_nil hne
      refine ⟨c, whole ++ (fraction ++ exponent), ?_, .inr (hdigits c (by simp [hwhole]))⟩
      rw [hs, hnegative, hwhole]
      rfl
  have hscalar : scalar? (c :: (t ++ rest)) = some (x.toDocument, rest) := by
    rw [hst, List.cons_append] at hread
    rw [scalar?, hread]
  rw [hst, List.cons_append]
  rcases hc with rfl | hc
  · exact words_scalar (by decide) (by decide) (by decide) hscalar
  · exact words_scalar (isSpace_of_isDigit hc) (punctuation?_of_isDigit hc)
      (by rintro rfl; cases hc) hscalar

theorem words_boolean (b : Bool) (rest : Text) :
    words (printBoolean b ++ rest) = .scalar (.boolean b) :: words rest := by
  cases b with
  | true => exact words_scalar (by decide) (by decide) (by decide) rfl
  | false => exact words_scalar (by decide) (by decide) (by decide) rfl

theorem words_null (rest : Text) : words ("null".toList ++ rest) = .scalar .null :: words rest :=
  words_scalar (by decide) (by decide) (by decide) rfl

end TypeSignature.Json
