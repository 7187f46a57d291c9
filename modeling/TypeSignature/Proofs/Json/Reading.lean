import TypeSignature.Json.Reader
import TypeSignature.Proofs.Json.Words

/-!
# Reading — every JSON text is read as the document that it denotes

Reading a value finishes it and goes on with the innermost sequence or map that is open, whatever
stands behind the value and whatever is open around it.
-/

namespace TypeSignature.Json

variable {s rest : Text} {d : Document} {expecting : Expecting} {frames : List Frame}
  {token : Token}

/-- Goes on behind a finished value. -/
def resume (value : Document) : List Frame → List Token → Document × List Token
  | [], tokens => (value, tokens)
  | frame :: frames, tokens => readFrom .next (frame.add value :: frames) tokens

/-! ## 1. One word -/

theorem readFrom_of_expect {expecting' : Expecting} {frames' : List Frame}
    (h : step expecting token frames = .expect expecting' frames') (tokens : List Token) :
    readFrom expecting frames (token :: tokens) = readFrom expecting' frames' tokens := by
  rw [readFrom, h]

theorem readFrom_of_finished {value : Document} {frames' : List Frame}
    (h : step expecting token frames = .finished value frames') (tokens : List Token) :
    readFrom expecting frames (token :: tokens) = resume value frames' tokens := by
  rw [readFrom, h]
  cases frames' <;> rfl

/-- A value may begin here. -/
def BeginsValue (expecting : Expecting) : Prop := expecting = .value ∨ expecting = .firstItem

/-- A key may begin here. -/
def BeginsKey (expecting : Expecting) : Prop := expecting = .key ∨ expecting = .firstKey

theorem step_of_beginsValue (h : BeginsValue expecting) (htoken : token ≠ .closeSequence) :
    step expecting token frames = beginValue token frames := by
  rcases h with rfl | rfl
  · rfl
  · unfold step
    split
    all_goals first | rfl | contradiction

theorem step_of_beginsKey (h : BeginsKey expecting) (htoken : token ≠ .closeMap) :
    step expecting token frames = beginMember token frames := by
  rcases h with rfl | rfl
  · rfl
  · unfold step
    split
    all_goals first | rfl | contradiction

/-! ## 2. One value -/

/-- The text is read as the document. -/
def Reads (s : Text) (d : Document) : Prop :=
  ∀ rest, Stops rest → ∀ expecting frames, BeginsValue expecting →
    readFrom expecting frames (words (s ++ rest)) = resume d frames (words rest)

theorem stops_cons {c : Char} (hc : c ∈ [',', ']', '\x7d']) (s : Text) : Stops (c :: s) := by
  intro d hd
  rw [← Option.some.inj hd]
  simp only [List.mem_cons, List.not_mem_nil, or_false] at hc
  rcases hc with rfl | rfl | rfl <;> decide

theorem stops_space_append (space : Space) (h : Stops rest) : Stops (space.val ++ rest) := by
  obtain ⟨blanks, hblanks⟩ := space
  cases blanks with
  | nil => exact h
  | cons c blanks =>
    have hc := hblanks c List.mem_cons_self
    simp only [isSpace, Bool.or_eq_true, beq_iff_eq] at hc
    intro d hd
    rw [← Option.some.inj hd]
    rcases hc with ((rfl | rfl) | rfl) | rfl <;> decide

theorem Reads.padded {p : Padded} (h : Reads p.core d) (hrest : Stops rest)
    (hexpecting : BeginsValue expecting) :
    readFrom expecting frames (words (p.text ++ rest)) = resume d frames (words rest) := by
  rw [Padded.text, List.append_assoc, List.append_assoc, words_space_append,
    h _ (stops_space_append p.after hrest) _ _ hexpecting, words_space_append]

theorem reads_scalar (h : ∀ rest, Stops rest → words (s ++ rest) = .scalar d :: words rest) :
    Reads s d := by
  intro rest hrest expecting frames hexpecting
  rw [h rest hrest]
  apply readFrom_of_finished
  exact step_of_beginsValue hexpecting (by simp)

theorem reads_string {value : Option Text} (h : IsString s value) :
    Reads s (value.elim .unreadable .string) := by
  intro rest _ expecting frames hexpecting
  rw [words_string h]
  apply readFrom_of_finished
  exact step_of_beginsValue hexpecting (by simp)

/-! ## 3. Sequences and maps -/

/-- Parts with commas between them are read one after the other, if each of them is: `frame` is the
open sequence or map that holds the given parts. -/
theorem readFrom_join {α : Type} {text : α → Text} (frame : List α → Frame)
    (begins : Expecting → Prop) {further : Expecting} (hfurther : begins further)
    (hcomma : ∀ done,
      step .next .comma (frame done :: frames) = .expect further (frame done :: frames))
    {parts : List α} (hne : parts ≠ [])
    (hparts : ∀ a ∈ parts, ∀ done expecting rest, begins expecting → Stops rest →
      readFrom expecting (frame done :: frames) (words (text a ++ rest))
        = readFrom .next (frame (done ++ [a]) :: frames) (words rest))
    (done : List α) (hexpecting : begins expecting) (hrest : Stops rest) :
    readFrom expecting (frame done :: frames) (words (Text.join [','] (parts.map text) ++ rest))
      = readFrom .next (frame (done ++ parts) :: frames) (words rest) := by
  induction parts generalizing done expecting with
  | nil => exact absurd rfl hne
  | cons a parts ih =>
    obtain ⟨ha, hparts⟩ := List.forall_mem_cons.mp hparts
    cases parts with
    | nil => exact ha done expecting rest hexpecting hrest
    | cons b parts =>
      have hfirst := ha done expecting (',' :: (Text.join [','] ((b :: parts).map text) ++ rest))
        hexpecting (stops_cons (by decide) _)
      have hrest := ih (by simp) hparts (done ++ [a]) hfurther
      rw [words_punctuation rfl, readFrom_of_expect (hcomma _), hrest] at hfirst
      rw [List.map_cons, List.map_cons, Text.join_cons_cons]
      simpa using hfirst

theorem readFrom_open {opening : Char} {expecting' : Expecting} {frame : Frame}
    (hopening : punctuation? opening = some token) (htoken : token ≠ .closeSequence)
    (hbegin : beginValue token frames = .expect expecting' (frame :: frames))
    (hexpecting : BeginsValue expecting) (s : Text) :
    readFrom expecting frames (words (opening :: s))
      = readFrom expecting' (frame :: frames) (words s) := by
  rw [words_punctuation hopening]
  apply readFrom_of_expect
  rw [step_of_beginsValue hexpecting htoken, hbegin]

theorem reads_emptySequence (space : Space) :
    Reads ('[' :: (space.val ++ [']'])) (.sequence [] true) := by
  intro rest _ expecting frames hexpecting
  rw [List.cons_append, readFrom_open rfl (by simp) rfl hexpecting, List.append_assoc,
    words_space_append, List.singleton_append, words_punctuation rfl]
  exact readFrom_of_finished rfl _

theorem reads_sequence {items : List (Padded × Document)} (hne : items ≠ [])
    (hitems : ∀ i ∈ items, Reads i.1.core i.2) :
    Reads ('[' :: (Text.join [','] (items.map (·.1.text)) ++ [']']))
      (.sequence (items.map (·.2)) true) := by
  intro rest hrest expecting frames hexpecting
  let frame (done : List (Padded × Document)) : Frame := .items (done.map (·.2)).reverse
  have hloop : readFrom .firstItem (frame [] :: frames)
      (words (Text.join [','] (items.map (·.1.text)) ++ ']' :: rest))
      = readFrom .next (frame ([] ++ items) :: frames) (words (']' :: rest)) := by
    apply readFrom_join frame BeginsValue (.inl rfl) (fun _ => rfl) hne _ [] (.inr rfl)
      (stops_cons (by decide) rest)
    intro i hi done expecting rest hexpecting hrest
    rw [(hitems i hi).padded hrest hexpecting]
    simp [resume, frame, Frame.add]
  have hend : step .next .closeSequence (frame ([] ++ items) :: frames)
      = .finished (.sequence (items.map (·.2)) true) frames := by
    show Outcome.finished _ _ = _
    rw [List.reverse_reverse, List.nil_append]
  rw [List.cons_append, readFrom_open rfl (by simp) rfl hexpecting, List.append_assoc,
    List.singleton_append]
  refine hloop.trans ?_
  rw [words_punctuation rfl, readFrom_of_finished hend]

/-- A member is added to the innermost map. -/
theorem readFrom_member {m : Member} (hkey : IsString m.key.core m.name)
    (hvalue : Reads m.value.core m.document) (hrest : Stops rest)
    (hexpecting : BeginsKey expecting) (done : List (Option Text × Document)) :
    readFrom expecting (.members done :: frames) (words (m.text ++ rest))
      = readFrom .next (.members ((m.name, m.document) :: done) :: frames) (words rest) := by
  have hbegin : step expecting (.string m.name) (.members done :: frames)
      = .expect .colon (.member done m.name :: frames) :=
    step_of_beginsKey hexpecting (by simp)
  rw [Member.text, Padded.text, List.append_assoc, List.append_assoc, List.append_assoc,
    words_space_append, words_string hkey, readFrom_of_expect hbegin, words_space_append,
    List.cons_append, words_punctuation rfl, readFrom_of_expect rfl,
    hvalue.padded hrest (.inl rfl)]
  rfl

theorem reads_emptyMap (space : Space) :
    Reads ('\x7b' :: (space.val ++ ['\x7d'])) (.map [] true) := by
  intro rest _ expecting frames hexpecting
  rw [List.cons_append, readFrom_open rfl (by simp) rfl hexpecting, List.append_assoc,
    words_space_append, List.singleton_append, words_punctuation rfl]
  exact readFrom_of_finished rfl _

theorem reads_map {members : List Member} (hne : members ≠ [])
    (hkeys : ∀ m ∈ members, IsString m.key.core m.name)
    (hvalues : ∀ m ∈ members, Reads m.value.core m.document) :
    Reads ('\x7b' :: (Text.join [','] (members.map Member.text) ++ ['\x7d']))
      (.map (members.map fun m => (m.name, m.document)) true) := by
  intro rest hrest expecting frames hexpecting
  let frame (done : List Member) : Frame :=
    .members (done.map fun m => (m.name, m.document)).reverse
  have hloop : readFrom .firstKey (frame [] :: frames)
      (words (Text.join [','] (members.map Member.text) ++ '\x7d' :: rest))
      = readFrom .next (frame ([] ++ members) :: frames) (words ('\x7d' :: rest)) := by
    apply readFrom_join frame BeginsKey (.inl rfl) (fun _ => rfl) hne _ [] (.inr rfl)
      (stops_cons (by decide) rest)
    intro m hm done expecting rest hexpecting hrest
    rw [readFrom_member (hkeys m hm) (hvalues m hm) hrest hexpecting]
    simp [frame]
  have hend : step .next .closeMap (frame ([] ++ members) :: frames)
      = .finished (.map (members.map fun m => (m.name, m.document)) true) frames := by
    show Outcome.finished _ _ = _
    rw [List.reverse_reverse, List.nil_append]
  rw [List.cons_append, readFrom_open rfl (by simp) rfl hexpecting, List.append_assoc,
    List.singleton_append]
  refine hloop.trans ?_
  rw [words_punctuation rfl, readFrom_of_finished hend]

/-! ## 4. Whole texts -/

theorem Denotes.reads (h : Denotes s d) : Reads s d := by
  induction h with
  | null => exact reads_scalar fun rest _ => words_null rest
  | boolean b => exact reads_scalar fun rest _ => words_boolean b rest
  | number h => exact reads_scalar fun rest hrest => words_number h hrest
  | string h => exact reads_string h
  | emptySequence space => exact reads_emptySequence space
  | sequence hne _ ih => exact reads_sequence hne ih
  | emptyMap space => exact reads_emptyMap space
  | map hne hkeys _ ih => exact reads_map hne hkeys ih

/-- A JSON text is read as the document that it denotes, and nothing is left over. -/
theorem IsJson.read_eq (h : IsJson s d) : read s = (d, true) := by
  obtain ⟨p, rfl, hp⟩ := h
  have hstops : Stops [] := fun c hc => by cases hc
  have hwhole : readFrom .value [] (words (p.text ++ [])) = resume d [] (words []) :=
    hp.reads.padded hstops (.inl rfl)
  rw [List.append_nil, words_eq []] at hwhole
  rw [read, hwhole]
  rfl

end TypeSignature.Json
