import Mathlib.Tactic.Choose
import TypeSignature.Proofs.Json.Printing
import TypeSignature.Proofs.Json.Reading
import TypeSignature.Rules.Json

/-!
# Members — which maps hold a rule set

A map holds a rule set when each field is given once, under any of its spellings.  The rule set is
that of the values given, whatever the order of the members and whatever else is in the map.  A
field that is given again is refused on sight; one that is given nowhere is noticed at the end.
-/

namespace TypeSignature

/-! ## 1. Fields and what is given for them -/

namespace Field

/-- The document holds the value of the field: its kind is the field's, and it is in range. -/
def Holds : (f : Field) → Document → f.Value → Prop
  | .namespaces | .keywords | .custom | .undesirable => fun d texts =>
    d = .sequence (texts.map .string) true
  | .replacements => fun d table => ∃ entries : List (Text × Text),
    d = .map (entries.map fun e => (some e.1, .string e.2)) true ∧ table = .ofList entries
  | .eastConst => fun d b => d = .boolean b
  | .indentLimit => fun d n => d = .integer n.toNat

/-- The documents that the members of a map give for a field, under any of its spellings. -/
def given (f : Field) (members : List (Text × Document)) : List Document :=
  (members.filter fun m => f.isSpelled m.1).map (·.2)

theorem isSpelled_iff {f : Field} {key : Text} :
    f.isSpelled key = true ↔ key = f.name ∨ key ∈ f.aliases := by
  unfold isSpelled
  simp

/-- No two fields have a spelling in common. -/
theorem ofKey?_eq_some_iff {f : Field} {key : Text} :
    ofKey? key = some f ↔ f.isSpelled key = true := by
  constructor
  · intro h
    have hfound : Field.all.find? (·.isSpelled key) = some f := h
    simpa using List.find?_some hfound
  · intro h
    have hall : ∀ key ∈ f.name :: f.aliases, ofKey? key = some f := by
      cases f <;> decide
    exact hall key (List.mem_cons.mpr (isSpelled_iff.mp h))

theorem given_append (f : Field) (members members' : List (Text × Document)) :
    f.given (members ++ members') = f.given members ++ f.given members' := by
  unfold given
  rw [List.filter_append, List.map_append]

theorem given_singleton_of_spelled {f : Field} {key : Text} (h : ofKey? key = some f)
    (d : Document) : f.given [(key, d)] = [d] := by
  simp [given, ofKey?_eq_some_iff.mp h]

theorem given_singleton_of_not_spelled {f : Field} {key : Text} (h : ofKey? key ≠ some f)
    (d : Document) : f.given [(key, d)] = [] := by
  simp [given, mt ofKey?_eq_some_iff.mpr h]

/-! ## 2. One value -/

theorem textList_map (texts : List Text) :
    Document.textList (.sequence (texts.map .string) true) = .ok texts := by
  have hitems : (texts.map Document.string).mapM Document.text = .ok texts := by
    induction texts with
    | nil => rfl
    | cons text texts ih =>
      rw [List.map_cons, List.mapM_cons, ih]
      rfl
  rw [Document.textList, hitems]
  rfl

theorem substitutions_map (table : Replacements) (entries : List (Text × Text)) :
    Document.substitutions table (entries.map fun e => (some e.1, .string e.2))
      = .ok (entries.foldl (fun r e => r.insert e.1 e.2) table) := by
  induction entries generalizing table with
  | nil => rfl
  | cons e entries ih => exact ih (table.insert e.1 e.2)

theorem Holds.fieldValue_eq {f : Field} {d : Document} {value : f.Value} (h : f.Holds d value) :
    d.fieldValue f = .ok value := by
  cases f with
  | namespaces | keywords | custom | undesirable =>
    obtain rfl : d = .sequence (List.map .string value) true := h
    exact textList_map value
  | replacements =>
    obtain ⟨entries, rfl, rfl⟩ := h
    rw [Document.fieldValue, Document.replacementTable, substitutions_map]
    rfl
  | eastConst =>
    obtain rfl : d = .boolean value := h
    rfl
  | indentLimit =>
    obtain rfl : d = .integer value.toNat := h
    have hrange : (0 : Int) ≤ value.toNat ∧ (value.toNat : Int) < Nat.pow 2 64 :=
      ⟨Int.natCast_nonneg _, Int.ofNat_lt.mpr value.toNat_lt⟩
    rw [Document.fieldValue, Document.limit, if_pos hrange, Int.toNat_natCast]
    exact congrArg Except.ok (UInt64.ofNat_toNat)

/-- What is given for a key is given for the field that the key means, and for no other. -/
theorem exists_holds_of_key {key : Text} {d : Document} (f : Field) (value : f.Value)
    (hkey : ofKey? key = some f) (hvalue : f.Holds d value) :
    ∀ g : Field, g.isSpelled key = true → ∃ value, g.Holds d value := by
  intro g hg
  obtain rfl : f = g := Option.some.inj (hkey.symm.trans (ofKey?_eq_some_iff.mpr hg))
  exact ⟨value, hvalue⟩

end Field

/-! ## 3. Drafts -/

namespace Draft

/-- The draft knows the fields that the members give, each of them once. -/
def Knows (draft : Draft) (members : List (Text × Document)) : Prop :=
  ∀ f : Field, f.given members = [] ∧ draft.get? f = none ∨
    ∃ d value, f.given members = [d] ∧ draft.get? f = some value ∧ f.Holds d value

theorem finish_eq_ok {draft : Draft} {r : RuleSet} (h : ∀ f, draft.get? f = some (r.get f)) :
    draft.finish = .ok r := by
  unfold finish require
  simp only [h]
  rfl

/-- When a field is asked for, it is the first missing one or further fields are asked for. -/
theorem require_bind_eq_error {α : Type} {draft : Draft} {f g : Field} {fields : List Field}
    {continuation : g.Value → Except Field α}
    (h : (g :: fields).find? (fun f => !draft.has f) = some f)
    (hfurther : ∀ value, fields.find? (fun f => !draft.has f) = some f →
      continuation value = .error f) : (draft.require g >>= continuation) = .error f := by
  unfold require
  rw [List.find?_cons, has] at h
  cases hg : draft.get? g with
  | none =>
    rw [hg] at h
    obtain rfl : g = f := Option.some.inj h
    rfl
  | some value =>
    rw [hg] at h
    exact hfurther value h

theorem finish_eq_error {draft : Draft} {f : Field}
    (h : Field.all.find? (fun f => !draft.has f) = some f) : draft.finish = .error f := by
  unfold finish
  iterate 7
    apply require_bind_eq_error h
    intro _ h
  cases h

theorem exists_get (values : (f : Field) → f.Value) : ∃ r : RuleSet, ∀ f, r.get f = values f := by
  refine ⟨⟨values .namespaces, values .keywords, values .custom, values .undesirable,
    values .replacements, values .eastConst, values .indentLimit⟩, fun f => ?_⟩
  cases f <;> rfl

theorem knows_empty : Draft.empty.Knows [] := fun _ => .inl ⟨rfl, rfl⟩

variable {draft : Draft} {done : List (Text × Document)} {key : Text} {d : Document} {f : Field}

theorem Knows.append_of_not_key (h : draft.Knows done) (hkey : Field.ofKey? key = none) :
    draft.Knows (done ++ [(key, d)]) := by
  intro f
  have hother : Field.ofKey? key ≠ some f := by simp [hkey]
  rw [Field.given_append, Field.given_singleton_of_not_spelled hother, List.append_nil]
  exact h f

theorem Knows.append_of_key (h : draft.Knows done) (hkey : Field.ofKey? key = some f)
    (hnew : draft.has f = false) {value : f.Value} (hvalue : f.Holds d value) :
    (draft.set f value).Knows (done ++ [(key, d)]) := by
  intro g
  rw [Field.given_append]
  by_cases hg : f = g
  · subst hg
    rw [Field.given_singleton_of_spelled hkey, get?_set_self]
    rcases h f with ⟨hnone, -⟩ | ⟨_, _, -, hsome, -⟩
    · exact .inr ⟨d, value, by rw [hnone, List.nil_append], rfl, hvalue⟩
    · rw [has, hsome] at hnew
      cases hnew
  · have hother : Field.ofKey? key ≠ some g := by simpa [hkey] using hg
    rw [Field.given_singleton_of_not_spelled hother, List.append_nil, get?_set_of_ne _ _ hg]
    exact h g

end Draft

/-! ## 4. The members of a map, one after the other -/

namespace Document

section

variable {draft : Draft} {key : Text} {d : Document} {f : Field}
  (members : List (Option Text × Document))

theorem addMembers_of_not_key (hkey : Field.ofKey? key = none) :
    addMembers false draft ((some key, d) :: members) = addMembers false draft members := by
  simp [addMembers, legibleKey, hkey, bind, Except.bind]

theorem addMembers_of_has (hkey : Field.ofKey? key = some f) (hknown : draft.has f = true) :
    addMembers false draft ((some key, d) :: members) = .error (.duplicate f) := by
  simp [addMembers, legibleKey, hkey, hknown, bind, Except.bind]

theorem addMembers_of_new (hkey : Field.ofKey? key = some f) (hnew : draft.has f = false)
    {value : f.Value} (hvalue : d.fieldValue f = .ok value) :
    addMembers false draft ((some key, d) :: members)
      = addMembers false (draft.set f value) members := by
  simp [addMembers, legibleKey, hkey, hnew, hvalue, bind, Except.bind]

end

variable {draft : Draft} {done members : List (Text × Document)}

/-- Reading members either adds them to what the draft knows or stops at a field that is given
again. -/
theorem addMembers_cases (hknows : draft.Knows done)
    (htyped : ∀ m ∈ members, ∀ f : Field, f.isSpelled m.1 = true → ∃ value, f.Holds m.2 value) :
    (∃ draft', addMembers false draft (members.map fun m => (some m.1, m.2)) = .ok draft' ∧
      draft'.Knows (done ++ members)) ∨
    ∃ f : Field, addMembers false draft (members.map fun m => (some m.1, m.2))
      = .error (.duplicate f) ∧ 2 ≤ (f.given (done ++ members)).length := by
  -- what the draft knows is always what the members before it have given
  induction members generalizing draft done with
  | nil => exact .inl ⟨draft, rfl, by rwa [List.append_nil]⟩
  | cons m members ih =>
    obtain ⟨key, d⟩ := m
    obtain ⟨hd, htyped⟩ := List.forall_mem_cons.mp htyped
    have hassoc : done ++ (key, d) :: members = done ++ [(key, d)] ++ members := by simp
    rw [hassoc, List.map_cons]
    cases hkey : Field.ofKey? key with
    | none =>
      rw [addMembers_of_not_key _ hkey]
      exact ih (hknows.append_of_not_key hkey) htyped
    | some f =>
      obtain ⟨value, hvalue⟩ := hd f (Field.ofKey?_eq_some_iff.mp hkey)
      cases hhas : draft.has f with
      | false =>
        rw [addMembers_of_new _ hkey hhas hvalue.fieldValue_eq]
        exact ih (hknows.append_of_key hkey hhas hvalue) htyped
      | true =>
        refine .inr ⟨f, addMembers_of_has _ hkey hhas, ?_⟩
        rcases hknows f with ⟨-, hnone⟩ | ⟨d', -, hgiven, -, -⟩
        · rw [Draft.has, hnone] at hhas
          cases hhas
        · rw [Field.given_append, Field.given_append, hgiven,
            Field.given_singleton_of_spelled hkey]
          simp

end Document

/-! ## 5. Messages that name a field -/

/-- The name of a field between two backquotes, as messages give it. -/
def Field.quoted (f : Field) : Text := '\x60' :: (f.name ++ ['\x60'])

/-- The answer is an error about the document, and its message names this field and no other. -/
def RefusedFor (f : Field) (answer : Except Error RuleSet) : Prop :=
  ∃ message, answer = .error (.configuration message none) ∧
    ∀ g : Field, g.quoted <:+: message ↔ g = f

/-- Between its marks, a text with two marks quotes one text. -/
theorem Text.eq_of_quoted_infix {mark : Char} {lead name other : Text} (hlead : mark ∉ lead)
    (hname : mark ∉ name) (hother : mark ∉ other)
    (h : mark :: (other ++ [mark]) <:+: lead ++ mark :: (name ++ [mark])) : other = name := by
  obtain ⟨before, behind, heq⟩ := h
  have hpieces : splitOn mark before ++ other :: splitOn mark behind = [lead, name, []] := by
    have hsplit := congrArg (splitOn mark) heq
    have hempty : splitOn mark [] = [[]] := rfl
    simpa [splitOn_append_cons, splitOn_of_not_mem, hlead, hname, hother, hempty] using hsplit
  obtain ⟨first, further, hbefore⟩ := List.exists_cons_of_ne_nil (splitOn_ne_nil mark before)
  obtain ⟨last, rest, hbehind⟩ := List.exists_cons_of_ne_nil (splitOn_ne_nil mark behind)
  rw [hbefore, hbehind] at hpieces
  -- there are three pieces, so nothing but the quoted text stands in the middle
  cases further with
  | nil => exact List.head_eq_of_cons_eq (List.tail_eq_of_cons_eq hpieces)
  | cons piece further =>
    have hlength := congrArg List.length hpieces
    simp only [List.length_append, List.length_cons, List.length_nil] at hlength
    omega

theorem Field.name_injective : Function.Injective Field.name := by
  intro f g h
  have hkey := ofKey?_name f
  rw [h, ofKey?_name g] at hkey
  exact (Option.some.inj hkey).symm

theorem Field.not_mem_name (f : Field) : '\x60' ∉ f.name := by cases f <;> decide

/-! ## 6. The answer to a JSON object -/

open Json

/-- The members give the rule set: each field once, and with its value. -/
def RuleSet.GivenBy (members : List (Text × Document)) (r : RuleSet) : Prop :=
  ∀ f : Field, ∃ d, f.given members = [d] ∧ f.Holds d (r.get f)

/-- What the members of a map decide about the rule set in it: what is read from them, or the first
fault of it, and the answer that is given. -/
structure DecidedByMembers (members : List (Text × Document)) (decoded : Decoded RuleSet)
    (answer : Except Error RuleSet) : Prop where
  /-- There is a rule set exactly when each field is given once. -/
  accepted_iff : (∃ r, answer = .ok r) ↔ ∀ f : Field, (f.given members).length = 1
  /-- The rule set has the values given. -/
  rules_iff : ∀ r, answer = .ok r ↔ r.GivenBy members
  /-- A field that is given again is named, even where others are missing. -/
  repeated : (∃ f : Field, 2 ≤ (f.given members).length) →
    ∃ f : Field, 2 ≤ (f.given members).length ∧ decoded = .error (.duplicate f) ∧
      RefusedFor f answer
  /-- Otherwise the first missing field is named. -/
  missing : (∀ f : Field, (f.given members).length ≤ 1) →
    ∀ f, Field.all.find? (fun f => (f.given members).isEmpty) = some f →
      decoded = .error (.missing f) ∧ RefusedFor f answer

theorem Field.Holds.unique {f : Field} {d : Document} {value value' : f.Value}
    (h : f.Holds d value) (h' : f.Holds d value') : value = value' :=
  Except.ok.inj (h.fieldValue_eq.symm.trans h'.fieldValue_eq)

namespace RuleSet

theorem ext_get {r r' : RuleSet} (h : ∀ f, r.get f = r'.get f) : r = r' := by
  obtain ⟨n, k, c, u, t, e, l⟩ := r
  obtain ⟨n', k', c', u', t', e', l'⟩ := r'
  obtain rfl : n = n' := h .namespaces
  obtain rfl : k = k' := h .keywords
  obtain rfl : c = c' := h .custom
  obtain rfl : u = u' := h .undesirable
  obtain rfl : t = t' := h .replacements
  obtain rfl : e = e' := h .eastConst
  obtain rfl : l = l' := h .indentLimit
  rfl

variable {s : Text} {members : List (Text × Document)} {draft : Draft} {f : Field}

theorem decodeJson_of_members
    (hs : IsJson s (.map (members.map fun m => (some m.1, m.2)) true)) :
    decodeJson s = Document.addMembers false .empty (members.map fun m => (some m.1, m.2)) >>=
      Document.finishDraft := by
  unfold decodeJson
  rw [hs.read_eq]
  show Document.rules false _ >>= Document.ended true = _
  rw [Document.rules]
  cases Document.addMembers false .empty (members.map fun m => (some m.1, m.2)) with
  | error fault => rfl
  | ok draft =>
    show Document.finishDraft draft >>= Document.ended true = Document.finishDraft draft
    cases Document.finishDraft draft <;> rfl

theorem finish_cases (h : draft.Knows members) :
    (∃ r : RuleSet, draft.finish = .ok r ∧ r.GivenBy members) ∨
    ∃ f, Field.all.find? (fun f => (f.given members).isEmpty) = some f ∧
      draft.finish = .error f := by
  have hhas : ∀ f : Field, (f.given members).isEmpty = !draft.has f := by
    intro f
    unfold Draft.has
    rcases h f with ⟨hnone, hno⟩ | ⟨d, value, hone, hsome, -⟩
    · rw [hnone, hno]
      rfl
    · rw [hone, hsome]
      rfl
  -- so the first field that nothing is given for is the first that the draft lacks
  simp only [hhas]
  cases hmissing : Field.all.find? (fun f => !draft.has f) with
  | some f => exact .inr ⟨f, rfl, Draft.finish_eq_error hmissing⟩
  | none =>
    have hgiven : ∀ f : Field, ∃ value, draft.get? f = some value ∧
        ∃ d, f.given members = [d] ∧ f.Holds d value := by
      intro f
      rcases h f with ⟨-, hno⟩ | ⟨d, value, hone, hsome, hvalue⟩
      · have hknown := List.find?_eq_none.mp hmissing f (Field.mem_all f)
        simp [Draft.has, hno] at hknown
      · exact ⟨value, hsome, d, hone, hvalue⟩
    choose values hvalues using hgiven
    obtain ⟨r, hr⟩ := Draft.exists_get values
    refine .inl ⟨r, Draft.finish_eq_ok fun f => ?_, fun f => ?_⟩
    · rw [hr f, (hvalues f).1]
    · rw [hr f]
      exact (hvalues f).2

/-- There is a rule set, or the first missing field is noticed, or one that is given again. -/
theorem decodeJson_cases (hs : IsJson s (.map (members.map fun m => (some m.1, m.2)) true))
    (htyped : ∀ m ∈ members, ∀ f : Field, f.isSpelled m.1 = true → ∃ value, f.Holds m.2 value) :
    (∃ r, decodeJson s = .ok r ∧ r.GivenBy members) ∨
    (∃ f, Field.all.find? (fun f => (f.given members).isEmpty) = some f ∧
      (∀ f : Field, (f.given members).length ≤ 1) ∧ decodeJson s = .error (.missing f)) ∨
    ∃ f : Field, 2 ≤ (f.given members).length ∧ decodeJson s = .error (.duplicate f) := by
  rw [decodeJson_of_members hs]
  rcases Document.addMembers_cases Draft.knows_empty htyped with
    ⟨draft, hdraft, hknows⟩ | ⟨f, hrefused, htwice⟩
  · rw [hdraft]
    show (∃ r, draft.finish.mapError _ = _ ∧ _) ∨ (∃ f, _ ∧ _ ∧ draft.finish.mapError _ = _) ∨ _
    rcases finish_cases hknows with ⟨r, hr, hvalues⟩ | ⟨f, hf, hmissing⟩
    · exact .inl ⟨r, by rw [hr]; rfl, hvalues⟩
    · refine .inr (.inl ⟨f, hf, fun f => ?_, by rw [hmissing]; rfl⟩)
      rcases hknows f with ⟨hnone, -⟩ | ⟨d, -, hone, -, -⟩
      · exact hnone ▸ Nat.zero_le 1
      · exact hone ▸ Nat.le_refl 1
  · exact .inr (.inr ⟨f, htwice, by rw [hrefused]; rfl⟩)

theorem ofJson_eq_ok {r : RuleSet} (h : decodeJson s = .ok r) : ofJson s = .ok r := by
  rw [ofJson, h]
  rfl

/-- A fault whose wording ends with the name of a field, and quotes nothing before, names that field
and no other. -/
theorem refusedFor_of_decodeJson {fault : DecodeFault} (wording : Text)
    (h : decodeJson s = .error fault)
    (hmessage : fault.message = wording ++ ['\x60'] ++ f.name ++ ['\x60'])
    (hwording : '\x60' ∉ wording) : RefusedFor f (ofJson s) := by
  have hquoted : fault.message = wording ++ f.quoted := by
    rw [hmessage, Field.quoted, List.append_assoc, List.append_assoc, List.singleton_append]
  refine ⟨"Failed to parse rule set JSON: ".toList ++ (wording ++ f.quoted), ?_, fun g => ?_⟩
  · rw [ofJson, h, ← hquoted]
    rfl
  · rw [← List.append_assoc]
    constructor
    · intro hin
      have hlead : '\x60' ∉ "Failed to parse rule set JSON: ".toList ++ wording :=
        fun hmem => (List.mem_append.mp hmem).elim (by decide) hwording
      exact Field.name_injective
        (Text.eq_of_quoted_infix hlead f.not_mem_name g.not_mem_name hin)
    · rintro rfl
      exact (List.suffix_append _ _).isInfix

theorem refusedFor_of_missing (h : decodeJson s = .error (.missing f)) : RefusedFor f (ofJson s) :=
  refusedFor_of_decodeJson "missing field ".toList h rfl (by decide)

theorem refusedFor_of_duplicate (h : decodeJson s = .error (.duplicate f)) :
    RefusedFor f (ofJson s) :=
  refusedFor_of_decodeJson "duplicate field ".toList h rfl (by decide)

theorem given_eq_nil_of_find?
    (h : Field.all.find? (fun f => (f.given members).isEmpty) = some f) : f.given members = [] := by
  have hempty := List.find?_some h
  exact List.isEmpty_iff.mp hempty

theorem GivenBy.length_given {r : RuleSet} (h : r.GivenBy members) (f : Field) :
    (f.given members).length = 1 := by
  obtain ⟨d, hd, -⟩ := h f
  rw [hd]
  rfl

theorem GivenBy.unique {r r' : RuleSet} (h : r.GivenBy members) (h' : r'.GivenBy members) :
    r = r' := by
  apply ext_get
  intro f
  obtain ⟨d, hd, hvalue⟩ := h f
  obtain ⟨d', hd', hvalue'⟩ := h' f
  rw [hd] at hd'
  rw [← List.singleton_inj.mp hd'] at hvalue'
  exact hvalue.unique hvalue'

/-- A refusal decides what it should when some field is not given once. -/
theorem decided_of_refused {answer : Except Error RuleSet} {g : Field}
    (hf : (f.given members).length ≠ 1) (hrefused : RefusedFor g answer) :
    ((∃ r : RuleSet, answer = .ok r) ↔ ∀ f : Field, (f.given members).length = 1) ∧
      ∀ r : RuleSet, answer = .ok r ↔ r.GivenBy members := by
  obtain ⟨message, rfl, -⟩ := hrefused
  constructor
  · constructor
    · intro h
      obtain ⟨r, hr⟩ := h
      cases hr
    · exact fun hone => absurd (hone f) hf
  · intro r
    constructor
    · intro hr
      cases hr
    · exact fun hgiven => absurd (hgiven.length_given f) hf

/-- **A JSON object holds a rule set exactly when each field is given once.** -/
theorem decidedByMembers_ofJson
    (hs : IsJson s (.map (members.map fun m => (some m.1, m.2)) true))
    (htyped : ∀ m ∈ members, ∀ f : Field, f.isSpelled m.1 = true → ∃ value, f.Holds m.2 value) :
    DecidedByMembers members (decodeJson s) (ofJson s) := by
  rcases decodeJson_cases hs htyped with ⟨r, hr, hgiven⟩ | ⟨f, hf, hatMost, hmissing⟩ |
    ⟨f, htwice, hduplicate⟩
  · have hone := hgiven.length_given
    rw [ofJson_eq_ok hr]
    refine ⟨⟨fun _ => hone, fun _ => ⟨r, rfl⟩⟩, fun r' => ?_, ?_, ?_⟩
    · constructor
      · intro heq
        rw [← Except.ok.inj heq]
        exact hgiven
      · intro hgiven'
        rw [hgiven.unique hgiven']
    · intro hrepeated
      obtain ⟨f, htwice⟩ := hrepeated
      have := hone f
      omega
    · intro _ f hf
      have := hone f
      rw [given_eq_nil_of_find? hf] at this
      cases this
  · have hnone : (f.given members).length ≠ 1 := by
      rw [given_eq_nil_of_find? hf]
      simp
    have hrefused := refusedFor_of_missing hmissing
    obtain ⟨haccepted, hrules⟩ := decided_of_refused hnone hrefused
    refine ⟨haccepted, hrules, ?_, ?_⟩
    · intro hrepeated
      obtain ⟨f, htwice⟩ := hrepeated
      have := hatMost f
      omega
    · intro _ f' hf'
      rw [hf] at hf'
      obtain rfl := Option.some.inj hf'
      exact ⟨hmissing, hrefused⟩
  · have hseveral : (f.given members).length ≠ 1 := by omega
    have hrefused := refusedFor_of_duplicate hduplicate
    obtain ⟨haccepted, hrules⟩ := decided_of_refused hseveral hrefused
    refine ⟨haccepted, hrules, fun _ => ⟨f, htwice, hduplicate, hrefused⟩, ?_⟩
    intro hatMost
    have := hatMost f
    omega

/-- Neither the order nor the spelling of the fields counts, nor a member that has no value. -/
theorem decidedByMembers_ofJson_legacy :
    let s : Text := Text.join ['\n'] ["\x7b".toList,
      "  \"force_east_const_\": true,".toList,
      "  \"comment\": \"\\ud800\",".toList,
      "  \"suppress_extract_struct_class_\": [],".toList,
      "  \"undesirable_type_nodes\": [],".toList,
      "  \"indent_depth_limit\": 12,".toList,
      "  \"suppress_custom\": [],".toList,
      "  \"replacements_after_undesirable_node_extractions\": \x7b\x7d,".toList,
      "  \"suppress_extra_namespaces_\": []".toList,
      "\x7d".toList]
    let members : List (Text × Document) :=
      [("force_east_const_".toList, .boolean true), ("comment".toList, .unreadable),
        ("suppress_extract_struct_class_".toList, .sequence [] true),
        ("undesirable_type_nodes".toList, .sequence [] true),
        ("indent_depth_limit".toList, .integer 12), ("suppress_custom".toList, .sequence [] true),
        ("replacements_after_undesirable_node_extractions".toList, .map [] true),
        ("suppress_extra_namespaces_".toList, .sequence [] true)]
    IsJson s (.map (members.map fun m => (some m.1, m.2)) true) ∧
      (∀ m ∈ members, ∀ f : Field, f.isSpelled m.1 = true → ∃ value, f.Holds m.2 value) ∧
      DecidedByMembers members (decodeJson s) (ofJson s) ∧
      ofJson s = .ok { RuleSet.empty with eastConst := true, indentLimit := 12 } := by
  intro s members
  have hs : IsJson s (.map (members.map fun m => (some m.1, m.2)) true) := by
    let written : List (Text × Text × Document) := members.zipWith (fun m text => (m.1, text, m.2))
      ["true".toList, "\"\\ud800\"".toList, "[]".toList, "[]".toList, "12".toList, "[]".toList,
        "\x7b\x7d".toList, "[]".toList]
    have hvalues : ∀ m ∈ written, Denotes m.2.1 m.2.2 := by
      have hhalf : IsString "\"\\ud800\"".toList none := ⟨_, _, rfl, .unit rfl .nil, rfl⟩
      have htwelve : Denotes (Text.ofNat 12) (.integer (12 : Nat)) := denotes_ofNat (by decide)
      simp only [written, members, List.zipWith, List.forall_mem_cons, List.not_mem_nil,
        false_imp_iff, implies_true, and_true]
      exact ⟨.boolean true, .string hhalf, .emptySequence noSpace, .emptySequence noSpace, htwelve,
        .emptySequence noSpace, .emptyMap noSpace, .emptySequence noSpace⟩
    have htext : s = printMap 0 (written.map fun m => printMember m.1 m.2.1) := by decide +kernel
    rw [htext]
    exact (denotes_printMap 0 hvalues).isJson
  have htyped : ∀ m ∈ members, ∀ f : Field, f.isSpelled m.1 = true →
      ∃ value, f.Holds m.2 value := by
    have hcomment : ∀ f : Field, f.isSpelled "comment".toList = true →
        ∃ value, f.Holds .unreadable value := by
      have hnone : Field.ofKey? "comment".toList = none := by decide
      intro f hf
      rw [← Field.ofKey?_eq_some_iff, hnone] at hf
      cases hf
    simp only [members, List.forall_mem_cons, List.not_mem_nil, false_imp_iff, implies_true,
      and_true]
    exact ⟨Field.exists_holds_of_key .eastConst true (by decide) rfl, hcomment,
      Field.exists_holds_of_key .keywords [] (by decide) rfl,
      Field.exists_holds_of_key .undesirable [] (by decide) rfl,
      Field.exists_holds_of_key .indentLimit 12 (by decide) rfl,
      Field.exists_holds_of_key .custom [] (by decide) rfl,
      Field.exists_holds_of_key .replacements .empty (by decide) ⟨[], rfl, rfl⟩,
      Field.exists_holds_of_key .namespaces [] (by decide) rfl⟩
  have hdecided := decidedByMembers_ofJson hs htyped
  refine ⟨hs, htyped, hdecided, (hdecided.rules_iff _).mpr fun f => ?_⟩
  cases f with
  | namespaces | keywords | custom | undesirable | eastConst | indentLimit => exact ⟨_, rfl, rfl⟩
  | replacements => exact ⟨_, rfl, [], rfl, rfl⟩

end RuleSet

end TypeSignature
