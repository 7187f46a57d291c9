import TypeSignature.Proofs.Json.Printing
import TypeSignature.Proofs.Rules.Members

/-!
# RoundTrip — a printed rule set is read back as it was

What is printed for a field denotes a document that holds the value of the field.  The printed text
then gives each field once, under its canonical name.
-/

namespace TypeSignature

/-! ## 1. Tables -/

namespace Replacements

/-- A key above all others goes to the end. -/
theorem insertEntry_of_above {key value : Text} {entries : List (Text × Text)}
    (h : ∀ e ∈ entries, e.1 < key) :
    insertEntry key value entries = entries ++ [(key, value)] := by
  induction entries with
  | nil => rfl
  | cons entry entries ih =>
    obtain ⟨hentry, hentries⟩ := List.forall_mem_cons.mp h
    have hne : key ≠ entry.1 := by
      intro heq
      rw [heq] at hentry
      exact List.lt_irrefl _ hentry
    unfold insertEntry
    rw [if_neg (List.lt_asymm hentry), if_neg hne, ih hentries]
    rfl

theorem entries_foldl_insert (table : Replacements) {entries : List (Text × Text)}
    (h : (table.entries ++ entries).Pairwise fun e f => e.1 < f.1) :
    (entries.foldl (fun r e => r.insert e.1 e.2) table).entries = table.entries ++ entries := by
  induction entries generalizing table with
  | nil => exact (List.append_nil _).symm
  | cons e entries ih =>
    have habove : ∀ f ∈ table.entries, f.1 < e.1 :=
      fun f hf => (List.pairwise_append.mp h).2.2 f hf e List.mem_cons_self
    have hinsert : (table.insert e.1 e.2).entries = table.entries ++ [e] :=
      insertEntry_of_above habove
    have hassoc : (table.insert e.1 e.2).entries ++ entries = table.entries ++ e :: entries := by
      rw [hinsert, List.append_assoc, List.singleton_append]
    rw [← hassoc] at h ⊢
    exact ih (table.insert e.1 e.2) h

/-- A table is made of its entries. -/
theorem ofList_entries (table : Replacements) : ofList table.entries = table :=
  ext (entries_foldl_insert empty table.ascending)

end Replacements

/-! ## 2. One field -/

namespace RuleSet

open Json

theorem denotes_printTexts (level : Nat) (texts : List Text) :
    Denotes (printTexts level texts) (.sequence (texts.map .string) true) := by
  have hitems : ∀ i ∈ texts.map fun s => (printString s, Document.string s), Denotes i.1 i.2 := by
    intro i hi
    obtain ⟨s, -, rfl⟩ := List.mem_map.mp hi
    exact .string (isString_printString s)
  have hdenotes := denotes_printSequence level hitems
  rw [List.map_map, List.map_map] at hdenotes
  exact hdenotes

theorem denotes_printReplacements (level : Nat) (table : Replacements) :
    Denotes (printReplacements level table)
      (.map (table.entries.map fun e => (some e.1, .string e.2)) true) := by
  have hvalues : ∀ m ∈ table.entries.map fun e => (e.1, printString e.2, Document.string e.2),
      Denotes m.2.1 m.2.2 := by
    intro m hm
    obtain ⟨e, -, rfl⟩ := List.mem_map.mp hm
    exact .string (isString_printString e.2)
  have hdenotes := denotes_printMap level hvalues
  rw [List.map_map, List.map_map] at hdenotes
  exact hdenotes

theorem exists_denotes_printField (r : RuleSet) (level : Nat) (f : Field) :
    ∃ d, Denotes (r.printField level f) d ∧ f.Holds d (r.get f) := by
  cases f with
  | namespaces | keywords | custom | undesirable => exact ⟨_, denotes_printTexts level _, rfl⟩
  | replacements => exact ⟨_, denotes_printReplacements level r.replacements,
      r.replacements.entries, rfl, r.replacements.ofList_entries.symm⟩
  | eastConst => exact ⟨_, .boolean r.eastConst, rfl⟩
  | indentLimit => exact ⟨_, denotes_ofNat r.indentLimit.toNat_lt, rfl⟩

/-! ## 3. All fields -/

theorem isSpelled_name_iff {f g : Field} : g.isSpelled f.name = true ↔ f = g := by
  rw [← Field.ofKey?_eq_some_iff, Field.ofKey?_name, Option.some_inj]

/-- When each field is given under its name, one document is given for each. -/
theorem given_all (documents : Field → Document) (g : Field) :
    g.given (Field.all.map fun f => (f.name, documents f)) = [documents g] := by
  have hfilter : Field.all.filter (fun f => g.isSpelled f.name) = [g] := by
    have hsame : (fun f : Field => g.isSpelled f.name) = fun f => decide (f = g) := by
      funext f
      rw [Bool.eq_iff_iff, isSpelled_name_iff, decide_eq_true_iff]
    rw [hsame]
    cases g <;> rfl
  unfold Field.given
  rw [List.filter_map]
  show ((Field.all.filter fun f => g.isSpelled f.name).map _).map _ = _
  rw [hfilter]
  rfl

theorem isJson_toJson (r : RuleSet) {documents : Field → Document}
    (hdenotes : ∀ f, Denotes (r.printField 1 f) (documents f)) :
    IsJson r.toJson (.map ((Field.all.map fun f => (f.name, documents f)).map
      fun m => (some m.1, m.2)) true) := by
  have hvalues : ∀ m ∈ Field.all.map fun f => (f.name, r.printField 1 f, documents f),
      Denotes m.2.1 m.2.2 := by
    intro m hm
    obtain ⟨f, -, rfl⟩ := List.mem_map.mp hm
    exact hdenotes f
  have hmap := (denotes_printMap 0 hvalues).isJson
  rw [List.map_map, List.map_map] at hmap
  rw [List.map_map]
  exact hmap

/-- **A printed rule set is read back as it was.** -/
theorem ofJson_toJson (r : RuleSet) : ofJson r.toJson = .ok r := by
  choose documents hdenotes hholds using r.exists_denotes_printField 1
  have htyped : ∀ m ∈ Field.all.map fun f => (f.name, documents f), ∀ f : Field,
      f.isSpelled m.1 = true → ∃ value, f.Holds m.2 value := by
    intro m hm
    obtain ⟨f, -, rfl⟩ := List.mem_map.mp hm
    exact Field.exists_holds_of_key f (r.get f) (Field.ofKey?_name f) (hholds f)
  have hgiven : r.GivenBy (Field.all.map fun f => (f.name, documents f)) :=
    fun f => ⟨documents f, given_all documents f, hholds f⟩
  rcases decodeJson_cases (r.isJson_toJson hdenotes) htyped with
    ⟨r', hr', hgiven'⟩ | ⟨f, hf, -⟩ | ⟨f, htwice, -⟩
  · rw [ofJson_eq_ok hr', hgiven.unique hgiven']
  · have := hgiven.length_given f
    rw [given_eq_nil_of_find? hf] at this
    cases this
  · have := hgiven.length_given f
    omega

end RuleSet

end TypeSignature
