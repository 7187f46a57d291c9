import TypeSignature.Text.Replace

/-!
# Replacements — a table of substitutions in the order of its keys

A table holds one value for each key and lists its entries by ascending keys, compared character by
character; for UTF-8 that is also their order by bytes.  Substitutions are made in this order, so
the table's order belongs to its meaning.
-/

namespace TypeSignature

/-- Substitutions, one for each key, in ascending order of the keys. -/
structure Replacements where
  /-- The keys and what replaces them. -/
  entries : List (Text × Text)
  /-- The keys ascend. -/
  ascending : entries.Pairwise fun e f => e.1 < f.1

namespace Replacements

theorem ext {r s : Replacements} (h : r.entries = s.entries) : r = s := by
  cases r; cases s; cases h; rfl

instance : DecidableEq Replacements := fun r s =>
  if h : r.entries = s.entries then isTrue (ext h) else isFalse fun e => h (e ▸ rfl)

/-- The table without entries. -/
def empty : Replacements := ⟨[], .nil⟩

instance : Inhabited Replacements := ⟨empty⟩

/-- Puts an entry in its place; an entry with the same key gives way. -/
def insertEntry (key value : Text) : List (Text × Text) → List (Text × Text)
  | [] => [(key, value)]
  | entry :: entries =>
    if key < entry.1 then (key, value) :: entry :: entries
    else if key = entry.1 then (key, value) :: entries
    else entry :: insertEntry key value entries

theorem mem_insertEntry {key value : Text} {entries : List (Text × Text)} {e : Text × Text}
    (h : e ∈ insertEntry key value entries) : e = (key, value) ∨ e ∈ entries := by
  induction entries with
  | nil => simpa [insertEntry] using h
  | cons entry entries ih =>
    rw [insertEntry] at h
    split at h
    · simpa using h
    · split at h
      · rcases List.mem_cons.mp h with h | h
        · exact .inl h
        · exact .inr (List.mem_cons_of_mem _ h)
      · rcases List.mem_cons.mp h with h | h
        · exact .inr (h ▸ List.mem_cons_self)
        · exact (ih h).imp id (List.mem_cons_of_mem _)

theorem pairwise_insertEntry (key value : Text) {entries : List (Text × Text)}
    (h : entries.Pairwise fun e f => e.1 < f.1) :
    (insertEntry key value entries).Pairwise fun e f => e.1 < f.1 := by
  induction entries with
  | nil => simp [insertEntry]
  | cons entry entries ih =>
    obtain ⟨hentry, hentries⟩ := List.pairwise_cons.mp h
    rw [insertEntry]
    split
    · rename_i hlt
      refine List.pairwise_cons.mpr ⟨fun e he => ?_, h⟩
      rcases List.mem_cons.mp he with rfl | he
      · exact hlt
      · exact List.lt_trans hlt (hentry e he)
    · split
      · rename_i heq
        exact List.pairwise_cons.mpr ⟨fun e he => heq ▸ hentry e he, hentries⟩
      · rename_i hlt hne
        have hgt : entry.1 < key := by
          false_or_by_contra
          rename_i h
          exact hne (List.le_antisymm h hlt)
        refine List.pairwise_cons.mpr ⟨fun e he => ?_, ih hentries⟩
        rcases mem_insertEntry he with rfl | he
        · exact hgt
        · exact hentry e he

/-- The table in which `key` is replaced by `value`. -/
def insert (key value : Text) (r : Replacements) : Replacements :=
  ⟨insertEntry key value r.entries, pairwise_insertEntry key value r.ascending⟩

/-- The table of the given entries; of two with one key the later counts. -/
def ofList (entries : List (Text × Text)) : Replacements :=
  entries.foldl (fun r e => r.insert e.1 e.2) empty

/-- Makes the substitutions of the table one after the other. -/
def apply (r : Replacements) (s : Text) : Text :=
  r.entries.foldl (fun s e => s.replace e.1 e.2) s

/-- The order of keys decides, not the order in which they were given. -/
example : (ofList [(['b'], ['c']), (['a'], ['b'])]).apply ['a'] = ['c'] := by decide

end Replacements

end TypeSignature
