import TypeSignature.Proofs.Path
import TypeSignature.Rules.Search

/-!
# Search — the nearest file decides

A search passes over the files that are not there and ends at the first one that is, whatever comes
of it.  So it depends on nothing that stands farther away, and an error on the way is never hidden
by rules that would hold without it.
-/

namespace TypeSignature

/-! ## 1. Searches and errors -/

section

variable {ε α β γ : Type}

theorem findSomeM?_of_none {f : α → Except ε (Option β)} {as : List α}
    (h : ∀ a ∈ as, f a = .ok none) : as.findSomeM? f = .ok none := by
  induction as with
  | nil => rfl
  | cons a as ih =>
    obtain ⟨ha, has⟩ := List.forall_mem_cons.mp h
    rw [List.findSomeM?_cons, ha]
    exact ih has

theorem findSomeM?_append (f : α → Except ε (Option β)) (as bs : List α) :
    (as ++ bs).findSomeM? f = (do
      match (← as.findSomeM? f) with
      | some b => pure (some b)
      | none => bs.findSomeM? f) := by
  induction as with
  | nil => rfl
  | cons a as ih =>
    rw [List.cons_append, List.findSomeM?_cons, List.findSomeM?_cons, ih]
    cases f a with
    | error e => rfl
    | ok found =>
      cases found with
      | none => rfl
      | some b => rfl

/-- A search in searches is one search. -/
theorem findSomeM?_flatMap (f : β → Except ε (Option γ)) (g : α → List β) (as : List α) :
    (as.flatMap g).findSomeM? f = as.findSomeM? fun a => (g a).findSomeM? f := by
  induction as with
  | nil => rfl
  | cons a as ih =>
    rw [List.flatMap_cons, findSomeM?_append, List.findSomeM?_cons, ih]
    rfl

theorem exists_of_mapError_eq_error {δ : Type} {f : ε → δ} {x : Except ε α} {e : δ}
    (h : x.mapError f = .error e) : ∃ fault, e = f fault := by
  cases x with
  | ok a => cases h
  | error fault =>
    cases h
    exact ⟨fault, rfl⟩

end

/-! ## 2. Single files -/

/-- What a file makes of the search that ends there. -/
inductive Outcome (files : FileSystem) (p : Path) : Except Error RuleSet → Prop
  | unreadable {fault : ReadFault} (hread : files p = .error fault) :
      Outcome files p (.error (.unreadable fault))
  | rules {text : Text} {rules : RuleSet} (hread : files p = .ok text)
      (hrules : RuleSet.ofText (.ofPath p) text = .ok rules) : Outcome files p (.ok rules)
  | refused {text message : Text} {origin : Option Path} (hread : files p = .ok text)
      (hrefused : RuleSet.ofText (.ofPath p) text = .error (.configuration message origin)) :
      Outcome files p
        (.error (.configuration (message ++ " (".toList ++ p ++ ")".toList) (some p)))

namespace RuleSet

variable {files : FileSystem} {p : Path}

/-- A text is refused with a message, and with nothing else. -/
theorem exists_message_of_ofText {n : Notation} {text : Text} {e : Error}
    (h : ofText n text = .error e) : ∃ message, e = .configuration message none := by
  cases n with
  | json =>
    obtain ⟨fault, rfl⟩ := exists_of_mapError_eq_error h
    exact ⟨_, rfl⟩
  | toml =>
    obtain ⟨fault, rfl⟩ := exists_of_mapError_eq_error h
    exact ⟨_, rfl⟩

theorem outcome_ofFile (files : FileSystem) (p : Path) : Outcome files p (ofFile files p) := by
  unfold ofFile
  cases hread : files p with
  | error fault => exact .unreadable hread
  | ok text =>
    show Outcome files p ((ofText (.ofPath p) text).mapError (locate p))
    cases hparse : ofText (.ofPath p) text with
    | ok rules => exact .rules hread hparse
    | error e =>
      obtain ⟨message, rfl⟩ := exists_message_of_ofText hparse
      exact .refused hread hparse

/-- Only what reading the file gives can make it missing. -/
theorem ofFile_ne_notFound (h : files p ≠ .error .notFound) :
    ofFile files p ≠ .error (.unreadable .notFound) := by
  intro hfile
  have houtcome := outcome_ofFile files p
  rw [hfile] at houtcome
  cases houtcome with
  | unreadable hread => exact h hread

theorem ofFile?_of_notFound (h : files p = .error .notFound) : ofFile? files p = .ok none := by
  rw [ofFile?, ofFile, h]

theorem ofFile?_of_found (h : files p ≠ .error .notFound) :
    ofFile? files p = (ofFile files p).map some := by
  have hne := ofFile_ne_notFound h
  unfold ofFile?
  split
  · rename_i hfile
    rw [hfile]
    rfl
  · rename_i hfile
    exact absurd hfile hne
  · rename_i hfile
    rw [hfile]
    rfl

/-! ## 3. The search -/

/-- The files that may hold the rules for a directory, the nearest first. -/
def candidates (start : Path) : List Path :=
  (start.ancestors 64).flatMap fun directory =>
    [directory.join ".sigtidy.json".toList, directory.join ".sigtidy.toml".toList]

theorem find_eq (files : FileSystem) (start : Path) :
    find files start = (do
      let found ← (candidates start).findSomeM? (ofFile? files)
      return found.getD default) := by
  rw [candidates, findSomeM?_flatMap]
  rfl

theorem find_of_notFound {start : Path} (h : ∀ p ∈ candidates start, files p = .error .notFound) :
    find files start = .ok .default := by
  have hnone : ∀ p ∈ candidates start, ofFile? files p = .ok none := by
    intro p hp
    exact ofFile?_of_notFound (h p hp)
  rw [find_eq, findSomeM?_of_none hnone]
  rfl

theorem find_of_nearest {start nearest : Path} {before behind : List Path}
    (hcandidates : candidates start = before ++ nearest :: behind)
    (hbefore : ∀ p ∈ before, files p = .error .notFound)
    (hnearest : files nearest ≠ .error .notFound) : find files start = ofFile files nearest := by
  have hnone : ∀ p ∈ before, ofFile? files p = .ok none := by
    intro p hp
    exact ofFile?_of_notFound (hbefore p hp)
  rw [find_eq, hcandidates, findSomeM?_append, findSomeM?_of_none hnone, List.findSomeM?_cons,
    ofFile?_of_found hnearest]
  cases ofFile files nearest with
  | error e => rfl
  | ok rules => rfl

theorem ofFile_congr {files' : FileSystem} (h : files' p = files p) :
    ofFile files' p = ofFile files p := by
  rw [ofFile, ofFile, h]

/-- **The nearest file decides.**  Without any of the files the default rules hold.  Otherwise the
first file that is there decides, read as the notation that its name tells, and errors of reading it
count; what the files behind it hold does not matter, nor whether they are there. -/
theorem find_nearest (files : FileSystem) (start : Path) :
    ((∀ p ∈ candidates start, files p = .error .notFound) → find files start = .ok .default) ∧
    (∀ before nearest behind, candidates start = before ++ nearest :: behind →
      (∀ p ∈ before, files p = .error .notFound) → files nearest ≠ .error .notFound →
      Outcome files nearest (find files start) ∧
      ∀ files' : FileSystem, (∀ p ∈ before ++ [nearest], files' p = files p) →
        find files' start = find files start) ∧
    ∀ directory : Path,
      Notation.ofPath (directory.join ".sigtidy.json".toList) = .json ∧
      Notation.ofPath (directory.join ".sigtidy.toml".toList) = .toml := by
  refine ⟨find_of_notFound, ?_, ?_⟩
  · intro before nearest behind hcandidates hbefore hnearest
    have hfind := find_of_nearest hcandidates hbefore hnearest
    refine ⟨hfind ▸ outcome_ofFile files nearest, ?_⟩
    intro files' hagree
    rw [List.forall_mem_append, List.forall_mem_singleton] at hagree
    have hbefore' : ∀ p ∈ before, files' p = .error .notFound := by
      intro p hp
      rw [hagree.1 p hp, hbefore p hp]
    rw [find_of_nearest hcandidates hbefore' (hagree.2 ▸ hnearest), hfind, ofFile_congr hagree.2]
  · intro directory
    rw [Notation.ofPath, Notation.ofPath, Path.extension?_join directory (by decide) (by decide)
      (by decide), Path.extension?_join directory (by decide) (by decide) (by decide)]
    decide

/-- A file system that holds one file. -/
def oneFile (place : Path) (text : Text) : FileSystem :=
  fun p => if p = place then .ok text else .error .notFound

/-- A file that holds no rule set is not passed over, and one farther away that cannot be read is
not noticed. -/
theorem find_nearest_refused :
    candidates "/a".toList = ["/a/.sigtidy.json".toList] ++
      "/a/.sigtidy.toml".toList :: ["/.sigtidy.json".toList, "/.sigtidy.toml".toList] ∧
    find (oneFile "/a/.sigtidy.toml".toList "]".toList) "/a".toList
      = .error (.configuration "Failed to parse rule set TOML: syntax (/a/.sigtidy.toml)".toList
          (some "/a/.sigtidy.toml".toList)) ∧
    find (fun p =>
        if p = "/.sigtidy.json".toList then .error (.other "PermissionDenied".toList)
        else oneFile "/a/.sigtidy.toml".toList "]".toList p) "/a".toList
      = find (oneFile "/a/.sigtidy.toml".toList "]".toList) "/a".toList := by
  have hcandidates : candidates "/a".toList = ["/a/.sigtidy.json".toList] ++
      "/a/.sigtidy.toml".toList :: ["/.sigtidy.json".toList, "/.sigtidy.toml".toList] := by
    decide
  have hrefused : ofText (.ofPath "/a/.sigtidy.toml".toList) "]".toList
      = .error (.configuration "Failed to parse rule set TOML: syntax".toList none) := by
    rfl
  obtain ⟨-, hnearest, -⟩ := find_nearest (oneFile "/a/.sigtidy.toml".toList "]".toList) "/a".toList
  obtain ⟨houtcome, hagree⟩ := hnearest _ _ _ hcandidates (by decide) (by decide)
  refine ⟨hcandidates, ?_, hagree _ (by decide)⟩
  have hfile : oneFile "/a/.sigtidy.toml".toList "]".toList "/a/.sigtidy.toml".toList
      = .ok "]".toList := by
    rfl
  generalize find _ "/a".toList = result at houtcome ⊢
  cases houtcome with
  | unreadable hread =>
    rw [hfile] at hread
    cases hread
  | rules hread hrules =>
    rw [hfile] at hread
    cases hread
    rw [hrefused] at hrules
    cases hrules
  | refused hread hmessage =>
    rw [hfile] at hread
    cases hread
    rw [hrefused] at hmessage
    cases hmessage
    rfl

end RuleSet

end TypeSignature
