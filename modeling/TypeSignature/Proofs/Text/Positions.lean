import Mathlib.Data.List.Infix
import TypeSignature.Text.Basic

/-!
# Positions — places in a text, counted in bytes

A text can be cut at a byte position only where a character ends.  `find?` gives the position at
which another text occurs first; the text can be cut there and behind the occurrence.  Two cuts make
a slice, and `findLast?` looks for a character from the end.
-/

namespace TypeSignature.Text

/-- The text in front of a byte position and the text behind it; there is none when the position
lies behind the text or inside of a character. -/
def cutAt? : Text → (position : Nat) → Option (Text × Text)
  | [], n => if n = 0 then some ([], []) else none
  | c :: s, n =>
    if n = 0 then some ([], c :: s)
    else if c.utf8Size ≤ n then (cutAt? s (n - c.utf8Size)).map fun (u, v) => (c :: u, v)
    else none

/-- The byte position at which `sought` occurs first. -/
def find? : Text → (sought : Text) → Option Nat
  | [], sought => if sought = [] then some 0 else none
  | c :: s, sought =>
    if sought <+: c :: s then some 0 else (find? s sought).map (c.utf8Size + ·)

/-- The text can be cut at the byte position. -/
def IsBoundary (s : Text) (n : Nat) : Prop := ∃ u v, s = u ++ v ∧ byteSize u = n

/-- The part of the text between two byte positions; there is none unless the text can be cut at
both and the first is not behind the second. -/
def slice? (s : Text) (start stop : Nat) : Option Text := do
  let (front, _) ← s.cutAt? stop
  let (_, part) ← front.cutAt? start
  return part

/-- The characters of the text, each with the byte position at which it begins. -/
def indices : Text → List (Nat × Char)
  | [] => []
  | c :: s => (0, c) :: (indices s).map fun (n, d) => (c.utf8Size + n, d)

/-- The byte position at which a character occurs last. -/
def findLast? (s : Text) (c : Char) : Option Nat :=
  ((indices s).reverse.find? fun (_, d) => d == c).map Prod.fst

variable {s t u v sought rest : Text} {c : Char} {n start stop : Nat}

/-! ## 1. Cutting -/

theorem cutAt?_zero (s : Text) : s.cutAt? 0 = some ([], s) := by
  cases s <;> rfl

theorem cutAt?_byteSize (u v : Text) : (u ++ v).cutAt? (byteSize u) = some (u, v) := by
  induction u with
  | nil => exact cutAt?_zero v
  | cons c u ih =>
    have hpos := c.utf8Size_pos
    rw [List.cons_append, byteSize_cons, cutAt?, if_neg (by omega), if_pos (by omega),
      Nat.add_sub_cancel_left, ih]
    rfl

/-- A text is cut into two texts that make it up. -/
theorem cutAt?_eq_some_iff : s.cutAt? n = some (u, v) ↔ s = u ++ v ∧ byteSize u = n := by
  constructor
  · intro h
    induction s generalizing n u with
    | nil =>
      rw [cutAt?] at h
      split at h
      · rename_i hn
        cases h
        exact ⟨rfl, hn.symm⟩
      · cases h
    | cons c s ih =>
      rw [cutAt?] at h
      split at h
      · rename_i hn
        cases h
        exact ⟨rfl, hn.symm⟩
      · split at h
        · rename_i hle
          obtain ⟨⟨u, v⟩, hrest, hpair⟩ := Option.map_eq_some_iff.mp h
          cases hpair
          obtain ⟨rfl, hsize⟩ := ih hrest
          refine ⟨rfl, ?_⟩
          rw [byteSize_cons, hsize]
          omega
        · cases h
  · rintro ⟨rfl, rfl⟩
    exact cutAt?_byteSize u v

theorem isBoundary_iff : s.IsBoundary n ↔ (s.cutAt? n).isSome = true := by
  simp only [IsBoundary, Option.isSome_iff_exists, Prod.exists, cutAt?_eq_some_iff]

instance (s : Text) (n : Nat) : Decidable (s.IsBoundary n) := decidable_of_iff' _ isBoundary_iff

example : ¬ IsBoundary "é".toList 1 := by decide

/-! ## 2. Finding -/

/-- The text `u` with `sought` behind it holds `sought` only there. -/
def OnlyAtEnd (sought u : Text) : Prop :=
  ∀ before behind, u ++ sought = before ++ (sought ++ behind) → behind = []

theorem onlyAtEnd_nil (sought : Text) : OnlyAtEnd sought [] := by
  intro before behind h
  have hlength := congrArg List.length h
  simp only [List.nil_append, List.length_append] at hlength
  exact List.length_eq_zero_iff.mp (by omega)

theorem OnlyAtEnd.tail {c : Char} (h : OnlyAtEnd sought (c :: u)) : OnlyAtEnd sought u := by
  intro before behind hu
  apply h (c :: before) behind
  rw [List.cons_append, List.cons_append, hu]

/-- What comes after `u` does not begin with `sought` before the end. -/
theorem OnlyAtEnd.eq_nil (h : OnlyAtEnd sought (u ++ v))
    (hbegins : sought <+: v ++ (sought ++ rest)) : v = [] := by
  -- an occurrence at the beginning is short enough to lie in the part with `sought` at its end
  have hlonger : sought.length ≤ (v ++ sought).length := by
    rw [List.length_append]
    omega
  have hpart : v ++ sought <+: v ++ (sought ++ rest) := ⟨rest, List.append_assoc v sought rest⟩
  obtain ⟨behind, hbehind⟩ := List.prefix_of_prefix_length_le hbegins hpart hlonger
  have hnil : behind = [] := h u behind (by rw [List.append_assoc, hbehind])
  have hlength := congrArg List.length hbehind
  rw [hnil, List.length_append, List.length_append, List.length_nil] at hlength
  exact List.length_eq_zero_iff.mp (by omega)

theorem find?_of_absent (h : ¬ sought <:+: s) : s.find? sought = none := by
  induction s with
  | nil =>
    rw [find?, if_neg]
    rintro rfl
    exact h List.infix_rfl
  | cons c s ih =>
    have hhead : ¬ sought <+: c :: s := fun hpre => h hpre.isInfix
    have htail : ¬ sought <:+: s := fun hin => h (List.infix_cons hin)
    rw [find?, if_neg hhead, ih htail]
    rfl

theorem OnlyAtEnd.find?_eq (h : OnlyAtEnd sought u) (rest : Text) :
    (u ++ (sought ++ rest)).find? sought = some (byteSize u) := by
  induction u with
  | nil =>
    have hpre : sought <+: sought ++ rest := List.prefix_append sought rest
    rw [List.nil_append]
    cases hs : sought ++ rest with
    | nil => rw [find?, if_pos (List.append_eq_nil_iff.mp hs).1]; rfl
    | cons c s => rw [find?, if_pos (hs ▸ hpre)]; rfl
  | cons c u ih =>
    have hlater : ¬ sought <+: c :: (u ++ (sought ++ rest)) := by
      intro hbegins
      have hnil : c :: u = [] := OnlyAtEnd.eq_nil (u := []) h hbegins
      cases hnil
    rw [List.cons_append, find?, if_neg hlater, ih h.tail]
    rfl

theorem onlyAtEnd_singleton (h : c ∉ u) : OnlyAtEnd [c] u := by
  intro before behind hu
  rcases List.eq_nil_or_concat behind with hnil | ⟨behind, d, rfl⟩
  · exact hnil
  · have hends : u ++ [c] = (before ++ c :: behind) ++ [d] := by simpa using hu
    obtain rfl : u = before ++ c :: behind := List.append_inj_left' hends rfl
    simp at h

theorem find?_char_of_not_mem (h : c ∉ s) : s.find? [c] = none := by
  apply find?_of_absent
  rwa [List.singleton_infix_iff]

/-! ## 3. Slices -/

theorem slice?_eq_some_iff : s.slice? start stop = some t ↔
    ∃ u v, s = u ++ (t ++ v) ∧ byteSize u = start ∧ byteSize u + byteSize t = stop := by
  unfold slice?
  constructor
  · intro h
    obtain ⟨⟨front, v⟩, hfront, h⟩ := Option.bind_eq_some_iff.mp h
    obtain ⟨⟨u, part⟩, hpart, h⟩ := Option.bind_eq_some_iff.mp h
    obtain rfl : part = t := Option.some.inj h
    obtain ⟨rfl, hstop⟩ := cutAt?_eq_some_iff.mp hfront
    obtain ⟨rfl, hstart⟩ := cutAt?_eq_some_iff.mp hpart
    rw [byteSize_append] at hstop
    exact ⟨u, v, List.append_assoc .., hstart, hstop⟩
  · rintro ⟨u, v, rfl, rfl, rfl⟩
    have hfront : (u ++ (t ++ v)).cutAt? (byteSize u + byteSize t) = some (u ++ t, v) := by
      rw [cutAt?_eq_some_iff]
      exact ⟨(List.append_assoc ..).symm, byteSize_append ..⟩
    rw [hfront]
    simp only [Option.bind_eq_bind, Option.bind_some, cutAt?_byteSize]
    rfl

theorem slice?_append (u t v : Text) :
    (u ++ (t ++ v)).slice? (byteSize u) (byteSize u + byteSize t) = some t :=
  slice?_eq_some_iff.mpr ⟨u, v, rfl, rfl, rfl⟩

theorem eq_nil_of_byteSize_le (h : byteSize (u ++ v) ≤ byteSize u) : v = [] := by
  cases v with
  | nil => rfl
  | cons c v =>
    have hpos := c.utf8Size_pos
    rw [byteSize_append, byteSize_cons] at h
    omega

/-- There is a slice exactly between boundaries that are in order. -/
theorem isSome_slice?_iff : (s.slice? start stop).isSome = true ↔
    start ≤ stop ∧ stop ≤ byteSize s ∧ s.IsBoundary start ∧ s.IsBoundary stop := by
  rw [Option.isSome_iff_exists]
  constructor
  · rintro ⟨t, h⟩
    obtain ⟨u, v, rfl, rfl, rfl⟩ := slice?_eq_some_iff.mp h
    have hcut : u ++ (t ++ v) = u ++ t ++ v := (List.append_assoc ..).symm
    refine ⟨by omega, ?_, ⟨u, t ++ v, rfl, rfl⟩, ⟨u ++ t, v, hcut, byteSize_append ..⟩⟩
    rw [byteSize_append, byteSize_append]
    omega
  · rintro ⟨hle, -, ⟨u, v, rfl, rfl⟩, ⟨front, behind, heq, rfl⟩⟩
    -- the text in front of the later boundary begins with the text in front of the earlier one
    have hfront : ∃ t, front = u ++ t := by
      rcases List.append_eq_append_iff.mp heq with ⟨t, hfront, -⟩ | ⟨t, rfl, -⟩
      · exact ⟨t, hfront⟩
      · rw [eq_nil_of_byteSize_le hle]
        exact ⟨[], by simp⟩
    obtain ⟨t, rfl⟩ := hfront
    refine ⟨t, ?_⟩
    rw [heq, List.append_assoc, byteSize_append]
    exact slice?_append u t behind

/-! ## 4. From the end -/

theorem indices_concat (s : Text) (c : Char) :
    indices (s ++ [c]) = indices s ++ [(byteSize s, c)] := by
  induction s with
  | nil => rfl
  | cons d s ih => rw [List.cons_append, indices, indices, ih, List.map_append]; rfl

theorem findLast?_concat (s : Text) (c d : Char) :
    (s ++ [d]).findLast? c = if d = c then some (byteSize s) else s.findLast? c := by
  rw [findLast?, indices_concat, List.reverse_concat]
  by_cases h : d = c
  · rw [if_pos h, List.find?_cons_of_pos (by simpa using h)]
    rfl
  · rw [if_neg h, List.find?_cons_of_neg (by simpa using h)]
    rfl

theorem findLast?_of_not_mem (h : c ∉ s) : s.findLast? c = none := by
  induction s using List.reverseRecOn with
  | nil => rfl
  | append_singleton s d ih =>
    simp only [List.mem_append, List.mem_singleton, not_or] at h
    rw [findLast?_concat, if_neg (Ne.symm h.2), ih h.1]

theorem findLast?_eq (u : Text) (h : c ∉ rest) :
    (u ++ c :: rest).findLast? c = some (byteSize u) := by
  induction rest using List.reverseRecOn with
  | nil => rw [findLast?_concat, if_pos rfl]
  | append_singleton rest d ih =>
    simp only [List.mem_append, List.mem_singleton, not_or] at h
    have hlast : u ++ c :: (rest ++ [d]) = (u ++ c :: rest) ++ [d] := by simp
    rw [hlast, findLast?_concat, if_neg (Ne.symm h.2), ih h.1]

end TypeSignature.Text
