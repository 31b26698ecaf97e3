/-
**Texts joined around a separator.**

Several identities of a program are one text made of two parts with a separating character
between them.  Such a text can be read back when the first part does not hold the separator, and
it is ambiguous exactly when one first part continues the other past a separator.  This module
says both, for lists and for strings.

Main definitions:

* `Cut.first` — the two parts of a list around the first occurrence of a separator;
* `Cut.join` — two strings with a separating character between them;
* `Cut.segments` — a string split at every occurrence of a separator;
* `Cut.startsWith` — the prefix test on strings.

Main results:

* `Cut.append_cons_eq_iff` — when two joined lists are equal;
* `Cut.first_append_cons`, `Cut.join_inj` — a part without the separator can be read back;
* `Cut.join_collides_iff` — **two different first parts collide for some second parts exactly when
  one continues the other past a separator**;
* `Cut.segments_join`, `Cut.segments_of_not_mem` — the segments of joined texts.
-/

import Mathlib.Data.List.Basic
import Mathlib.Data.String.Basic
import Mathlib.Tactic.Common

set_option autoImplicit false

namespace Cut

variable {α : Type*}

/-! ### Lists -/

/-- The parts before and after the first occurrence of `c`. -/
def first [DecidableEq α] (c : α) : List α → Option (List α × List α)
  | [] => none
  | x :: l => if x = c then some ([], l) else (first c l).map fun p => (x :: p.1, p.2)

theorem first_append_cons [DecidableEq α] {c : α} {a : List α} (b : List α) (ha : c ∉ a) :
    first c (a ++ c :: b) = some (a, b) := by
  induction a with
  | nil => simp [first]
  | cons x a ih =>
      have hx : x ≠ c := fun h => ha (h ▸ List.mem_cons_self)
      have ha' : c ∉ a := fun h => ha (List.mem_cons_of_mem x h)
      simp [first, hx, ih ha']

/-- **When two joined lists are equal**: the parts agree, or one first part continues the other
past a separator and the second parts make up for it. -/
theorem append_cons_eq_iff {c : α} {a a' b b' : List α} :
    a ++ c :: b = a' ++ c :: b' ↔
      (a = a' ∧ b = b') ∨ (∃ r, a' = a ++ c :: r ∧ b = r ++ c :: b') ∨
        ∃ r, a = a' ++ c :: r ∧ b' = r ++ c :: b := by
  constructor
  · intro h
    rcases List.append_eq_append_iff.1 h with ⟨r, rfl, hr⟩ | ⟨r, rfl, hr⟩
    · cases r with
      | nil => exact Or.inl ⟨by simp, by simpa using hr⟩
      | cons x r =>
          obtain ⟨rfl, rfl⟩ : c = x ∧ b = r ++ c :: b' := by simpa using hr
          exact Or.inr (Or.inl ⟨r, rfl, rfl⟩)
    · cases r with
      | nil => exact Or.inl ⟨by simp, by simpa using hr.symm⟩
      | cons x r =>
          obtain ⟨rfl, rfl⟩ : c = x ∧ b' = r ++ c :: b := by simpa using hr
          exact Or.inr (Or.inr ⟨r, rfl, rfl⟩)
  · rintro (⟨rfl, rfl⟩ | ⟨r, rfl, rfl⟩ | ⟨r, rfl, rfl⟩) <;> simp

/-- First parts without the separator are determined by the joined list. -/
theorem append_cons_inj {c : α} {a a' b b' : List α} (ha : c ∉ a) (ha' : c ∉ a') :
    a ++ c :: b = a' ++ c :: b' ↔ a = a' ∧ b = b' := by
  rw [append_cons_eq_iff]
  refine ⟨?_, Or.inl⟩
  rintro (h | ⟨r, rfl, -⟩ | ⟨r, rfl, -⟩)
  · exact h
  · simp at ha'
  · simp at ha

/-! ### Strings -/

/-- The prefix test. -/
def startsWith (s p : String) : Bool := p.toList.isPrefixOf s.toList

theorem startsWith_iff {s p : String} : startsWith s p = true ↔ ∃ r, s = p ++ r := by
  rw [startsWith, List.isPrefixOf_iff_prefix]
  constructor
  · rintro ⟨r, hr⟩
    exact ⟨String.ofList r, String.toList_inj.1 (by simp [hr])⟩
  · rintro ⟨r, rfl⟩
    exact ⟨r.toList, by simp⟩

@[simp] theorem startsWith_append (p r : String) : startsWith (p ++ r) p = true :=
  startsWith_iff.2 ⟨r, rfl⟩

/-- Two texts with the character `c` between them. -/
def join (c : Char) (a b : String) : String := a ++ String.ofList [c] ++ b

theorem toList_join (c : Char) (a b : String) :
    (join c a b).toList = a.toList ++ c :: b.toList := by
  simp [join]

theorem join_eq_iff {c : Char} {a a' b b' : String} :
    join c a b = join c a' b' ↔ a.toList ++ c :: b.toList = a'.toList ++ c :: b'.toList := by
  rw [← String.toList_inj, toList_join, toList_join]

/-- First parts without the separator are determined by the joined text. -/
theorem join_inj {c : Char} {a a' b b' : String} (ha : c ∉ a.toList) (ha' : c ∉ a'.toList) :
    join c a b = join c a' b' ↔ a = a' ∧ b = b' := by
  rw [join_eq_iff, append_cons_inj ha ha', String.toList_inj, String.toList_inj]

/-- `continues c a a'` says that `a'` is `a`, then the separator, then some more text. -/
def continues (c : Char) (a a' : String) : Bool := startsWith a' (a ++ String.ofList [c])

theorem continues_iff {c : Char} {a a' : String} :
    continues c a a' = true ↔ ∃ r, a' = join c a r := startsWith_iff

theorem join_join (c : Char) (a b d : String) : join c (join c a b) d = join c a (join c b d) := by
  rw [← String.toList_inj]
  simp [toList_join]

/-- **Two different first parts collide** for some second parts exactly when one of them continues
the other past a separator. -/
theorem join_collides_iff {c : Char} {a a' : String} (hne : a ≠ a') :
    (∃ b b', join c a b = join c a' b') ↔ continues c a a' = true ∨ continues c a' a = true := by
  constructor
  · rintro ⟨b, b', h⟩
    rcases append_cons_eq_iff.1 (join_eq_iff.1 h) with ⟨ha, -⟩ | ⟨r, hr, -⟩ | ⟨r, hr, -⟩
    · exact absurd (String.toList_inj.1 ha) hne
    · exact Or.inl (continues_iff.2 ⟨String.ofList r, String.toList_inj.1
          (by simp [toList_join, hr])⟩)
    · exact Or.inr (continues_iff.2 ⟨String.ofList r, String.toList_inj.1
          (by simp [toList_join, hr])⟩)
  · rintro (h | h)
    · obtain ⟨r, rfl⟩ := continues_iff.1 h
      exact ⟨join c r "", "", (join_join c a r "").symm⟩
    · obtain ⟨r, rfl⟩ := continues_iff.1 h
      exact ⟨"", join c r "", join_join c a' r ""⟩

/-- The text split at every occurrence of `c`. -/
def segments (c : Char) (s : String) : List String := (s.toList.splitOn c).map String.ofList

/-- The segments of two joined texts. -/
theorem segments_join (c : Char) (a b : String) :
    segments c (join c a b) = segments c a ++ segments c b := by
  rw [segments, toList_join, List.splitOn_append_cons_self, List.map_append]
  rfl

/-- A text without the separator is its only segment. -/
theorem segments_of_not_mem {c : Char} {a : String} (ha : c ∉ a.toList) : segments c a = [a] := by
  rw [segments, List.splitOn_eq_singleton ha]
  simp

end Cut
