/-
**Recurrence patterns of five fields.**

A pattern names moments of the wall clock by five fields around spaces: the minute, the hour, the
day of the month, the month, and the day of the week, which counts from Sunday.  A field is a star
or a number here; ranges, lists and steps are left out.  Where a pattern names both kinds of day,
either will do.

Main definitions:

* `Cron.Field`, `Cron.Pattern`, `Cron.Moment` — fields, patterns, and moments of the wall clock;
* `Cron.Pattern.Fires` — the moments a pattern names;
* `Cron.Pattern.text`, `Cron.Pattern.read` — the text of a pattern, and its reader.

Main results:

* `Cron.Pattern.read_text` — **the text of a pattern reads back as that pattern**.
-/

import Jubs.Cut
import Mathlib.Data.List.Basic

set_option autoImplicit false

namespace Cron

/-- A field: a star, or a number. -/
inductive Field where
  | any
  | exactly (n : ℕ)
deriving DecidableEq

/-- A pattern. -/
structure Pattern where
  minute : Field
  hour : Field
  dayOfMonth : Field
  month : Field
  dayOfWeek : Field
deriving DecidableEq

/-- A moment of the wall clock. -/
structure Moment where
  minute : ℕ
  hour : ℕ
  dayOfMonth : ℕ
  month : ℕ
  dayOfWeek : ℕ

/-! ### The moments a pattern names -/

/-- The numbers a field admits. -/
def Field.Admits : Field → ℕ → Prop
  | .any, _ => True
  | .exactly n, m => m = n

instance : ∀ (field : Field) (m : ℕ), Decidable (field.Admits m)
  | .any, _ => inferInstanceAs (Decidable True)
  | .exactly n, m => inferInstanceAs (Decidable (m = n))

/-- The days a pattern admits: where it names both kinds of day, either will do. -/
def Pattern.AdmitsDay (p : Pattern) (m : Moment) : Prop :=
  match p.dayOfMonth, p.dayOfWeek with
  -- `0 9 1 * 1` is the first of every month, and every Monday
  | .exactly d, .exactly w => m.dayOfMonth = d ∨ m.dayOfWeek = w
  | d, w => d.Admits m.dayOfMonth ∧ w.Admits m.dayOfWeek

/-- **The moments a pattern names.** -/
def Pattern.Fires (p : Pattern) (m : Moment) : Prop :=
  p.minute.Admits m.minute ∧ p.hour.Admits m.hour ∧ p.AdmitsDay m ∧ p.month.Admits m.month

/-! ### Texts -/

/-- The text of a field. -/
def Field.text : Field → String
  | .any => "*"
  | .exactly n => toString n

/-- Reads a field. -/
def Field.read (text : String) : Option Field :=
  if text = "*" then some .any
  else if text.toList ≠ [] ∧ text.toList.all Char.isDigit then
    some (.exactly (Nat.ofDigitChars 10 text.toList 0))
  else none

/-- The text of a pattern. -/
def Pattern.text (p : Pattern) : String :=
  Cut.join ' ' p.minute.text (Cut.join ' ' p.hour.text (Cut.join ' ' p.dayOfMonth.text
    (Cut.join ' ' p.month.text p.dayOfWeek.text)))

/-- Reads a pattern. -/
def Pattern.read (text : String) : Option Pattern :=
  match (Cut.segments ' ' text).mapM Field.read with
  | some [minute, hour, dayOfMonth, month, dayOfWeek] =>
      some ⟨minute, hour, dayOfMonth, month, dayOfWeek⟩
  | _ => none

theorem toList_toString (n : ℕ) : (toString n).toList = Nat.toDigits 10 n :=
  String.toList_ofList

theorem isDigit_of_mem_toString {n : ℕ} {c : Char} (h : c ∈ (toString n).toList) :
    c.isDigit = true := by
  rw [toList_toString] at h
  exact Nat.isDigit_of_mem_toDigits (by decide) (by decide) h

theorem Field.space_not_mem_text (field : Field) : ' ' ∉ field.text.toList := by
  cases field with
  | any => decide
  | exactly n =>
      intro h
      have hdigit := isDigit_of_mem_toString h
      cases hdigit

theorem Field.read_text (field : Field) : Field.read field.text = some field := by
  cases field with
  | any => rfl
  | exactly n =>
      have hstar : toString n ≠ "*" := by
        intro h
        have hdigit := @isDigit_of_mem_toString n '*' (h ▸ List.mem_singleton.2 rfl)
        cases hdigit
      have hdigits : (toString n).toList ≠ [] ∧ (toString n).toList.all Char.isDigit = true := by
        refine ⟨?_, List.all_eq_true.2 fun c hc => isDigit_of_mem_toString hc⟩
        rw [toList_toString]
        exact Nat.toDigits_ne_nil
      rw [Field.text, Field.read, if_neg hstar, if_pos hdigits, toList_toString,
        Nat.ofDigitChars_ten_toDigits]

/-- **The text of a pattern reads back as that pattern.** -/
theorem Pattern.read_text (p : Pattern) : Pattern.read p.text = some p := by
  have hsegments : Cut.segments ' ' p.text = [p.minute.text, p.hour.text, p.dayOfMonth.text,
      p.month.text, p.dayOfWeek.text] := by
    simp only [Pattern.text, Cut.segments_join, Cut.segments_of_not_mem
      (Field.space_not_mem_text _), List.singleton_append]
  rw [Pattern.read, hsegments]
  simp [Field.read_text]

end Cron
