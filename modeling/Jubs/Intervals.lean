/-
**The interval of a recurrence.**

`every("5 minutes")` reads a count and a unit out of a text.  The unit is looked up in an object,
which answers for the words it inherits too, and the count and the product are doubles.

Main definitions:

* `Jubs.intervalForm`, `Jubs.unitValue` — the two parts of the text, and what the table answers;
* `Jubs.intervalMs`, `Jubs.every` — the milliseconds of an interval, and the schedule;
* `Jubs.Spelled` — a text is a count and a word;
* `Jubs.IntervalLaw` — what is owed for a text;
* `Jubs.Told` — the texts it is paid for.

Main results:

* `Jubs.intervalForm_eq_some_iff` — how a text is taken apart;
* `Jubs.intervalLaw_iff` — **for which texts what is owed is paid**;
* `Jubs.constructor_accepted` — one for which it is not.
-/

import Jubs.Binary64
import Jubs.Schedules
import Mathlib.Data.List.TakeWhile

set_option autoImplicit false

namespace Jubs

open Binary64 (Double)

/-! ### Reading an interval -/

/-- `INTERVAL_MS`. -/
def intervalTable : List (String × ℕ) :=
  [("second", 1000), ("seconds", 1000), ("minute", 60000), ("minutes", 60000), ("hour", 3600000),
    ("hours", 3600000), ("day", 86400000), ("days", 86400000)]

/-- `INTERVAL_FORM`, and the two parts it matches: digits, a space, and small letters. -/
def intervalForm (interval : List Char) : Option (List Char × List Char) :=
  match interval.dropWhile Char.isDigit with
  | ' ' :: word =>
      if interval.takeWhile Char.isDigit ≠ [] ∧ word ≠ [] ∧ word.all Char.isLower then
        some (interval.takeWhile Char.isDigit, word)
      else none
  | _ => none

/-- `INTERVAL_MS[word]`. -/
def unitValue (word : String) : Value :=
  (Value.obj (intervalTable.map fun p => (p.1, .num (.finite (p.2 : ℕ))))).get word

/-- A value of the table, or one that it inherits, as a factor of a product. -/
def factor : Value → Double
  | .num (.finite d) => .ofRat d.toRat
  | _ => .nan

/-- What `every` refuses a text with. -/
def intervalError (interval : String) : Thrown :=
  plainError ("jubs: every(\"" ++ interval ++ "\") is not an interval — give a whole count " ++
    "above zero and a unit of second, minute, hour or day, as in every(\"5 minutes\")") none

/-- `count <= 0`, for a count that digits were read as. -/
def isZero : Double → Bool
  | .finite x => x ≤ 0
  | _ => false

/-- `intervalMs(interval)`. -/
def intervalMs (interval : String) : Except Thrown Double :=
  match intervalForm interval.toList with
  | none => .error (intervalError interval)
  | some (digits, word) =>
      let unitMs := unitValue (String.ofList word)
      let count := Double.ofRat (Nat.ofDigitChars 10 digits 0 : ℕ)
      if unitMs.isUndefined || isZero count then .error (intervalError interval)
      else .ok (count.mul (factor unitMs))

/-- The options of `every`.  The type takes no timezone; what is kept of one is that it is there. -/
structure IntervalOptions where
  timezone : Bool
  data : Value

/-- The schedule `every` gives. -/
structure IntervalSchedule where
  everyMs : Double
  data : Value

/-- `EVERY_TIMEZONE_FIX`. -/
def everyTimezoneFix : String :=
  "jubs: every() takes no timezone — an interval recurrence has no time of day to shift, so " ++
    "write dailyAt, weeklyOn, monthlyOn or cron when the time zone matters"

/-- `every(interval, options)`. -/
def every (interval : String) (options : IntervalOptions) : Except Thrown IntervalSchedule := do
  if options.timezone then throw (plainError everyTimezoneFix none)
  let everyMs ← intervalMs interval
  return ⟨everyMs, options.data⟩

/-! ### What is owed -/

/-- A text is a count, a space and a word. -/
def Spelled (interval : String) (count : ℕ) (word : String) : Prop :=
  ∃ digits : List Char, interval.toList = digits ++ ' ' :: word.toList ∧ digits ≠ [] ∧
    (∀ c ∈ digits, c.isDigit = true) ∧ Nat.ofDigitChars 10 digits 0 = count

/-- **What is owed for a text**: it is accepted exactly when it is a count above zero and a unit,
and then the interval is their product. -/
structure IntervalLaw (interval : String) : Prop where
  accepts : ∀ data, (∃ schedule, every interval ⟨false, data⟩ = .ok schedule) ↔
    ∃ count unit, Spelled interval count unit ∧ 0 < count ∧ unit ∈ intervalTable.map Prod.fst
  exact : ∀ data schedule, every interval ⟨false, data⟩ = .ok schedule →
    ∃ count unit unitMs, Spelled interval count unit ∧ (unit, unitMs) ∈ intervalTable ∧
      schedule.everyMs = .finite (count * unitMs : ℕ)

/-- The texts it is paid for: the word is not one the table inherits, and the product is a
double. -/
structure Told (interval : String) : Prop where
  own : ∀ count, 0 < count → ¬Spelled interval count "constructor"
  double : ∀ count unit unitMs, Spelled interval count unit → 0 < count →
    (unit, unitMs) ∈ intervalTable → Double.Exact (count * unitMs : ℕ)

/-! ### The parts of a text -/

/-- **How a text is taken apart.** -/
theorem intervalForm_eq_some_iff {interval digits word : List Char} :
    intervalForm interval = some (digits, word) ↔ interval = digits ++ ' ' :: word ∧ digits ≠ [] ∧
      (∀ c ∈ digits, c.isDigit = true) ∧ word ≠ [] ∧ ∀ c ∈ word, c.isLower = true := by
  constructor
  · intro h
    unfold intervalForm at h
    split at h
    · rename_i rest hrest
      split_ifs at h with hparts
      obtain ⟨rfl, rfl⟩ := Prod.mk.inj (Option.some.inj h)
      refine ⟨?_, hparts.1, ?_, hparts.2.1, List.all_eq_true.1 hparts.2.2⟩
      · rw [← hrest, List.takeWhile_append_dropWhile]
      · intro c hc
        exact List.mem_takeWhile_imp hc
    · cases h
  · rintro ⟨rfl, hdigits, hall, hword, hlower⟩
    have hspace : Char.isDigit ' ' = false := by decide
    have htake : (digits ++ ' ' :: word).takeWhile Char.isDigit = digits := by
      rw [List.takeWhile_append_of_pos hall, List.takeWhile_cons, hspace]
      simp
    have hdrop : (digits ++ ' ' :: word).dropWhile Char.isDigit = ' ' :: word := by
      rw [List.dropWhile_append_of_pos hall, List.dropWhile_cons, hspace]
      rfl
    rw [intervalForm, hdrop, htake]
    exact if_pos ⟨hdigits, hword, List.all_eq_true.2 hlower⟩

theorem unitValue_of_mem {unit : String} {unitMs : ℕ} (h : (unit, unitMs) ∈ intervalTable) :
    unitValue unit = .num (.finite (unitMs : ℕ)) := by
  simp only [intervalTable, List.mem_cons, Prod.mk.injEq, List.not_mem_nil, or_false] at h
  rcases h with ⟨rfl, rfl⟩ | ⟨rfl, rfl⟩ | ⟨rfl, rfl⟩ | ⟨rfl, rfl⟩ | ⟨rfl, rfl⟩ | ⟨rfl,
    rfl⟩ | ⟨rfl, rfl⟩ |
    ⟨rfl, rfl⟩ <;> rfl

theorem unitMs_bounds {unit : String} {unitMs : ℕ} (h : (unit, unitMs) ∈ intervalTable) :
    0 < unitMs ∧ unitMs ≤ 2 ^ 53 := by
  have hall : ∀ p ∈ intervalTable, 0 < p.2 ∧ p.2 ≤ 2 ^ 53 := by decide
  exact hall _ h

theorem unitMs_unique {unit : String} {unitMs unitMs' : ℕ} (h : (unit, unitMs) ∈ intervalTable)
    (h' : (unit, unitMs') ∈ intervalTable) : unitMs = unitMs' := by
  have heq := (unitValue_of_mem h).symm.trans (unitValue_of_mem h')
  exact Decimal.natCast_injective (Number.finite.inj (Value.num.inj heq))

theorem unit_lower {unit : String} (h : unit ∈ intervalTable.map Prod.fst) :
    unit.toList ≠ [] ∧ ∀ c ∈ unit.toList, c.isLower = true := by
  have hall : ∀ unit ∈ intervalTable.map Prod.fst,
      unit.toList ≠ [] ∧ unit.toList.all Char.isLower = true := by decide
  obtain ⟨hne, hlower⟩ := hall unit h
  exact ⟨hne, List.all_eq_true.1 hlower⟩

/-- Of the words in small letters that are no unit, the table inherits one. -/
theorem unitValue_isUndefined_iff {word : String} (hlower : ∀ c ∈ word.toList, c.isLower = true) :
    (unitValue word).isUndefined = false ↔
      word ∈ intervalTable.map Prod.fst ∨ word = "constructor" := by
  by_cases hmem : word ∈ intervalTable.map Prod.fst
  · obtain ⟨⟨unit, unitMs⟩, hunit, rfl⟩ := List.mem_map.1 hmem
    rw [unitValue_of_mem hunit]
    exact iff_of_true rfl (Or.inl hmem)
  · have hnone : (intervalTable.map fun p => (p.1, Value.num (.finite (p.2 : ℕ)))).lookup word =
        none := by
      rw [List.lookup_eq_none_iff]
      intro p hp
      obtain ⟨q, hq, rfl⟩ := List.mem_map.1 hp
      rw [bne_iff_ne]
      rintro rfl
      exact hmem (List.mem_map_of_mem hq)
    have hvalue : unitValue word = Value.inherited word := by
      rw [unitValue, Value.get, hnone]
      rfl
    have hproto : word ≠ "__proto__" := by
      rintro rfl
      have := hlower '_' (by decide)
      cases this
    rw [hvalue, Value.inherited, if_neg hproto]
    by_cases hinherited : word ∈ Value.inheritedMethods
    · rw [if_pos hinherited]
      have hone : ∀ w ∈ Value.inheritedMethods, w.toList.all Char.isLower = true →
          w = "constructor" := by decide
      exact iff_of_true rfl (Or.inr (hone word hinherited (List.all_eq_true.2 hlower)))
    · rw [if_neg hinherited]
      refine iff_of_false (by intro h; cases h) ?_
      rintro (h | rfl)
      · exact hmem h
      · exact hinherited (by decide)

/-- Digits are zero as a double exactly when they are zero. -/
theorem isZero_ofRat (n : ℕ) : isZero (Double.ofRat n) = decide (n = 0) := by
  unfold Double.ofRat
  split_ifs with hlt
  · rcases Nat.lt_or_ge (2 ^ 53) n with hn | hn
    · have hlarge : (2 : ℚ) ^ 53 ≤ n := by exact_mod_cast hn.le
      have hpos : ¬Binary64.round n ≤ 0 := by
        have := Binary64.le_round hlarge
        exact not_le.2 (lt_of_lt_of_le (by norm_num) this)
      rw [isZero, decide_eq_false hpos, decide_eq_false (by omega)]
    · rw [isZero, Binary64.round_natCast hn]
      simp
  · have hne : n ≠ 0 := by
      rintro rfl
      refine hlt ?_
      rw [Binary64.round_natCast (by norm_num)]
      simpa using Double.lt_limit (Nat.zero_le _)
    rw [decide_eq_false hne]
    rfl

/-- **What `every` accepts**: a count above zero, and a word the table answers for. -/
theorem every_eq_ok_iff {interval : String} {data : Value} {schedule : IntervalSchedule} :
    every interval ⟨false, data⟩ = .ok schedule ↔ ∃ count word, Spelled interval count word ∧
      word.toList ≠ [] ∧ (∀ c ∈ word.toList, c.isLower = true) ∧ 0 < count ∧
      (unitValue word).isUndefined = false ∧
      schedule = ⟨(Double.ofRat count).mul (factor (unitValue word)), data⟩ := by
  have hevery : every interval ⟨false, data⟩ =
      (intervalMs interval >>= fun everyMs => .ok ⟨everyMs, data⟩) := rfl
  rw [hevery, bind_eq_ok]
  constructor
  · rintro ⟨ms, hms, hschedule⟩
    unfold intervalMs at hms
    cases hform : intervalForm interval.toList with
    | none =>
        rw [hform] at hms
        cases hms
    | some parts =>
        obtain ⟨digits, word⟩ := parts
        obtain ⟨hsplit, hdigits, hall, hword, hlower⟩ := intervalForm_eq_some_iff.1 hform
        simp only [hform, isZero_ofRat] at hms
        split_ifs at hms with hrefused
        rw [Bool.or_eq_true, not_or, Bool.not_eq_true, decide_eq_true_iff] at hrefused
        refine ⟨_, String.ofList word, ⟨digits, ?_, hdigits, hall, rfl⟩, ?_, ?_,
          Nat.pos_of_ne_zero hrefused.2, hrefused.1, ?_⟩
        · rw [String.toList_ofList]
          exact hsplit
        · rwa [String.toList_ofList]
        · rwa [String.toList_ofList]
        · rw [← Except.ok.inj hschedule, ← Except.ok.inj hms]
  · rintro ⟨count, word, ⟨digits, hsplit, hdigits, hall, rfl⟩, hword, hlower, hcount, hdefined, rfl⟩
    refine ⟨_, ?_, rfl⟩
    have hform := intervalForm_eq_some_iff.2 ⟨hsplit, hdigits, hall, hword, hlower⟩
    rw [intervalMs, hform]
    simp only [String.ofList_toList, hdefined, isZero_ofRat, Bool.false_or, decide_eq_true_iff,
      hcount.ne', if_false]

/-- A text is taken apart in one way. -/
theorem Spelled.unique {interval : String} {count count' : ℕ} {word word' : String}
    (h : Spelled interval count word) (h' : Spelled interval count' word')
    (hword : word.toList ≠ [])
    (hlower : ∀ c ∈ word.toList, c.isLower = true) (hword' : word'.toList ≠ [])
    (hlower' : ∀ c ∈ word'.toList, c.isLower = true) : count = count' ∧ word = word' := by
  obtain ⟨digits, hsplit, hdigits, hall, rfl⟩ := h
  obtain ⟨digits', hsplit', hdigits', hall', rfl⟩ := h'
  have hform := intervalForm_eq_some_iff.2 ⟨hsplit, hdigits, hall, hword, hlower⟩
  have hform' := intervalForm_eq_some_iff.2 ⟨hsplit', hdigits', hall', hword', hlower'⟩
  obtain ⟨rfl, htext⟩ := Prod.mk.inj (Option.some.inj (hform.symm.trans hform'))
  exact ⟨rfl, String.toList_inj.1 htext⟩

/-! ### For which texts it is paid -/

/-- **For which texts what is owed is paid.** -/
theorem intervalLaw_iff {interval : String} : IntervalLaw interval ↔ Told interval := by
  have hall : "constructor".toList.all Char.isLower = true := by decide
  have hconstructor : "constructor".toList ≠ [] ∧ ∀ c ∈ "constructor".toList, c.isLower = true :=
    ⟨by decide, List.all_eq_true.1 hall⟩
  constructor
  · intro hlaw
    constructor
    · intro count hcount hspelled
      have hok : every interval ⟨false, .undefined⟩ = .ok _ := every_eq_ok_iff.2
        ⟨count, "constructor", hspelled, hconstructor.1, hconstructor.2, hcount, rfl, rfl⟩
      obtain ⟨count', unit, hspelled', -, hunit⟩ := (hlaw.accepts .undefined).1 ⟨_, hok⟩
      obtain ⟨-, rfl⟩ := hspelled.unique hspelled' hconstructor.1 hconstructor.2
        (unit_lower hunit).1
        (unit_lower hunit).2
      exact absurd hunit (by decide)
    · intro count unit unitMs hspelled hcount hunit
      have hmem : unit ∈ intervalTable.map Prod.fst := List.mem_map_of_mem hunit
      have hvalue := unitValue_of_mem hunit
      have hok : every interval ⟨false, .undefined⟩ = .ok _ := every_eq_ok_iff.2
        ⟨count, unit, hspelled, (unit_lower hmem).1, (unit_lower hmem).2,
          hcount, by rw [hvalue]; rfl, rfl⟩
      obtain ⟨count', unit', unitMs', hspelled', hunit', hms⟩ := hlaw.exact .undefined _ hok
      have hmem' : unit' ∈ intervalTable.map Prod.fst := List.mem_map_of_mem hunit'
      obtain ⟨rfl, rfl⟩ := hspelled.unique hspelled' (unit_lower hmem).1 (unit_lower hmem).2
        (unit_lower hmem').1 (unit_lower hmem').2
      obtain rfl := unitMs_unique hunit hunit'
      rw [hvalue, factor, Decimal.toRat_natCast] at hms
      exact (Double.mul_eq_finite_iff (unitMs_bounds hunit).2 (unitMs_bounds hunit).1).1 hms
  · intro htold
    constructor
    · intro data
      constructor
      · rintro ⟨schedule, h⟩
        obtain ⟨count, word, hspelled, -, hlower, hcount, hdefined, -⟩ := every_eq_ok_iff.1 h
        rcases (unitValue_isUndefined_iff hlower).1 hdefined with hunit | rfl
        · exact ⟨count, word, hspelled, hcount, hunit⟩
        · exact absurd hspelled (htold.own count hcount)
      · rintro ⟨count, unit, hspelled, hcount, hunit⟩
        obtain ⟨hword, hlower⟩ := unit_lower hunit
        exact ⟨_, every_eq_ok_iff.2 ⟨count, unit, hspelled, hword, hlower, hcount,
          (unitValue_isUndefined_iff hlower).2 (Or.inl hunit), rfl⟩⟩
    · intro data schedule h
      obtain ⟨count, word, hspelled, -, hlower, hcount, hdefined, rfl⟩ := every_eq_ok_iff.1 h
      rcases (unitValue_isUndefined_iff hlower).1 hdefined with hunit | rfl
      · obtain ⟨⟨unit, unitMs⟩, hentry, rfl⟩ := List.mem_map.1 hunit
        have hunit : (unit, unitMs) ∈ intervalTable := hentry
        refine ⟨count, unit, unitMs, hspelled, hunit, ?_⟩
        rw [unitValue_of_mem hunit, factor, Decimal.toRat_natCast]
        exact (Double.mul_eq_finite_iff (unitMs_bounds hunit).2 (unitMs_bounds hunit).1).2
          (htold.double count unit unitMs hspelled hcount hunit)
      · exact absurd hspelled (htold.own count hcount)

/-- A word that is no unit is accepted, and the interval is not a number. -/
theorem constructor_accepted : every "5 constructor" ⟨false, .undefined⟩ = .ok ⟨.nan, .undefined⟩ ∧
    ¬IntervalLaw "5 constructor" := by
  have hdigit : ∀ c ∈ ['5'], c.isDigit = true := fun c hc => by
    rw [List.mem_singleton.1 hc]
    rfl
  have hspelled : Spelled "5 constructor" 5 "constructor" :=
    ⟨['5'], by decide, by decide, hdigit, rfl⟩
  have hall : "constructor".toList.all Char.isLower = true := by decide
  have hlower : ∀ c ∈ "constructor".toList, c.isLower = true := List.all_eq_true.1 hall
  have hok : every "5 constructor" ⟨false, .undefined⟩ = .ok ⟨.nan, .undefined⟩ := by
    refine every_eq_ok_iff.2 ⟨5, "constructor", hspelled, by decide, hlower, by decide, rfl, ?_⟩
    rw [show factor (unitValue "constructor") = .nan from rfl, Double.mul_nan]
  refine ⟨hok, ?_⟩
  intro hlaw
  obtain ⟨count, unit, unitMs, -, -, hms⟩ := hlaw.exact .undefined _ hok
  cases hms

end Jubs
