/-
**The time of day of a recurrence.**

`dailyAt`, `weeklyOn` and `monthlyOn` turn a time of day, and a day where they take one, into a
pattern of five fields, and `cron` takes a pattern as it is.  A time is four digits around a colon,
a weekday is looked up, and a day of the month is any number the caller passes.  The pattern is what
a scheduler reads, so it has to name the moments that the call names, and no others.

Main definitions:

* `Jubs.timeForm`, `Jubs.timeFields` — the reader of a time;
* `Jubs.assertTimezone`, `Jubs.scheduleOf` — the schedule of a recurrence, and the check of its time
  zone;
* `Jubs.dailyAt`, `Jubs.weeklyOn`, `Jubs.monthlyOn`, `Jubs.cron` — the constructors;
* `Jubs.ClockDay`, `Jubs.clockSchedule` — the three that take a time, by the days they name;
* `Jubs.clockText` — the text of a time;
* `Jubs.ClockLaw` — what a schedule by the clock promises.

Main results:

* `Jubs.timeForm_eq_some_iff` — how a time is taken apart;
* `Jubs.clockSchedule_eq_ok_iff` — when a schedule is made, and which;
* `Jubs.clock_law` — **a schedule fires at the time it names, on the days it names, and at no
  other**;
* `Jubs.clock_apart` — two schedules of one pattern name one time and the same days.
-/

import Jubs.Cron
import Jubs.Schedules

set_option autoImplicit false

namespace Jubs

/-! ### The reader of a time -/

/-- `TIME_FORM`, and the two parts it matches. -/
def timeForm : List Char → Option (List Char × List Char)
  | [a, b, ':', c, d] =>
      if ((a = '0' ∨ a = '1') ∧ b.isDigit ∨ a = '2' ∧ b ∈ ['0', '1', '2', '3']) ∧
          c ∈ ['0', '1', '2', '3', '4', '5'] ∧ d.isDigit then
        some ([a, b], [c, d])
      else none
  | _ => none

/-- What a text is refused with that is no time. -/
def timeError (time : String) : Thrown :=
  plainError ("jubs: \"" ++ time ++
    "\" is not a time — give \"HH:MM\" in 24 hours, as in dailyAt(\"09:30\")") none

/-- `timeFields(time)`: the hour and the minute. -/
def timeFields (time : String) : Except Thrown (ℕ × ℕ) :=
  match timeForm time.toList with
  | none => .error (timeError time)
  | some (hour, minute) => .ok (Nat.ofDigitChars 10 hour 0, Nat.ofDigitChars 10 minute 0)

/-! ### The schedule of a recurrence -/

/-- `ScheduleOptions`. -/
structure ScheduleOptions where
  timezone : Option String
  data : Value

/-- What a time zone is refused with. -/
def timezoneError (timezone : String) : Thrown :=
  plainError ("jubs: \"" ++ timezone ++
    "\" is not a time zone — give an IANA name, as in \"America/Sao_Paulo\"") none

section

/- Whether `new Intl.DateTimeFormat(undefined, { timeZone })` takes a time zone. -/
variable (zones : String → Bool)

/-- `assertTimezone(timezone)`. -/
def assertTimezone (timezone : String) : Except Thrown Unit :=
  if zones timezone then .ok () else .error (timezoneError timezone)

/-- `scheduleOf(recurrence, options)`.  A time zone that is empty is not checked. -/
def scheduleOf (recurrence : Recurrence) (options : ScheduleOptions) : Except Thrown Schedule := do
  match options.timezone with
  | some timezone => if timezone ≠ "" then assertTimezone zones timezone
  | none => pure ()
  return ⟨recurrence, options.timezone, options.data⟩

/-- `Weekday`. -/
inductive Weekday where
  | sunday | monday | tuesday | wednesday | thursday | friday | saturday
deriving DecidableEq

/-- `WEEKDAYS`. -/
def weekdays : Weekday → ℕ
  | .sunday => 0
  | .monday => 1
  | .tuesday => 2
  | .wednesday => 3
  | .thursday => 4
  | .friday => 5
  | .saturday => 6

/-- `dailyAt(time, options)`. -/
def dailyAt (time : String) (options : ScheduleOptions) : Except Thrown Schedule := do
  let (hour, minute) ← timeFields time
  scheduleOf zones (.pattern (toString minute ++ " " ++ toString hour ++ " * * *")) options

/-- `weeklyOn(day, time, options)`. -/
def weeklyOn (day : Weekday) (time : String) (options : ScheduleOptions) :
    Except Thrown Schedule := do
  let (hour, minute) ← timeFields time
  scheduleOf zones (.pattern (toString minute ++ " " ++ toString hour ++ " * * " ++
    toString (weekdays day))) options

/-- What a day is refused with that no month has. -/
def dayOfMonthError (dayOfMonth : Number) : Thrown :=
  plainError ("jubs: monthlyOn(" ++ Value.numberText dayOfMonth ++ ") is not a day of the month " ++
    "— give a whole day from 1 to 31, as in monthlyOn(1, \"09:00\")") none

/-- `monthlyOn(dayOfMonth, time, options)`. -/
def monthlyOn (dayOfMonth : Number) (time : String) (options : ScheduleOptions) :
    Except Thrown Schedule := do
  if !dayOfMonth.isInteger || dayOfMonth.lt 1 || Number.lt 31 dayOfMonth then
    throw (dayOfMonthError dayOfMonth)
  let (hour, minute) ← timeFields time
  scheduleOf zones (.pattern (toString minute ++ " " ++ toString hour ++ " " ++
    Value.numberText dayOfMonth ++ " * *")) options

/-- `cron(pattern, options)`. -/
def cron (pattern : String) (options : ScheduleOptions) : Except Thrown Schedule :=
  scheduleOf zones (.pattern pattern) options

/-- The days a schedule by the clock names. -/
inductive ClockDay where
  | daily
  | weekly (day : Weekday)
  | monthly (dayOfMonth : Number)

/-- The constructor that takes these days. -/
def clockSchedule : ClockDay → String → ScheduleOptions → Except Thrown Schedule
  | .daily => dailyAt zones
  | .weekly day => weeklyOn zones day
  | .monthly dayOfMonth => monthlyOn zones dayOfMonth

end

/-! ### What is promised -/

/-- Two digits. -/
def twoDigits (n : ℕ) : List Char := [(n / 10).digitChar, (n % 10).digitChar]

/-- The text of a time of day. -/
def clockText (hour minute : ℕ) : String :=
  String.ofList (twoDigits hour ++ ':' :: twoDigits minute)

/-- A time of day, by its text. -/
structure IsTime (time : String) (hour minute : ℕ) : Prop where
  ofHour : hour < 24
  ofMinute : minute < 60
  text : time = clockText hour minute

/-- The days that can be named: a month has 31 of them at most. -/
def ClockDay.Valid : ClockDay → Prop
  | .monthly dayOfMonth => ∃ d : ℕ, dayOfMonth = .finite d ∧ 1 ≤ d ∧ d ≤ 31
  | _ => True

/-- The moments on the days that are named. -/
def ClockDay.Includes : ClockDay → Cron.Moment → Prop
  | .daily, _ => True
  | .weekly day, moment => moment.dayOfWeek = weekdays day
  | .monthly dayOfMonth, moment => dayOfMonth = .finite (moment.dayOfMonth : ℕ)

/-- The time zones that are taken: those that are known, none, and the empty one. -/
def ScheduleOptions.Known (zones : String → Bool) (options : ScheduleOptions) : Prop :=
  ∀ timezone ∈ options.timezone, timezone = "" ∨ zones timezone = true

/-- **What a schedule by the clock promises.** -/
structure ClockLaw (zones : String → Bool) (day : ClockDay) (time : String) : Prop where
  /-- It is made for a time, for days that can be named, and for a time zone that is taken. -/
  accepts : ∀ options, (∃ schedule, clockSchedule zones day time options = .ok schedule) ↔
    (∃ hour minute, IsTime time hour minute) ∧ day.Valid ∧ options.Known zones
  /-- Its pattern fires at that time of those days. -/
  fires : ∀ options schedule, clockSchedule zones day time options = .ok schedule →
    ∃ text pattern, schedule.recurrence = .pattern text ∧ Cron.Pattern.read text = some pattern ∧
      ∀ moment : Cron.Moment, pattern.Fires moment ↔
        IsTime time moment.hour moment.minute ∧ day.Includes moment
  /-- And it keeps its options. -/
  keeps : ∀ options schedule, clockSchedule zones day time options = .ok schedule →
    schedule.timezone = options.timezone ∧ schedule.data = options.data

/-! ### The parts of a time -/

theorem exists_digitChar {c : Char} (h : c.isDigit = true) : ∃ n < 10, c = n.digitChar := by
  obtain ⟨hlo, hhi⟩ := Char.isDigit_iff_toNat.1 h
  have hlo : 48 ≤ c.toNat := hlo
  have hhi : c.toNat ≤ 57 := hhi
  refine ⟨c.toNat - 48, by omega, Char.toNat_inj.1 ?_⟩
  rw [Nat.toNat_digitChar_of_lt_ten (by omega)]
  omega

theorem twoDigits_eq {x y : ℕ} (hy : y < 10) :
    twoDigits (10 * x + y) = [x.digitChar, y.digitChar] := by
  have hx : (10 * x + y) / 10 = x := by omega
  have hy : (10 * x + y) % 10 = y := by omega
  rw [twoDigits, hx, hy]

theorem ofDigitChars_twoDigits {n : ℕ} (h : n < 100) : Nat.ofDigitChars 10 (twoDigits n) 0 = n := by
  have hall : ∀ n < 100, Nat.ofDigitChars 10 (twoDigits n) 0 = n := by decide
  exact hall n h

/-- The digits the form takes in their places. -/
theorem timeForm_twoDigits {hour minute : ℕ} (hhour : hour < 24) (hminute : minute < 60) :
    timeForm (twoDigits hour ++ ':' :: twoDigits minute) =
      some (twoDigits hour, twoDigits minute) := by
  have hhours : ∀ hour < 24, (((hour / 10).digitChar = '0' ∨ (hour / 10).digitChar = '1') ∧
      (hour % 10).digitChar.isDigit ∨ (hour / 10).digitChar = '2' ∧
        (hour % 10).digitChar ∈ ['0', '1', '2', '3']) := by decide
  have hminutes : ∀ minute < 60, (minute / 10).digitChar ∈ ['0', '1', '2', '3', '4', '5'] ∧
      (minute % 10).digitChar.isDigit := by decide
  exact if_pos ⟨hhours hour hhour, hminutes minute hminute⟩

/-- **How a time is taken apart.** -/
theorem timeForm_eq_some_iff {time hours minutes : List Char} :
    timeForm time = some (hours, minutes) ↔ ∃ hour < 24, ∃ minute < 60,
      time = twoDigits hour ++ ':' :: twoDigits minute ∧ hours = twoDigits hour ∧
        minutes = twoDigits minute := by
  constructor
  · intro h
    unfold timeForm at h
    split at h
    · rename_i a b c d
      split_ifs at h with hform
      obtain ⟨hhour, hc, hd⟩ := hform
      obtain ⟨rfl, rfl⟩ := Prod.mk.inj (Option.some.inj h)
      have hdaily : ∃ hour < 24, [a, b] = twoDigits hour := by
        rcases hhour with ⟨ha, hb⟩ | ⟨rfl, hb⟩
        -- `[01]\d`, and then `2[0-3]`
        · obtain ⟨y, hy, rfl⟩ := exists_digitChar hb
          rcases ha with rfl | rfl
          · exact ⟨10 * 0 + y, by omega, (@twoDigits_eq 0 y hy).symm⟩
          · exact ⟨10 * 1 + y, by omega, (@twoDigits_eq 1 y hy).symm⟩
        · simp only [List.mem_cons, List.not_mem_nil, or_false] at hb
          rcases hb with rfl | rfl | rfl | rfl
          · exact ⟨20, by omega, rfl⟩
          · exact ⟨21, by omega, rfl⟩
          · exact ⟨22, by omega, rfl⟩
          · exact ⟨23, by omega, rfl⟩
      have hsecond : ∃ minute < 60, [c, d] = twoDigits minute := by
        obtain ⟨y, hy, rfl⟩ := exists_digitChar hd
        have hc : ∃ x < 6, c = x.digitChar := by
          simp only [List.mem_cons, List.not_mem_nil, or_false] at hc
          rcases hc with rfl | rfl | rfl | rfl | rfl | rfl
          · exact ⟨0, by omega, rfl⟩
          · exact ⟨1, by omega, rfl⟩
          · exact ⟨2, by omega, rfl⟩
          · exact ⟨3, by omega, rfl⟩
          · exact ⟨4, by omega, rfl⟩
          · exact ⟨5, by omega, rfl⟩
        obtain ⟨x, hx, rfl⟩ := hc
        exact ⟨10 * x + y, by omega, (twoDigits_eq hy).symm⟩
      obtain ⟨hour, hhour, hdaily⟩ := hdaily
      obtain ⟨minute, hminute, hsecond⟩ := hsecond
      refine ⟨hour, hhour, minute, hminute, ?_, hdaily, hsecond⟩
      rw [← hdaily, ← hsecond]
      rfl
    · cases h
  · rintro ⟨hour, hhour, minute, hminute, rfl, rfl, rfl⟩
    exact timeForm_twoDigits hhour hminute

/-- When a text is read as a time. -/
theorem timeFields_eq_ok_iff {time : String} {hour minute : ℕ} :
    timeFields time = .ok (hour, minute) ↔ IsTime time hour minute := by
  unfold timeFields
  constructor
  · intro h
    cases hform : timeForm time.toList with
    | none =>
        rw [hform] at h
        cases h
    | some parts =>
        obtain ⟨hours, minutes⟩ := parts
        obtain ⟨x, hx, y, hy, htime, rfl, rfl⟩ := timeForm_eq_some_iff.1 hform
        simp only [hform, ofDigitChars_twoDigits (Nat.lt_trans hx (by decide)),
          ofDigitChars_twoDigits (Nat.lt_trans hy (by decide))] at h
        obtain ⟨rfl, rfl⟩ := Prod.mk.inj (Except.ok.inj h)
        exact ⟨hx, hy, String.toList_inj.1 (htime.trans String.toList_ofList.symm)⟩
  · rintro ⟨hx, hy, rfl⟩
    rw [clockText, String.toList_ofList, timeForm_twoDigits hx hy]
    simp only [ofDigitChars_twoDigits (Nat.lt_trans hx (by decide)),
      ofDigitChars_twoDigits (Nat.lt_trans hy (by decide))]

example : timeFields "09:30" = .ok (9, 30) := rfl

/-- A text is one time at most. -/
theorem IsTime.unique {time : String} {hour minute hour' minute' : ℕ} (h : IsTime time hour minute)
    (h' : IsTime time hour' minute') : hour = hour' ∧ minute = minute' :=
  Prod.mk.inj (Except.ok.inj ((timeFields_eq_ok_iff.2 h).symm.trans (timeFields_eq_ok_iff.2 h')))

/-! ### The parts of a schedule -/

theorem scheduleOf_eq_ok_iff {zones : String → Bool} {recurrence : Recurrence}
    {options : ScheduleOptions} {schedule : Schedule} :
    scheduleOf zones recurrence options = .ok schedule ↔
      options.Known zones ∧ schedule = ⟨recurrence, options.timezone, options.data⟩ := by
  have hok : (scheduleOf zones recurrence options =
      .ok ⟨recurrence, options.timezone, options.data⟩ ∧ options.Known zones) ∨
      (∃ e, scheduleOf zones recurrence options = .error e) ∧ ¬options.Known zones := by
    obtain ⟨timezone, data⟩ := options
    cases timezone with
    | none =>
        refine .inl ⟨rfl, ?_⟩
        intro timezone h
        cases h
    | some timezone =>
        have hknown : ScheduleOptions.Known zones ⟨some timezone, data⟩ ↔
            timezone = "" ∨ zones timezone = true := by simp [ScheduleOptions.Known]
        rw [hknown]
        by_cases hempty : timezone = ""
        · refine .inl ⟨?_, .inl hempty⟩
          simp [scheduleOf, hempty, pure, Except.pure]
        · cases hzone : zones timezone with
          | true =>
              refine .inl ⟨?_, .inr rfl⟩
              simp [scheduleOf, assertTimezone, hempty, hzone, pure, Except.pure, bind, Except.bind]
          | false =>
              refine .inr ⟨⟨timezoneError timezone, ?_⟩, by simp [hempty]⟩
              simp [scheduleOf, assertTimezone, hempty, hzone, bind, Except.bind]
  rcases hok with ⟨hok, hknown⟩ | ⟨⟨e, herror⟩, hunknown⟩
  · rw [hok, Except.ok.injEq]
    exact ⟨fun h => ⟨hknown, h.symm⟩, fun h => h.2.symm⟩
  · rw [herror]
    refine iff_of_false (by intro h; cases h) fun h => hunknown h.1

/-- The day of the month a number is. -/
def dayNumber : Number → ℕ
  | .finite d => d.mantissa.toNat
  | _ => 0

/-- The pattern of a time on the days that are named. -/
def ClockDay.pattern (hour minute : ℕ) : ClockDay → Cron.Pattern
  | .daily => ⟨.exactly minute, .exactly hour, .any, .any, .any⟩
  | .weekly day => ⟨.exactly minute, .exactly hour, .any, .any, .exactly (weekdays day)⟩
  | .monthly dayOfMonth => ⟨.exactly minute, .exactly hour, .exactly (dayNumber dayOfMonth),
      .any, .any⟩

/-- The days that are not refused. -/
theorem dayOfMonth_valid_iff {n : Number} :
    (!n.isInteger || n.lt 1 || Number.lt 31 n) = false ↔ ClockDay.Valid (.monthly n) := by
  have hlow : ∀ m : ℤ, Number.lt (.finite (.ofInt m)) 1 = decide (m < 1) := by
    intro m
    have hone : Decimal.toRat 1 = ((1 : ℤ) : ℚ) := Decimal.toRat_ofInt 1
    simp only [Number.lt, Decimal.toRat_ofInt, decide_eq_decide]
    exact (hone ▸ Int.cast_lt : (m : ℚ) < Decimal.toRat 1 ↔ m < 1)
  have hhigh : ∀ m : ℤ, Number.lt 31 (.finite (.ofInt m)) = decide (31 < m) := by
    intro m
    have hlast : Decimal.toRat 31 = ((31 : ℤ) : ℚ) := Decimal.toRat_ofInt 31
    simp only [Number.lt, Decimal.toRat_ofInt, decide_eq_decide]
    exact (hlast ▸ Int.cast_lt : Decimal.toRat 31 < (m : ℚ) ↔ 31 < m)
  constructor
  · intro h
    cases n with
    | finite d =>
        obtain ⟨m, scale, lowest⟩ := d
        -- a number in lowest terms is whole when it has no digits behind the point
        cases scale with
        | zero =>
            have hbounds : (false || decide (m < 1) || decide (31 < m)) = false := by
              rw [← hlow, ← hhigh]
              exact h
            obtain ⟨hm, hm'⟩ : 1 ≤ m ∧ m ≤ 31 := by simpa using hbounds
            refine ⟨m.toNat, ?_, by omega, by omega⟩
            have hcast : ((m.toNat : ℕ) : ℤ) = m := Int.toNat_of_nonneg (by omega)
            exact congrArg Number.finite (congrArg Decimal.ofInt hcast.symm)
        | succ scale => cases h
    | nan => cases h
    | infinity negative => cases h
  · rintro ⟨d, rfl, hd, hd'⟩
    have hint : Number.isInteger (.finite (d : ℕ)) = true := rfl
    rw [hint]
    show (false || Number.lt (.finite (.ofInt d)) 1 || Number.lt 31 (.finite (.ofInt d))) = false
    rw [hlow, hhigh]
    simp only [Bool.false_or, Bool.or_eq_false_iff, decide_eq_false_iff_not]
    omega

theorem numberText_day {d : ℕ} (h : d ≤ 31) : Value.numberText (.finite (d : ℕ)) = toString d := by
  have hall : ∀ d < 32, Value.numberText (.finite (d : ℕ)) = toString d := by decide
  exact hall d (Nat.lt_succ_of_le h)

/-- The text of five fields. -/
theorem pattern_text (a b c d e : Cron.Field) : Cron.Pattern.text ⟨a, b, c, d, e⟩ =
    a.text ++ " " ++ b.text ++ " " ++ c.text ++ " " ++ d.text ++ " " ++ e.text := by
  rw [← String.toList_inj]
  simp [Cron.Pattern.text, Cut.toList_join]

/-- **When a schedule is made, and which.** -/
theorem clockSchedule_eq_ok_iff {zones : String → Bool} {day : ClockDay} {time : String}
    {options : ScheduleOptions} {schedule : Schedule} :
    clockSchedule zones day time options = .ok schedule ↔
      ∃ hour minute, IsTime time hour minute ∧ day.Valid ∧ options.Known zones ∧
        schedule = ⟨.pattern (day.pattern hour minute).text, options.timezone, options.data⟩ := by
  have hrest : ∀ text : ℕ → ℕ → String,
      ((timeFields time >>= fun p => scheduleOf zones (.pattern (text p.1 p.2)) options) =
        .ok schedule ↔ ∃ hour minute, IsTime time hour minute ∧ options.Known zones ∧
          schedule = ⟨.pattern (text hour minute), options.timezone, options.data⟩) := by
    intro text
    rw [bind_eq_ok]
    constructor
    · rintro ⟨⟨hour, minute⟩, htime, h⟩
      obtain ⟨hknown, hschedule⟩ := scheduleOf_eq_ok_iff.1 h
      exact ⟨hour, minute, timeFields_eq_ok_iff.1 htime, hknown, hschedule⟩
    · rintro ⟨hour, minute, htime, hknown, hschedule⟩
      exact ⟨(hour, minute), timeFields_eq_ok_iff.2 htime,
        scheduleOf_eq_ok_iff.2 ⟨hknown, hschedule⟩⟩
  cases day with
  | daily =>
      have htext : ∀ hour minute : ℕ, toString minute ++ " " ++ toString hour ++ " * * *" =
          (ClockDay.daily.pattern hour minute).text := by
        intro hour minute
        rw [ClockDay.pattern, pattern_text, ← String.toList_inj]
        simp [Cron.Field.text]
      refine (hrest fun hour minute => toString minute ++ " " ++ toString hour ++ " * * *").trans ?_
      simp only [htext, ClockDay.Valid, true_and]
  | weekly day =>
      have htext : ∀ hour minute : ℕ, toString minute ++ " " ++ toString hour ++ " * * " ++
          toString (weekdays day) = ((ClockDay.weekly day).pattern hour minute).text := by
        intro hour minute
        rw [ClockDay.pattern, pattern_text, ← String.toList_inj]
        simp [Cron.Field.text]
      refine (hrest fun hour minute => toString minute ++ " " ++ toString hour ++ " * * " ++
        toString (weekdays day)).trans ?_
      simp only [htext, ClockDay.Valid, true_and]
  | monthly n =>
      have hmonthly : clockSchedule zones (.monthly n) time options =
          if (!n.isInteger || n.lt 1 || Number.lt 31 n) = true then .error (dayOfMonthError n)
          else timeFields time >>= fun p => scheduleOf zones (.pattern (toString p.2 ++ " " ++
            toString p.1 ++ " " ++ Value.numberText n ++ " * *")) options := by
        cases hrefused : (!n.isInteger || n.lt 1 || Number.lt 31 n) with
        | true =>
            simp only [clockSchedule, monthlyOn, hrefused]
            rfl
        | false =>
            simp only [clockSchedule, monthlyOn, hrefused]
            rfl
      rw [hmonthly]
      by_cases hvalid : ClockDay.Valid (.monthly n)
      · rw [dayOfMonth_valid_iff.2 hvalid, if_neg Bool.false_ne_true]
        refine (hrest fun hour minute => toString minute ++ " " ++ toString hour ++ " " ++
          Value.numberText n ++ " * *").trans ?_
        obtain ⟨d, rfl, hd, hd'⟩ := hvalid
        have htext : ∀ hour minute : ℕ, toString minute ++ " " ++ toString hour ++ " " ++
            Value.numberText (.finite (d : ℕ)) ++ " * *" =
              ((ClockDay.monthly (.finite (d : ℕ))).pattern hour minute).text := by
          intro hour minute
          have hday : dayNumber (.finite (d : ℕ)) = d := rfl
          rw [ClockDay.pattern, pattern_text, numberText_day hd', hday, ← String.toList_inj]
          simp [Cron.Field.text]
        have hvalid : ClockDay.Valid (.monthly (.finite (d : ℕ))) := ⟨d, rfl, hd, hd'⟩
        simp only [htext, hvalid, true_and]
      -- the day is looked at before the time, so a wrong day is refused whatever the text is
      · have hrefused : (!n.isInteger || n.lt 1 || Number.lt 31 n) = true := by
          by_contra hnot
          exact hvalid (dayOfMonth_valid_iff.1 (Bool.eq_false_iff.2 hnot))
        rw [if_pos hrefused]
        refine iff_of_false (by intro h; cases h) ?_
        rintro ⟨-, -, -, hbad, -, -⟩
        exact hvalid hbad

/-- **The moments of a pattern**: the minute of the hour on the days that are named. -/
theorem fires_pattern_iff {day : ClockDay} (hday : day.Valid) {hour minute : ℕ}
    {moment : Cron.Moment} : (day.pattern hour minute).Fires moment ↔
      moment.hour = hour ∧ moment.minute = minute ∧ day.Includes moment := by
  cases day with
  | daily =>
      simp only [ClockDay.pattern, Cron.Pattern.Fires, Cron.Pattern.AdmitsDay, Cron.Field.Admits,
        ClockDay.Includes]
      tauto
  | weekly day =>
      simp only [ClockDay.pattern, Cron.Pattern.Fires, Cron.Pattern.AdmitsDay, Cron.Field.Admits,
        ClockDay.Includes]
      tauto
  | monthly n =>
      obtain ⟨d, rfl, -, -⟩ := hday
      have hincludes : ClockDay.Includes (.monthly (.finite (d : ℕ))) moment ↔
          moment.dayOfMonth = d := by
        constructor
        · intro h
          exact (Decimal.natCast_injective (Number.finite.inj h)).symm
        · rintro rfl
          rfl
      have hnumber : dayNumber (.finite (d : ℕ)) = d := rfl
      rw [hincludes]
      simp only [ClockDay.pattern, hnumber, Cron.Pattern.Fires, Cron.Pattern.AdmitsDay,
        Cron.Field.Admits]
      tauto

/-- **A schedule fires at the time it names, on the days it names, and at no other**, and it is made
for every time, and for no other text. -/
theorem clock_law (zones : String → Bool) (day : ClockDay) (time : String) :
    ClockLaw zones day time := by
  constructor
  · intro options
    constructor
    · rintro ⟨schedule, h⟩
      obtain ⟨hour, minute, htime, hday, hknown, -⟩ := clockSchedule_eq_ok_iff.1 h
      exact ⟨⟨hour, minute, htime⟩, hday, hknown⟩
    · rintro ⟨⟨hour, minute, htime⟩, hday, hknown⟩
      exact ⟨_, clockSchedule_eq_ok_iff.2 ⟨hour, minute, htime, hday, hknown, rfl⟩⟩
  · intro options schedule h
    obtain ⟨hour, minute, htime, hday, -, rfl⟩ := clockSchedule_eq_ok_iff.1 h
    refine ⟨_, _, rfl, Cron.Pattern.read_text _, ?_⟩
    intro moment
    rw [fires_pattern_iff hday]
    constructor
    · rintro ⟨rfl, rfl, hincludes⟩
      exact ⟨htime, hincludes⟩
    · rintro ⟨htime', hincludes⟩
      obtain ⟨rfl, rfl⟩ := htime.unique htime'
      exact ⟨rfl, rfl, hincludes⟩
  · intro options schedule h
    obtain ⟨hour, minute, -, -, -, rfl⟩ := clockSchedule_eq_ok_iff.1 h
    exact ⟨rfl, rfl⟩

theorem weekdays_injective : Function.Injective weekdays := by
  intro day day' h
  cases day <;> cases day' <;> first | rfl | cases h

/-- A pattern names its days. -/
theorem pattern_injective {day day' : ClockDay} (hday : day.Valid) (hday' : day'.Valid)
    {hour minute hour' minute' : ℕ} (h : day.pattern hour minute = day'.pattern hour' minute') :
    day = day' ∧ hour = hour' ∧ minute = minute' := by
  cases day with
  | daily => cases day' <;> simp_all [ClockDay.pattern]
  | weekly weekday =>
      cases day' with
      | weekly weekday' =>
          simp only [ClockDay.pattern, Cron.Pattern.mk.injEq, Cron.Field.exactly.injEq] at h
          obtain ⟨rfl, rfl, -, -, hweekday⟩ := h
          exact ⟨congrArg _ (weekdays_injective hweekday), rfl, rfl⟩
      | daily => simp [ClockDay.pattern] at h
      | monthly n => simp [ClockDay.pattern] at h
  | monthly n =>
      cases day' with
      | monthly n' =>
          obtain ⟨d, rfl, -, -⟩ := hday
          obtain ⟨d', rfl, -, -⟩ := hday'
          simp only [ClockDay.pattern, Cron.Pattern.mk.injEq, Cron.Field.exactly.injEq] at h
          obtain ⟨rfl, rfl, hnumber, -, -⟩ := h
          obtain rfl : d = d' := hnumber
          exact ⟨rfl, rfl, rfl⟩
      | daily => simp [ClockDay.pattern] at h
      | weekly weekday => simp [ClockDay.pattern] at h

/-- **Two schedules of one pattern are one schedule by the clock**: they name the same time, and the
same days in the same words. -/
theorem clock_apart {zones : String → Bool} {day day' : ClockDay} {time time' : String}
    {options options' : ScheduleOptions} {schedule schedule' : Schedule}
    (h : clockSchedule zones day time options = .ok schedule)
    (h' : clockSchedule zones day' time' options' = .ok schedule')
    (hsame : schedule.recurrence = schedule'.recurrence) : day = day' ∧ time = time' := by
  obtain ⟨hour, minute, htime, hday, -, rfl⟩ := clockSchedule_eq_ok_iff.1 h
  obtain ⟨hour', minute', htime', hday', -, rfl⟩ := clockSchedule_eq_ok_iff.1 h'
  have htext : (day.pattern hour minute).text = (day'.pattern hour' minute').text :=
    Recurrence.pattern.inj hsame
  have hpattern : day.pattern hour minute = day'.pattern hour' minute' :=
    Option.some.inj ((Cron.Pattern.read_text _).symm.trans
      ((congrArg Cron.Pattern.read htext).trans (Cron.Pattern.read_text _)))
  obtain ⟨hdays, rfl, rfl⟩ := pattern_injective hday hday' hpattern
  exact ⟨hdays, htime.text.trans htime'.text.symm⟩

/-- Every Monday at half past nine, in UTC. -/
def everyMonday : Schedule := ⟨.pattern "30 9 * * 1", some "UTC", .undefined⟩

/-- Every day at half past nine. -/
def everyDay : Schedule := ⟨.pattern "30 9 * * *", none, .undefined⟩

/-- A schedule of another time zone with the pattern of a Monday is one of a Monday, and the
schedule of every day has another pattern. -/
theorem clock_apart_example :
    (∃ day time, clockSchedule (fun _ => true) day time ⟨none, .undefined⟩ =
        .ok { everyMonday with timezone := none } ∧ day = .weekly .monday ∧ time = "09:30") ∧
      everyMonday.recurrence ≠ everyDay.recurrence := by
  have hmonday : clockSchedule (fun _ => true) (.weekly .monday) "09:30" ⟨some "UTC", .undefined⟩ =
      .ok everyMonday := rfl
  have hdaily : clockSchedule (fun _ => true) .daily "09:30" ⟨none, .undefined⟩ =
      .ok everyDay := rfl
  refine ⟨?_, ?_⟩
  · obtain ⟨day, time, hother⟩ : ∃ day time, clockSchedule (fun _ => true) day time
        ⟨none, .undefined⟩ = .ok { everyMonday with timezone := none } :=
      ⟨.weekly .monday, "09:30", rfl⟩
    exact ⟨day, time, hother, clock_apart hother hmonday rfl⟩
  · intro hsame
    cases (clock_apart hmonday hdaily hsame).1

end Jubs
