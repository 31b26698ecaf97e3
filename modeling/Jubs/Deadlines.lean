/-
**The deadline of an attempt.**

The body of an attempt is the handler and the validation of what it returns.  A definition with a
`timeoutMs` races it against a timer, and cancellations and shutdowns abort the signal meanwhile.
The platform's timer takes a number of milliseconds out of its range for one millisecond, and drops
the fraction of one that is in it.

Main definitions:

* `Jubs.timerDelay` — how long the platform's timer waits at least;
* `Jubs.attemptRun` — an attempt, its timer and its aborts as one machine;
* `Jubs.DeadlineLaw` — what is owed by the deadline of a definition.

Main results:

* `Jubs.attempt_execution` — **an attempt settles as a dispatch takes it to**, whatever the order of
  its events;
* `Jubs.deadlineLaw_iff` — **for which timeouts a deadline keeps to its own time**;
* `Jubs.month_expires_at_once` — one for which it does not.
-/

import Jubs.Dispatch
import Jubs.Machine
import Jubs.NumberOrder

set_option autoImplicit false

namespace Jubs

/-! ### An attempt and its timer -/

/-- The largest delay the platform's timer takes, `2 ** 31 - 1`. -/
def maxTimerDelay : Number := 2147483647

/-- How long `setTimeout` waits at least: the whole milliseconds of a delay in its range, and one
millisecond for any other. -/
def timerDelay : Number → ℚ
  | .finite ms =>
      if 1 ≤ ms.toRat ∧ Number.le (.finite ms) maxTimerDelay = true then ⌊ms.toRat⌋ else 1
  | _ => 1

/-- An attempt whose body was started at time zero, in milliseconds. -/
structure Attempt where
  now : ℚ
  /-- What the handler returned, while it is validated. -/
  validating : Option Value
  /-- When the body settled, and what with. -/
  body : Option (ℚ × Except Raised Value)
  /-- When the deadline failed the attempt. -/
  expiredAt : Option ℚ
  /-- What the race of the body and the deadline settled with. -/
  outcome : Option (Except Raised Value)
  /-- `controller.signal.reason`. -/
  reason : Option Thrown

/-- An attempt that was just started. -/
def Attempt.init : Attempt := ⟨0, none, none, none, none, none⟩

/-- What happens in an attempt. -/
inductive AttemptEvent where
  /-- The handler settles. -/
  | returns (outcome : Except Raised Value)
  /-- What it returned has been validated. -/
  | validates
  /-- The callback of the timer runs. -/
  | expires
  /-- A cancellation or a shutdown calls `controller.abort`. -/
  | aborts (interruption : Interruption)

/-- The body settles.  It settles the race unless the deadline did. -/
def Attempt.settleBody (s : Attempt) (moment : ℚ) (outcome : Except Raised Value) : Attempt :=
  { s with
    now := moment
    validating := none
    body := some (moment, outcome)
    outcome := s.outcome.or (some outcome) }

/-- The callback of `runUnderTimeout`. -/
def Attempt.expire (s : Attempt) (definition : JobDefinition) (timeoutMs : Number)
    (moment : ℚ) : Attempt :=
  let expired := handlerTimeoutError definition.name timeoutMs
  { s with
    now := moment
    expiredAt := some moment
    outcome := some (.error ⟨expired, s.reason.isNone⟩)
    reason := abort expired s.reason }

/-- `runUnderTimeout(definition, controller, run)`, one event after the other.  The timer is
cleared, and the signal left alone, once the race has settled. -/
def attemptRun (definition : JobDefinition) : Machine Attempt (ℚ × AttemptEvent) := fun s event =>
  if event.1 < s.now then none
  else match event.2, s.validating, s.body, s.outcome with
    | .returns (.error raised), none, none, _ => some (s.settleBody event.1 (.error raised))
    | .returns (.ok value), none, none, _ =>
        some { s with now := event.1, validating := some value }
    | .validates, some value, _, _ => some (s.settleBody event.1 (checkedResult definition value))
    | .expires, _, _, none =>
        match definition.timeoutMs with
        | some timeoutMs =>
            if timerDelay timeoutMs ≤
              event.1 then some (s.expire definition timeoutMs event.1) else none
        | none => none
    | .aborts interruption, _, _, none =>
        some { s with
          now := event.1
          reason := abort (interruption.reason definition.name) s.reason }
    | _, _, _, _ => none

/-! ### What is owed by a deadline -/

/-- What is owed by the deadline of an attempt, after some of its events. -/
structure DeadlineKept (definition : JobDefinition) (timeoutMs : ℚ) (s : Attempt) : Prop where
  /-- The deadline fails the attempt only when the body had not settled after so many
  milliseconds. -/
  waited : ∀ moment, s.expiredAt = some moment → timeoutMs ≤ moment ∧
    ∀ settled outcome, s.body = some (settled, outcome) → moment ≤ settled
  /-- A body that settles before decides the attempt. -/
  own : ∀ settled outcome, s.body = some (settled, outcome) → settled < timeoutMs →
    s.outcome = some outcome ∧ s.expiredAt = none
  /-- An attempt the deadline does not fail settles with its body, and only a cancellation or a
  shutdown aborts its signal. -/
  spared : s.expiredAt = none → s.outcome = s.body.map Prod.snd ∧
    ∀ reason, s.reason = some reason →
      ∃ interruption : Interruption, reason = interruption.reason definition.name

/-- The deadline of a definition keeps to its time, whatever happens in an attempt and in whatever
order. -/
def DeadlineLaw (definition : JobDefinition) : Prop :=
  ∀ timeoutMs, definition.timeoutMs = some (.finite timeoutMs) → ∀ l s,
    (attemptRun definition).exec .init l = some s → DeadlineKept definition timeoutMs.toRat s

/-! ### An attempt as a dispatch takes it -/

variable {definition : JobDefinition} {s t : Attempt}

/-- A dispatch takes an attempt to have run like an execution. -/
structure Amounts (definition : JobDefinition) (s : Attempt) (execution : Execution) : Prop where
  expired : (execution.expired definition).isSome = s.expiredAt.isSome
  outcome : runUnderTimeout definition execution = s.outcome
  reason : signalReason definition definition.name execution = s.reason

/-- What holds of an attempt after some of its events. -/
structure AttemptInv (definition : JobDefinition) (s : Attempt) : Prop where
  validating : s.validating ≠ none → s.body = none
  past : ∀ settled outcome, s.body = some (settled, outcome) → settled ≤ s.now
  waited : ∀ moment, s.expiredAt = some moment → moment ≤ s.now ∧
    (∃ timeoutMs, definition.timeoutMs = some timeoutMs ∧ timerDelay timeoutMs ≤ moment) ∧
      ∀ settled outcome, s.body = some (settled, outcome) → moment ≤ settled
  spared : s.expiredAt = none → s.outcome = s.body.map Prod.snd
  execution : ∃ execution, Amounts definition s execution

theorem attemptInv_init (definition : JobDefinition) : AttemptInv definition .init := by
  refine ⟨fun _ => rfl, by simp [Attempt.init], by simp [Attempt.init], fun _ => rfl,
    ⟨none, false, none⟩, ?_, ?_, ?_⟩ <;> cases h : definition.timeoutMs <;>
    simp [Execution.expired, runUnderTimeout, signalReason, Attempt.init, h]

/-- Where the deadline did not fail the attempt, the signal was aborted by no deadline. -/
theorem Amounts.of_none {execution : Execution} (h : Amounts definition s execution)
    (hnone : s.expiredAt = none) : execution.expired definition = none ∧
      (execution.settles.map fun outcome => outcome >>= checkedResult definition) = s.outcome ∧
        execution.interrupted.map (Interruption.reason definition.name) = s.reason := by
  have hexpired : execution.expired definition = none := by
    have hsome := h.expired
    rw [hnone] at hsome
    exact Option.isNone_iff_eq_none.1 (by simpa using hsome)
  refine ⟨hexpired, ?_, ?_⟩
  · have houtcome := h.outcome
    simpa only [runUnderTimeout, hexpired] using houtcome
  · have hreason := h.reason
    simpa only [signalReason, hexpired] using hreason

/-- A body that settles, with what its handler settled with. -/
theorem AttemptInv.settleBody (hinv : AttemptInv definition s) (hbody : s.body = none) {moment : ℚ}
    (hnow : s.now ≤ moment) (raw : Except Raised Value) :
    AttemptInv definition (s.settleBody moment (raw >>= checkedResult definition)) := by
  obtain ⟨execution, hamounts⟩ := hinv.execution
  refine ⟨fun h => absurd rfl h, ?_, ?_, ?_, ?_⟩
  · intro settled outcome h
    cases h
    exact le_rfl
  · intro expired hexpired
    obtain ⟨hpast, hdelay, -⟩ := hinv.waited expired hexpired
    refine ⟨hpast.trans hnow, hdelay, ?_⟩
    intro settled outcome h
    cases h
    exact hpast.trans hnow
  · intro hnone
    have houtcome : s.outcome = none := by rw [hinv.spared hnone, hbody]; rfl
    simp [Attempt.settleBody, houtcome]
  · cases hexpired : s.expiredAt with
    | none =>
        obtain ⟨hnone, -, hreason⟩ := hamounts.of_none hexpired
        have houtcome : s.outcome = none := by rw [hinv.spared hexpired, hbody]; rfl
        refine ⟨{ execution with settles := some raw }, hamounts.expired, ?_, hamounts.reason⟩
        have hnone' : ({ execution with settles := some raw } : Execution).expired
          definition = none :=
          hnone
        rw [runUnderTimeout, hnone']
        simp [Attempt.settleBody, houtcome]
    | some expired =>
        -- the race was settled by the deadline
        refine ⟨execution, hamounts.expired, ?_, hamounts.reason⟩
        have hsome : (execution.expired definition).isSome = true := by
          rw [hamounts.expired, hexpired]
          rfl
        obtain ⟨error, herror⟩ := Option.isSome_iff_exists.1 hsome
        have houtcome := hamounts.outcome
        simp only [runUnderTimeout, herror] at houtcome ⊢
        simp [Attempt.settleBody, ← houtcome]

/-- Before the race has settled, neither the deadline nor the body did. -/
theorem AttemptInv.unsettled (hinv : AttemptInv definition s) (houtcome : s.outcome = none) :
    s.expiredAt = none ∧ s.body = none := by
  obtain ⟨execution, hamounts⟩ := hinv.execution
  have hnone : s.expiredAt = none := by
    cases hexpired : s.expiredAt with
    | none => rfl
    | some expired =>
        have hsome : (execution.expired definition).isSome = true := by
          rw [hamounts.expired, hexpired]
          rfl
        obtain ⟨error, herror⟩ := Option.isSome_iff_exists.1 hsome
        have hfailed := hamounts.outcome
        rw [runUnderTimeout, herror, houtcome] at hfailed
        cases hfailed
  have hmap := hinv.spared hnone
  rw [houtcome] at hmap
  exact ⟨hnone, Option.map_eq_none_iff.1 hmap.symm⟩

/-- The timer fires before the race has settled. -/
theorem AttemptInv.expire (hinv : AttemptInv definition s) {timeoutMs : Number} {moment : ℚ}
    (htimeout : definition.timeoutMs = some timeoutMs) (houtcome : s.outcome = none)
    (hdelay : timerDelay timeoutMs ≤ moment) :
    AttemptInv definition (s.expire definition timeoutMs moment) := by
  obtain ⟨execution, hamounts⟩ := hinv.execution
  obtain ⟨hnone, hbody⟩ := hinv.unsettled houtcome
  obtain ⟨-, -, hreason⟩ := hamounts.of_none hnone
  refine ⟨hinv.validating, ?_, ?_, ?_, ?_⟩
  · intro settled outcome h
    cases hbody.symm.trans h
  · intro expired hexpired
    cases hexpired
    refine ⟨le_rfl, ⟨timeoutMs, htimeout, hdelay⟩, ?_⟩
    intro settled outcome h
    cases hbody.symm.trans h
  · intro h
    cases h
  · refine ⟨{ execution with expires := true }, ?_, ?_, ?_⟩
    · simp [Execution.expired, htimeout, Attempt.expire]
    · simp [runUnderTimeout, Execution.expired, htimeout, Attempt.expire, ← hreason]
    · simp [signalReason, Execution.expired, htimeout, Attempt.expire, ← hreason]

/-- A cancellation or a shutdown aborts the signal before the race has settled. -/
theorem AttemptInv.abort (hinv : AttemptInv definition s) (houtcome : s.outcome = none) {moment : ℚ}
    (interruption : Interruption) :
    AttemptInv definition { s with
      now := moment
      reason := Jubs.abort (interruption.reason definition.name) s.reason } := by
  obtain ⟨execution, hamounts⟩ := hinv.execution
  obtain ⟨hnone, hbody⟩ := hinv.unsettled houtcome
  obtain ⟨hexpired, hsettles, hreason⟩ := hamounts.of_none hnone
  refine ⟨hinv.validating, ?_, ?_, hinv.spared, ?_⟩
  · intro settled outcome h
    cases hbody.symm.trans h
  · intro expired h
    cases hnone.symm.trans h
  · have hexpired' : ({ execution with
        interrupted := execution.interrupted.or (some interruption) } : Execution).expired
          definition =
          none := hexpired
    refine ⟨{ execution with interrupted := execution.interrupted.or (some interruption) },
      hamounts.expired, ?_, ?_⟩
    · rw [runUnderTimeout, hexpired']
      exact hsettles
    · rw [signalReason, hexpired']
      cases hinterrupted : execution.interrupted <;> simp [← hreason, hinterrupted, Jubs.abort]

/-- **What every event of an attempt keeps.** -/
theorem attemptRun_inv {event : ℚ × AttemptEvent} (hinv : AttemptInv definition s)
    (h : attemptRun definition s event = some t) : AttemptInv definition t := by
  unfold attemptRun at h
  split_ifs at h with hpast
  have hnow : s.now ≤ event.1 := not_lt.1 hpast
  split at h
  case h_1 _ _ _ _ raised _ hvalidating hbody =>
    cases h
    exact hinv.settleBody hbody hnow (.error raised)
  case h_2 _ _ _ _ value _ hvalidating hbody =>
    cases h
    refine ⟨fun _ => hbody, ?_, ?_, hinv.spared, ?_⟩
    · intro settled outcome h
      cases hbody.symm.trans h
    · intro expired hexpired
      obtain ⟨hpast, hdelay, hsettled⟩ := hinv.waited expired hexpired
      exact ⟨hpast.trans hnow, hdelay, hsettled⟩
    · obtain ⟨execution, hamounts⟩ := hinv.execution
      exact ⟨execution, hamounts.expired, hamounts.outcome, hamounts.reason⟩
  case h_3 _ _ _ _ value _ hvalidating =>
    cases h
    have hbody : s.body = none := hinv.validating (by rw [hvalidating]; exact Option.some_ne_none _)
    exact hinv.settleBody hbody hnow (.ok value)
  case h_4 _ houtcome =>
    split at h
    · rename_i timeoutMs htimeout
      split_ifs at h with hdelay
      cases h
      exact hinv.expire htimeout houtcome hdelay
    · cases h
  case h_5 interruption _ houtcome =>
    cases h
    exact hinv.abort houtcome interruption
  case h_6 => cases h

/-- **An attempt settles as a dispatch takes it to**: whatever the order of its events, there is an
execution whose run settles as the race did, and whose signal keeps the same reason. -/
theorem attempt_execution {l : List (ℚ × AttemptEvent)}
    (h : (attemptRun definition).exec .init l = some s) :
    ∃ execution, Amounts definition s execution :=
  (Machine.exec_invariant (fun _ _ _ hinv hstep => attemptRun_inv hinv hstep) h
    (attemptInv_init definition)).execution

/-- So the run of a dispatch settles with the outcome of the race, and what the signal keeps
replaces the error of it. -/
theorem runHandler_of_amounts {ω : Type} {handler : JobHandler} {data : Value}
    {context : HandlerContext} (h : Amounts handler.definition s (handler.run data context)) :
    (runHandler handler handler.definition.name data context : Effect ω Thrown Value) =
      Effect.await (s.outcome.map fun outcome =>
        outcome.mapError (abortedWith handler.definition.name s.reason)) := by
  rw [runHandler, h.outcome, h.reason]

/-! ### For which timeouts a deadline keeps to its time -/

/-- A delay the platform's timer waits for: one below its range, or a whole number in it. -/
def Waitable (timeoutMs : Number) : Prop :=
  timeoutMs.lt 1 = true ∨ timeoutMs.isInteger = true ∧ timeoutMs.le maxTimerDelay = true

instance (timeoutMs : Number) : Decidable (Waitable timeoutMs) :=
  inferInstanceAs (Decidable (_ ∨ _))

/-- **The timer waits for as long as it was asked to** exactly when it can wait for that. -/
theorem le_timerDelay_iff {ms : Decimal} :
    ms.toRat ≤ timerDelay (.finite ms) ↔ Waitable (.finite ms) := by
  have hone : Number.lt (.finite ms) 1 = true ↔ ms.toRat < 1 := by
    rw [← Nat.cast_one, ← Decimal.toRat_natCast 1]
    exact decide_eq_true_iff
  have hmax : Number.le (.finite ms) maxTimerDelay = true ↔ ms.toRat ≤ 2147483647 := by
    rw [← Nat.cast_ofNat, ← Decimal.toRat_natCast]
    exact decide_eq_true_iff
  rw [Waitable, hone, hmax]
  simp only [timerDelay, hmax]
  by_cases hrange : 1 ≤ ms.toRat ∧ ms.toRat ≤ 2147483647
  · rw [if_pos hrange]
    constructor
    · intro hle
      exact .inr ⟨Decimal.isInt_iff_le_floor.2 hle, hrange.2⟩
    · rintro (hlt | ⟨hwhole, -⟩)
      · exact absurd hrange.1 (not_le.2 hlt)
      · exact Decimal.isInt_iff_le_floor.1 hwhole
  · rw [if_neg hrange]
    constructor
    · intro hle
      by_contra hnot
      have hmost : ms.toRat ≤ 2147483647 := hle.trans (by norm_num)
      exact hrange ⟨by
        by_contra hlt
        exact hnot (.inl (not_le.1 hlt)), hmost⟩
    · rintro (hlt | ⟨-, hmost⟩)
      · exact hlt.le
      · by_contra hlt
        exact hrange ⟨(not_le.1 hlt).le, hmost⟩

/-- The timer never fires at once. -/
theorem one_le_timerDelay (ms : Decimal) : 1 ≤ timerDelay (.finite ms) := by
  simp only [timerDelay]
  split_ifs with hrange
  · exact_mod_cast Int.le_floor.2 (by exact_mod_cast hrange.1)
  · exact le_rfl

/-- What an attempt owes its deadline, when the timer waits for as long as it was asked to. -/
theorem AttemptInv.deadlineKept (hinv : AttemptInv definition s) {ms : Decimal}
    (htimeout : definition.timeoutMs = some (.finite ms))
    (hwaits : ms.toRat ≤ timerDelay (.finite ms)) : DeadlineKept definition ms.toRat s := by
  have hwaited : ∀ moment, s.expiredAt = some moment → ms.toRat ≤ moment ∧
      ∀ settled outcome, s.body = some (settled, outcome) → moment ≤ settled := by
    intro moment hmoment
    obtain ⟨-, ⟨timeoutMs, hsame, hdelay⟩, hsettled⟩ := hinv.waited moment hmoment
    obtain rfl : Number.finite ms = timeoutMs := Option.some.inj (htimeout.symm.trans hsame)
    exact ⟨hwaits.trans hdelay, hsettled⟩
  refine ⟨hwaited, ?_, ?_⟩
  · intro settled outcome hbody hearly
    have hnone : s.expiredAt = none := by
      refine Option.eq_none_iff_forall_ne_some.2 fun moment hmoment => ?_
      obtain ⟨hlate, hsettled⟩ := hwaited moment hmoment
      exact absurd hearly (not_lt.2 (hlate.trans (hsettled settled outcome hbody)))
    exact ⟨by rw [hinv.spared hnone, hbody]; rfl, hnone⟩
  · intro hnone
    refine ⟨hinv.spared hnone, ?_⟩
    intro reason hreason
    obtain ⟨execution, hamounts⟩ := hinv.execution
    obtain ⟨-, -, hmap⟩ := hamounts.of_none hnone
    obtain ⟨interruption, -, heq⟩ := Option.map_eq_some_iff.1 (hmap.trans hreason)
    exact ⟨interruption, heq.symm⟩

/-- What `defineJob` asks of a timeout. -/
theorem defineJob_timeout {input : JobDefinition} (h : defineJob input = .ok definition)
    {timeoutMs : Number} (htimeout : definition.timeoutMs = some timeoutMs) :
    ∃ ms : Decimal, timeoutMs = .finite ms ∧ 0 < ms.toRat := by
  obtain ⟨rfl, -⟩ := defineJob_eq h
  obtain ⟨_, -, h⟩ := bind_eq_ok.1 h
  obtain ⟨_, hassert, -⟩ := bind_eq_ok.1 h
  rw [assertTimeout, htimeout] at hassert
  simp only at hassert
  split_ifs at hassert with hboth
  rw [Bool.and_eq_true] at hboth
  cases timeoutMs with
  | finite ms =>
      refine ⟨ms, rfl, ?_⟩
      exact (Decimal.toRat_natCast 0).symm.trans_lt (of_decide_eq_true hboth.2)
  | nan => cases hboth.1
  | infinity negative => cases hboth.1

/-- **For which timeouts a deadline keeps to its own time**: those the platform's timer can wait
for. -/
theorem deadlineLaw_iff {input : JobDefinition} (h : defineJob input = .ok definition) :
    DeadlineLaw definition ↔
      ∀ timeoutMs, definition.timeoutMs = some timeoutMs → Waitable timeoutMs := by
  constructor
  · intro hlaw timeoutMs htimeout
    obtain ⟨ms, rfl, -⟩ := defineJob_timeout h htimeout
    -- the timer may fire as soon as its delay is over, while the body runs
    have hexec : (attemptRun definition).exec .init [(timerDelay (.finite ms), .expires)] =
        some (Attempt.init.expire definition (.finite ms) (timerDelay (.finite ms))) := by
      refine Machine.exec_singleton.2 ?_
      simp [attemptRun, Attempt.init, htimeout, zero_le_one.trans (one_le_timerDelay ms)]
    exact le_timerDelay_iff.1 ((hlaw ms htimeout _ _ hexec).waited _ rfl).1
  · intro hwaits ms htimeout l s hexec
    have hinv : AttemptInv definition s :=
      Machine.exec_invariant (fun _ _ _ hinv hstep => attemptRun_inv hinv hstep) hexec
        (attemptInv_init definition)
    exact hinv.deadlineKept htimeout (le_timerDelay_iff.2 (hwaits _ htimeout))

/-- A job whose deadline is a whole number of milliseconds. -/
def timedJob (ms : ℕ) : JobDefinition := { lineJob with timeoutMs := some (.finite (ms : Decimal)) }

theorem defineJob_timedJob {ms : ℕ} (h : 0 < ms) : defineJob (timedJob ms) = .ok (timedJob ms) := by
  have hversion : Number.lt (1 : Number) 1 = false := Number.lt_irrefl 1
  have hpos : Number.lt 0 (.finite (ms : Decimal)) = true :=
    (Number.lt_natCast 0 ms).trans (decide_eq_true h)
  have hwhole : Number.isInteger (1 : Number) = true := rfl
  simp [defineJob, timedJob, lineJob, assertVersioning, payloadVersion, defaultPayloadVersion,
    hversion, hwhole, assertTimeout, Number.isFinite, hpos, assertAwaits, bind, Except.bind, pure,
    Except.pure]

theorem deadlineLaw_halfMinute : DeadlineLaw (timedJob 30000) := by
  refine (deadlineLaw_iff (defineJob_timedJob (by decide))).2 ?_
  intro timeoutMs htimeout
  obtain rfl := Option.some.inj htimeout
  exact .inr ⟨rfl, (Number.le_natCast 30000 2147483647).trans (by decide)⟩

/-- **A deadline of thirty days fails an attempt after one millisecond**, and what its body returns
goes nowhere. -/
theorem month_expires_at_once : defineJob (timedJob 2592000000) = .ok (timedJob 2592000000) ∧
    (attemptRun (timedJob 2592000000)).exec .init
        [(1, .expires), (2, .returns (.ok .null)), (2, .validates)] =
      some {
        now := 2
        validating := none
        body := some (2, .ok .null)
        expiredAt := some 1
        outcome := some (.error
          ⟨handlerTimeoutError "invoice.line" (.finite ((2592000000 : ℕ) : Decimal)), true⟩)
        reason := some (handlerTimeoutError "invoice.line" (.finite ((2592000000 : ℕ) : Decimal)))
          } ∧
    ¬DeadlineLaw (timedJob 2592000000) := by
  have hbeyond : Number.le (.finite ((2592000000 : ℕ) : Decimal)) maxTimerDelay ≠ true := by
    rw [show maxTimerDelay = .finite ((2147483647 : ℕ) : Decimal) from rfl, Number.le_natCast]
    decide
  have hdelay : timerDelay (.finite ((2592000000 : ℕ) : Decimal)) = 1 :=
    if_neg fun hrange => hbeyond hrange.2
  have hexec : (attemptRun (timedJob 2592000000)).exec .init
      [(1, .expires), (2, .returns (.ok .null)), (2, .validates)] = some {
        now := 2
        validating := none
        body := some (2, .ok .null)
        expiredAt := some 1
        outcome := some (.error
          ⟨handlerTimeoutError "invoice.line" (.finite ((2592000000 : ℕ) : Decimal)), true⟩)
        reason := some (handlerTimeoutError "invoice.line" (.finite ((2592000000 : ℕ) : Decimal)))
          } := by
    simp [Machine.exec_cons_iff, attemptRun, Attempt.init, timedJob, lineJob, Attempt.expire,
      Attempt.settleBody, checkedResult, validateResult, abort]
    exact hdelay.le
  refine ⟨defineJob_timedJob (by decide), hexec, ?_⟩
  intro hlaw
  obtain ⟨hwaited, -⟩ := (hlaw _ rfl _ _ hexec).waited 1 rfl
  rw [Decimal.toRat_natCast] at hwaited
  norm_num at hwaited

end Jubs
