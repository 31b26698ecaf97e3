/-
**The template a schedule stores.**

A definition with a schedule is declared again at every start: its payload is validated, its
delivery resolved without uniqueness, and the driver keeps a template that enqueues the job on every
tick.

Main definitions:

* `Jubs.Recurrence`, `Jubs.Schedule` — when a job recurs, and with what payload;
* `Jubs.ScheduleUpsert`, `Jubs.scheduleUpsert` — what the driver is declared of one schedule.

Main results:

* `Jubs.scheduleUpsert_eq_ok_iff` — **when a schedule is declared, and as what**.
-/

import Jubs.JobsOptions

set_option autoImplicit false

namespace Jubs

/-- When a job recurs: after an interval, or by a pattern. -/
inductive Recurrence where
  | everyMs (ms : Number)
  | pattern (text : String)

/-- The schedule of a definition. -/
structure Schedule where
  recurrence : Recurrence
  timezone : Option String
  data : Value

/-- What the driver is declared of one schedule. -/
structure ScheduleUpsert where
  recurrence : Recurrence
  timezone : Option String
  envelope : Envelope
  delivery : Delivery

/-- The timezone of a pattern when neither the schedule nor the client declares one. -/
def defaultTimezone : String := "UTC"

/-- What a schedule is refused with whose payload the schema refuses.  The text of what the schema
threw may be missing, when it cannot be converted. -/
def schedulePayloadError (definition : JobDefinition) (error : Thrown) : Thrown :=
  match error.messageValue.toText with
  | some reason => plainError ("jubs: the schedule of the job \"" ++ definition.name ++
      "\" carries no payload its schema accepts — a scheduled job has no producer to pass one, " ++
      "so give the schedule its own `data`, as in every(\"5 minutes\", \x7b data: \x7b ... " ++
      "\x7d \x7d) — " ++ reason) (some error)
  | none => typeError

/-- What a schedule is refused with whose delivery declares `delayMs`. -/
def scheduledDelayError (definition : JobDefinition) : Thrown :=
  plainError ("jubs: the job \"" ++ definition.name ++ "\" has a schedule and a delivery " ++
    "`delayMs` — a delay postpones one enqueue, which a recurrence has no place for, so drop " ++
    "`delayMs` from its delivery") none

/-- The timezone of a schedule, where `timezone` is the one of the client. -/
def Schedule.zone (schedule : Schedule) (timezone : Option String) : Option String :=
  match schedule.recurrence with
  | .everyMs _ => none
  | .pattern _ => some ((schedule.timezone.or timezone).getD defaultTimezone)

/-- `scheduleUpsert(config, definition, schedule)`, where `timezone` is the one of the
configuration. -/
def scheduleUpsert (timezone : Option String) (definition : JobDefinition) (schedule : Schedule) :
    Except Thrown ScheduleUpsert := do
  let data ← (validatePayload definition schedule.data).mapError (schedulePayloadError definition)
  let delivery ← resolveDeliveryWithoutUniqueness definition data
  if delivery.delayMs.isSome then throw (scheduledDelayError definition)
  return ⟨schedule.recurrence, schedule.zone timezone,
    writeEnvelope definition schedule.data .schedule, delivery⟩

/-- **When a schedule is declared, and as what**: its payload passes its schema, and its delivery
declares no delay. -/
theorem scheduleUpsert_eq_ok_iff {timezone : Option String} {definition : JobDefinition}
    {schedule : Schedule} {upsert : ScheduleUpsert} :
    scheduleUpsert timezone definition schedule = .ok upsert ↔
      ∃ data delivery, validatePayload definition schedule.data = .ok data ∧
        resolveDeliveryWithoutUniqueness definition data = .ok delivery ∧ delivery.delayMs = none ∧
        upsert = ⟨schedule.recurrence, schedule.zone timezone,
          writeEnvelope definition schedule.data .schedule, delivery⟩ := by
  constructor
  · intro h
    obtain ⟨data, hdata, h⟩ := bind_eq_ok.1 h
    obtain ⟨delivery, hdelivery, h⟩ := bind_eq_ok.1 h
    have hdata : validatePayload definition schedule.data = .ok data := by
      cases hvalid : validatePayload definition schedule.data with
      | error e => simp [hvalid, Except.mapError] at hdata
      | ok v => simpa [hvalid, Except.mapError] using hdata
    cases hdelay : delivery.delayMs with
    | some delayMs => simp [hdelay, bind, Except.bind, throw, throwThe, MonadExceptOf.throw] at h
    | none =>
        simp only [hdelay] at h
        exact ⟨data, delivery, hdata, hdelivery, hdelay, (Except.ok.inj h).symm⟩
  · rintro ⟨data, delivery, hdata, hdelivery, hdelay, rfl⟩
    simp [scheduleUpsert, hdata, hdelivery, hdelay, Except.mapError, bind, Except.bind, pure,
      Except.pure]

end Jubs
