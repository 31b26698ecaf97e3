/-
**The payload a delivery validates.**

`jobs.enqueue` validates the value it is given and stores the value itself; the delivery validates
what JSON kept of it.  A schema is code of the caller, so nothing makes it accept the one because it
accepted the other.

Main definitions:

* `Jubs.HeldJob.envelope` — the envelope an enqueue hands over;
* `Jubs.projection` — what a delivery reads of a stored payload;
* `Jubs.runOverData` — a delivery, once its payload is validated.

Main results:

* `Jubs.heldJob_eq_ok` — what an accepted enqueue was validated by, and is written as;
* `Jubs.delivery_validates` — **the delivery of an accepted job validates the projection of its
  payload**, and nothing else;
* `Jubs.date_refused` — an accepted payload whose delivery is refused.
-/

import Jubs.Atomic
import Jubs.Dispatch
import Jubs.EnvelopeReads

set_option autoImplicit false

namespace Jubs

/-- The envelope an enqueue hands over: the one of its request, or of the root of its tree. -/
def HeldJob.envelope : HeldJob → Envelope
  | .direct request => request.envelope
  | .flow _ root => root.envelope

/-- What a delivery reads of a payload that was stored: what JSON kept of it, and `undefined` when
JSON left it out. -/
def projection (data : Value) : Value := data.stored.getD .undefined

/-- What a delivery does once its payload is validated. -/
def runOverData {ω : Type} (config : JobsConfig) (handler : JobHandler) (envelope : Envelope)
    (event : JobEvent) (delivery : JobDelivery) (data : Value) : Effect ω Thrown Value := do
  let children ← (childrenFor (config.driver.read event.queue delivery.id) handler.definition
    envelope).onError fun error => Effect.fail (childrenRefusal error)
  let context : HandlerContext :=
    ⟨event.id, delivery.attempt, delivery.maxAttempts, envelope.origin, children⟩
  let key ← Effect.ofExcept (idempotencyKeyFor handler.definition data)
  match key with
  | some key => runUnderKey config.driver key (runHandler handler envelope.name data context)
  | none => runHandler handler envelope.name data context

section

variable {definition : JobDefinition} {data awaits : Value} {job : HeldJob}

/-- **What an accepted enqueue was validated by, and is written as.** -/
theorem heldJob_eq_ok (h : heldJob definition data awaits = .ok job) :
    (∃ validated, validatePayload definition data = .ok validated) ∧
      job.envelope.v = payloadVersion definition ∧ job.envelope.name = definition.name ∧
      job.envelope.data = data ∧
      ∀ slots ∈ job.envelope.slots, ∀ p ∈ slots, p.2.isInteger = true := by
  unfold heldJob at h
  split at h
  · cases hrequest : directRequest definition data with
    | error e => simp [hrequest, Functor.map, Except.map] at h
    | ok request =>
        obtain ⟨validated, hvalidated, hrest⟩ := bind_eq_ok.1 hrequest
        obtain ⟨delivery, -, hrest⟩ := bind_eq_ok.1 hrest
        obtain rfl := Except.ok.inj hrest
        rw [hrequest] at h
        obtain rfl := Except.ok.inj h
        refine ⟨⟨validated, hvalidated⟩, rfl, rfl, rfl, ?_⟩
        rintro slots ⟨⟩
  · cases htree : composeFlow definition data awaits with
    | error e => simp [htree, Functor.map, Except.map] at h
    | ok root =>
        obtain ⟨filled, validated, delivery, composing, -, hvalidated, -, -, -, rfl⟩ :=
          composeFlow_eq_ok_iff.1 htree
        rw [htree] at h
        obtain rfl := Except.ok.inj h
        refine ⟨⟨validated, hvalidated⟩, rfl, rfl, rfl, ?_⟩
        intro slots hslots p hp
        by_cases hcomposing : composing = []
        · simp [HeldJob.envelope, composedNode, hcomposing] at hslots
        · simp only [HeldJob.envelope, composedNode, if_neg hcomposing,
            Option.mem_some_iff] at hslots
          obtain rfl := hslots
          obtain ⟨composed, -, rfl⟩ := List.mem_map.1 hp
          rfl

/-- A delivery whose payload is not migrated validates what is stored of it, and fails for good when
its schema refuses. -/
theorem work_of_current {ω : Type} {config : JobsConfig} {handler : JobHandler}
    {envelope : Envelope} {event : JobEvent} {delivery : JobDelivery} {stored : Value}
    (hmigrated : migrateEnvelope handler.definition envelope = some (.ok stored)) :
    (work config handler envelope event delivery : Effect ω Thrown Value) =
      match validatePayload handler.definition stored with
      | .ok data => runOverData config handler envelope event delivery data
      | .error error => Effect.fail (unrecoverable error) := by
  rw [work, hmigrated]
  change (Effect.ofExcept (.ok stored) >>= _) = _
  rw [Effect.ofExcept_ok_bind]
  cases validatePayload handler.definition stored with
  | ok data => exact Effect.ofExcept_ok_bind data _
  | error error => rfl

/-- **The delivery of an accepted job validates the projection of its payload, and nothing else.**
No version is refused and no migration runs; the delivery goes on when the schema accepts the
projection, and fails for good when it does not; and where JSON gives the payload back as it was,
the schema that accepted it at the call accepts it again. -/
theorem delivery_validates {stored : Value} (hdefined : defineJob definition = .ok definition)
    (hname : definition.name ≠ "") (hjob : heldJob definition data awaits = .ok job)
    (hstored : storedData job.envelope = some stored) :
    ∃ envelope, readEnvelope stored = .ok envelope ∧ envelope.name = definition.name ∧
      assertVersionIsKnown definition envelope = .ok () ∧
      (∀ (config : JobsConfig) (handler : JobHandler) (event : JobEvent) (delivery : JobDelivery),
        handler.definition = definition →
        (work config handler envelope event delivery : Effect Notice Thrown Value) =
          match validatePayload definition (projection data) with
          | .ok data => runOverData config handler envelope event delivery data
          | .error error => Effect.fail (unrecoverable error)) ∧
      (projection data = data →
        ∃ validated, validatePayload definition (projection data) = .ok validated) := by
  obtain ⟨hvalidated, hv, hjobName, hdata, hwhole⟩ := heldJob_eq_ok hjob
  obtain ⟨d, hversion⟩ := payloadVersion_finite hdefined
  have hread := readEnvelope_toValue (hv.trans hversion) (by rw [hjobName]; exact hname)
    hwhole hstored
  have hmigrated : migrateEnvelope definition { job.envelope with
      data := job.envelope.data.stored.getD .undefined
      slots := job.envelope.slots.map assigned } = some (.ok (projection data)) := by
    rw [projection, ← hdata]
    exact migrateEnvelope_current (hv.trans hversion) hversion
  refine ⟨_, hread, hjobName, ?_, ?_, ?_⟩
  · have hle : Number.le (.finite d) (.finite d) = true := Number.le_refl Number.noConfusion
    have hle' : Number.le job.envelope.v (payloadVersion definition) = true := by
      rwa [hv, hversion]
    exact if_pos hle'
  · rintro config handler event delivery rfl
    exact work_of_current hmigrated
  · intro hsame
    rwa [hsame]

end

/-! ### A date -/

/-- A date, which is stored as text. -/
def aDate : Value := .other (some "Thu Jan 01 2026") (some (some (.str "2026-01-01T00:00:00.000Z")))

/-- A schema of dates. -/
def dateSchema : Schema where
  validate
    | .other text json => .ok (.value (.other text json))
    | _ => .ok (.issues [⟨[], "must be a Date"⟩])

/-- A job whose payload is a date. -/
def datedJob : JobDefinition := { lineJob with payload := dateSchema }

/-- A job of a line, whose payload is a text, is delivered with that text. -/
theorem delivery_validates_example : ∃ envelope,
    readEnvelope (writeEnvelope lineJob (.str "7") .direct).toValue = .ok envelope ∧
      ∃ validated, validatePayload lineJob (projection (.str "7")) = .ok validated := by
  obtain ⟨envelope, hread, -, -, -, hsame⟩ := @delivery_validates lineJob (.str "7") .undefined
    (.direct ⟨"mail", writeEnvelope lineJob (.str "7") .direct, deliveryDefaults, none⟩) _
    (defineJob_plain rfl rfl rfl rfl) (by decide) rfl rfl
  exact ⟨envelope, hread, hsame rfl⟩

/-- **An accepted payload whose delivery is refused**: the date is accepted at the call, stored as
its text, and its first delivery of five fails for good. -/
theorem date_refused : ∃ request stored envelope error,
    heldJob datedJob aDate .undefined = .ok (.direct request) ∧
      storedData request.envelope = some stored ∧ readEnvelope stored = .ok envelope ∧
      envelope.data = .str "2026-01-01T00:00:00.000Z" ∧
      validatePayload datedJob envelope.data = .error error ∧
      ∀ (config : JobsConfig) (event : JobEvent) (delivery : JobDelivery),
        (work config ⟨datedJob, fun _ _ => ⟨none, false, none⟩⟩ envelope event delivery :
          Effect Notice Thrown Value) = Effect.fail (unrecoverable error) ∧
        willRetry delivery (unrecoverable error) = false := by
  refine ⟨_, _, _, _, rfl, rfl, rfl, rfl, rfl, ?_⟩
  intro config event delivery
  refine ⟨?_, rfl⟩
  rw [work_of_current (migrateEnvelope_current rfl rfl)]
  rfl

end Jubs
