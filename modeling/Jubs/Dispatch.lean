/-
**One delivery: its dispatch, its hooks, and its burial.**

A delivery reads its envelope, finds its handler, migrates and validates its payload, reads its
children, and runs the handler under its idempotency key.  Whatever the dispatch fails with is
reported to the hooks and, when the job is finished with, buried; three refusals leave unreported.

Code outside the library (handlers, hooks, schemas, stores) answers with a value, with an error, or
never.

Main definitions:

* `Jubs.JobsConfig`, `Jubs.JobHandler`, `Jubs.JobDelivery` — what a delivery runs on;
* `Jubs.Notice` — what is noticed of a delivery: the hooks it fires, and the burials it asks for;
* `Jubs.dispatch`, `Jubs.report`, `Jubs.runOn` — the source's own three steps;
* `Jubs.burialFor`, `Jubs.willRetry` — what buries a job, and when BullMQ runs it again.

Main results:

* `Jubs.burialFor_of_finished`, `Jubs.burialFor_of_retried` — **a job is buried exactly when it will
  not run again**.
-/

import Jubs.Abort
import Jubs.Children
import Jubs.Idempotency
import Jubs.JobId
import Jubs.Migration

set_option autoImplicit false

namespace Jubs

/-! ### Deliveries, hooks and burials -/

/-- What a driver hands to the runtime. -/
structure JobDelivery where
  id : String
  attemptsStarted : ℕ
  attempt : Number
  maxAttempts : Number
  envelope : Value

/-- What a hook is told about a job. -/
structure JobEvent where
  name : String
  queue : String
  id : String
  attempt : Number
  origin : Origin

/-- What a hook is told about a failure. -/
structure JobFailureEvent extends JobEvent where
  error : SerializedError

/-- Why a job was buried, and what that reason carries with it. -/
inductive Burial where
  | attemptsExhausted
  | unrecoverable
  | versionAhead
  | cancelled
  | childDead (children : List ChildResult)
  | childrenShort

/-- The record of a burial. -/
structure DeadEntry where
  jobId : String
  envelope : Envelope
  error : SerializedError
  burial : Burial

/-- What is noticed of a delivery, in the order it happens. -/
inductive Notice where
  | onStart (event : JobEvent)
  | onSuccess (event : JobEvent)
  | onAttemptFailed (event : JobFailureEvent)
  | onDead (event : JobFailureEvent)
  /-- The dead store is asked to keep a record. -/
  | bury (queue : String) (entry : DeadEntry)

/-- The hooks of a configuration, each with what it answers. -/
structure JobHooks where
  onStart : Option (JobEvent → Answer Thrown Unit)
  onSuccess : Option (JobEvent → Answer Thrown Unit)
  onAttemptFailed : Option (JobFailureEvent → Answer Thrown Unit)
  onDead : Option (JobFailureEvent → Answer Thrown Unit)

/-- What the driver answers while a delivery runs. -/
structure JobDriver where
  acquire : String → Answer Thrown IdempotencyLease
  complete : String → String → KeptResult → Answer Thrown Unit
  release : String → String → Answer Thrown Unit
  read : String → String → Answer Thrown FlowState
  bury : String → DeadEntry → Answer Thrown Unit

/-- What a delivery reads of the configuration. -/
structure JobsConfig where
  driver : JobDriver
  hooks : JobHooks
  deadQueues : List String

/-! ### Handlers -/

/-- What aborts a signal besides its timeout. -/
inductive Interruption where
  | cancelled
  | shutdown
deriving DecidableEq

/-- The reason the runtime aborts a signal with. -/
def Interruption.reason (name : String) : Interruption → Thrown
  | .cancelled => cancelledError name none
  | .shutdown => shutdownAbortError name none

/-- What happens while a handler's body runs: what the body settles with, whether the timer of
`timeoutMs` fires before it settles, and what aborted the signal before either. -/
structure Execution where
  settles : Answer Raised Value
  expires : Bool
  interrupted : Option Interruption

/-- What a handler is called with beside its payload.  Its signal is seen through what the
execution says of it. -/
structure HandlerContext where
  id : String
  attempt : Number
  maxAttempts : Number
  origin : Origin
  children : List (String × Value)

/-- A definition and the code that runs it. -/
structure JobHandler where
  definition : JobDefinition
  run : Value → HandlerContext → Execution

/-- The error of a timer that fires in an execution. -/
def Execution.expired (definition : JobDefinition) (execution : Execution) : Option Thrown :=
  definition.timeoutMs.bind fun timeoutMs =>
    if execution.expires then some (handlerTimeoutError definition.name timeoutMs) else none

/-- `runUnderTimeout(definition, controller, run)`, with the result of the body validated. -/
def runUnderTimeout (definition : JobDefinition) (execution : Execution) : Answer Raised Value :=
  match execution.expired definition with
  | some expired => some (.error ⟨expired, execution.interrupted.isNone⟩)
  | none => execution.settles.map fun outcome => outcome >>= checkedResult definition

/-- `controller.signal.reason`, once the run of a handler has settled. -/
def signalReason (definition : JobDefinition) (name : String) (execution : Execution) :
    Option Thrown :=
  let interrupted := execution.interrupted.map (Interruption.reason name)
  match execution.expired definition with
  | some expired => abort expired interrupted
  | none => interrupted

/-- The `run` of a dispatch. -/
def runHandler {ω : Type} (handler : JobHandler) (name : String) (data : Value)
    (context : HandlerContext) : Effect ω Thrown Value :=
  let execution := handler.run data context
  let reason := signalReason handler.definition name execution
  Effect.await ((runUnderTimeout handler.definition execution).map fun outcome =>
    outcome.mapError (abortedWith name reason))

/-! ### Running under a key -/

/-- What a delivery does with its lease once its run has settled.  The interval that renews the
lease, and what follows a body that outlived its delivery, show nothing of themselves here. -/
def settleLease {ω : Type} (driver : JobDriver) (key token : String) :
    Except Thrown Value → Effect ω Thrown Value
  | .ok result => do
      Effect.await (driver.complete key token (keptResultOf result))
      return result
  | .error error =>
      match stillRunning error with
      | some _ => Effect.fail error
      | none => do
          Effect.await (driver.release key token)
          Effect.fail error

/-- What a delivery does with the lease it was answered. -/
def underLease {ω : Type} (driver : JobDriver) (key : String) (run : Effect ω Thrown Value) :
    IdempotencyLease → Effect ω Thrown Value
  | .held => Effect.fail (leaseHeldError key)
  | .complete kept => pure (kept.get "result")
  | .acquired token => do
      let outcome ← run.attempt
      settleLease driver key token outcome

/-- `runUnderKey(store, key, run)`. -/
def runUnderKey {ω : Type} (driver : JobDriver) (key : String) (run : Effect ω Thrown Value) :
    Effect ω Thrown Value := do
  let lease ← Effect.await (driver.acquire key)
  underLease driver key run lease

/-! ### The dispatch -/

/-- `notify(hook, name, event)`.  What a hook throws is dropped. -/
def notify {Event : Type} (hook : Option (Event → Answer Thrown Unit)) (fired : Event → Notice)
    (event : Event) : Effect Notice Thrown Unit :=
  match hook with
  | none => pure ()
  | some answer => do
      Effect.emit (fired event)
      (Effect.await (answer event)).onError fun _ => pure ()

/-- `byName.get(envelope.name)`, or the refusal of a job nothing runs. -/
def handlerFor (handlers : List JobHandler) (envelope : Envelope) : Except Thrown JobHandler :=
  match handlers.find? fun handler => handler.definition.name = envelope.name with
  | some handler => .ok handler
  | none => .error (unrecoverable (plainError
      ("jubs: no handler is registered for job \"" ++ envelope.name ++ "\"") none))

/-- What a dispatch makes of an error of its children. -/
def childrenRefusal (error : Thrown) : Thrown :=
  if error.isInternal ∨ error.cls = some .result then unrecoverable error else error

/-- What a dispatch does between its two hooks. -/
def work {ω : Type} (config : JobsConfig) (handler : JobHandler) (envelope : Envelope)
    (event : JobEvent) (delivery : JobDelivery) : Effect ω Thrown Value := do
  let migrated ← Effect.await
    ((migrateEnvelope handler.definition envelope).map fun r => r.mapError unrecoverable)
  let data ← Effect.ofExcept ((validatePayload handler.definition migrated).mapError unrecoverable)
  let children ← (childrenFor (config.driver.read event.queue delivery.id) handler.definition
    envelope).onError fun error => Effect.fail (childrenRefusal error)
  let context : HandlerContext :=
    ⟨event.id, delivery.attempt, delivery.maxAttempts, envelope.origin, children⟩
  let key ← Effect.ofExcept (idempotencyKeyFor handler.definition data)
  match key with
  | some key => runUnderKey config.driver key (runHandler handler envelope.name data context)
  | none => runHandler handler envelope.name data context

/-- `dispatch(envelope, event, delivery)`. -/
def dispatch (config : JobsConfig) (handlers : List JobHandler) (envelope : Envelope)
    (event : JobEvent) (delivery : JobDelivery) : Effect Notice Thrown Value := do
  let handler ← Effect.ofExcept (handlerFor handlers envelope)
  Effect.ofExcept (assertVersionIsKnown handler.definition envelope)
  notify config.hooks.onStart .onStart event
  let result ← work config handler envelope event delivery
  notify config.hooks.onSuccess .onSuccess event
  return result

/-! ### The report -/

/-- `raised(error)`. -/
def raised : Thrown → Thrown
  | .inl error =>
      if error.cls.isUnrecoverable then error.cause.getD (.inl error) else .inl error
  | .inr value => .inr value

/-- `childDead(error)`: what the children of a `ChildDeadError` returned. -/
def childDead (error : Thrown) : Option (List ChildResult) :=
  match raised error with
  | .inl cause => if cause.cls = .childDead then some cause.results else none
  | .inr _ => none

/-- `burialFor(delivery, error)`. -/
def burialFor (delivery : JobDelivery) (error : Thrown) : Option Burial :=
  if error.cls = some .cancelled then some .cancelled
  else if error.cls = some .versionAhead then some .versionAhead
  else
    match childDead error with
    | some children => some (.childDead children)
    | none =>
        if (raised error).cls = some .childrenShort then some .childrenShort
        else if error.isUnrecoverable then some .unrecoverable
        else if delivery.maxAttempts.le delivery.attempt then some .attemptsExhausted
        else none

/-- Whether BullMQ runs a job again after an attempt of it failed with `error`. -/
def willRetry (delivery : JobDelivery) (error : Thrown) : Bool :=
  !error.isUnrecoverable && !delivery.maxAttempts.le delivery.attempt

/-- The dead store is asked to keep a record when the queue is opted in.  What it refuses with is
dropped. -/
def bury (config : JobsConfig) (queue : String) (entry : DeadEntry) :
    Effect Notice Thrown Unit :=
  if queue ∈ config.deadQueues then do
    Effect.emit (.bury queue entry)
    (Effect.await (config.driver.bury queue entry)).onError fun _ => pure ()
  else pure ()

/-- What follows the first hook of a failure: nothing, or the burial that finishes the job off. -/
def finishOff (config : JobsConfig) (envelope : Envelope) (failure : JobFailureEvent) :
    Option Burial → Effect Notice Thrown Unit
  | none => pure ()
  | some burial => do
      bury config failure.queue ⟨failure.id, envelope, failure.error, burial⟩
      notify config.hooks.onDead .onDead failure

/-- `report(envelope, event, delivery, error)`. -/
def report (config : JobsConfig) (envelope : Envelope) (event : JobEvent) (delivery : JobDelivery)
    (error : Thrown) : Effect Notice Thrown Unit := do
  let serialized ← Effect.ofExcept ((serializeError error).elim (.error typeError) .ok)
  let failure : JobFailureEvent := { event with error := serialized }
  notify config.hooks.onAttemptFailed .onAttemptFailed failure
  finishOff config envelope failure (burialFor delivery error)

/-- The event of a delivery. -/
def eventOf (queue : String) (envelope : Envelope) (delivery : JobDelivery) : JobEvent where
  name := envelope.name
  queue := queue
  id := composeJobId queue delivery.id
  attempt := delivery.attempt
  origin := envelope.origin

/-- `envelopeOf(delivery)`. -/
def envelopeOf (delivery : JobDelivery) : Except Thrown Envelope :=
  (readEnvelope delivery.envelope).mapError unrecoverable

/-- The `catch` of `runOn`: the three refusals that end no attempt leave unreported. -/
def rejectWith (config : JobsConfig) (envelope : Envelope) (event : JobEvent)
    (delivery : JobDelivery) (error : Thrown) : Effect Notice Thrown Value :=
  if error.isPostponement then Effect.fail error
  else do
    report config envelope event delivery error
    Effect.fail error

/-- `runOn(queue)`. -/
def runOn (config : JobsConfig) (handlers : List JobHandler) (queue : String)
    (delivery : JobDelivery) : Effect Notice Thrown Value := do
  let envelope ← Effect.ofExcept (envelopeOf delivery)
  let event := eventOf queue envelope delivery
  (dispatch config handlers envelope event delivery).onError
    (rejectWith config envelope event delivery)

/-! ### When a job is buried -/

theorem burialFor_of_unrecoverable {delivery : JobDelivery} {error : Thrown}
    (h : error.isUnrecoverable = true) : (burialFor delivery error).isSome = true := by
  unfold burialFor
  cases childDead error with
  | none => split_ifs <;> rfl
  | some children => split_ifs <;> rfl

/-- A job that will not run again is buried. -/
theorem burialFor_of_finished {delivery : JobDelivery} {error : Thrown}
    (h : willRetry delivery error = false) : (burialFor delivery error).isSome = true := by
  cases hun : error.isUnrecoverable with
  | true => exact burialFor_of_unrecoverable hun
  | false =>
      have hattempt : delivery.maxAttempts.le delivery.attempt = true := by
        simpa [willRetry, hun] using h
      unfold burialFor
      cases childDead error with
      | none => split_ifs <;> rfl
      | some children => split_ifs <;> rfl

/-- An error that no class inside the package has. -/
abbrev Reportable (error : Thrown) : Prop := error.isInternal = false

/-- A job that will run again is not buried, unless its error has a class inside the package and
was not wrapped. -/
theorem burialFor_of_retried {delivery : JobDelivery} {error : Thrown}
    (h : willRetry delivery error = true) (hinternal : Reportable error) :
    burialFor delivery error = none := by
  obtain ⟨hun, hattempt⟩ : error.isUnrecoverable = false ∧
      delivery.maxAttempts.le delivery.attempt = false := by
    simpa [willRetry] using h
  rcases error with e | v
  · have hun : e.cls.isUnrecoverable = false := hun
    have hin : e.cls.isInternal = false := hinternal
    -- An error that is not unrecoverable is read as it is, not through its cause.
    have hraised : raised (.inl e) = .inl e := by simp [raised, hun]
    have hdead : childDead (.inl e) = none := by
      have hcls : e.cls ≠ .childDead := by
        intro hcls
        simp [hcls, ErrorClass.isInternal] at hin
      simp [childDead, hraised, hcls]
    cases hcls : e.cls <;>
      simp_all [burialFor, Thrown.cls, Thrown.isUnrecoverable, ErrorClass.isUnrecoverable,
        ErrorClass.isInternal]
  · simp [burialFor, Thrown.cls, childDead, raised, Thrown.isUnrecoverable, hattempt]

end Jubs
