/-
**What a relay does with one outbox row.**

A relay reads rows back from the outbox of its client, prepares the job of each from the definition
it knows, and hands it to the driver under an id derived from the row.  A row it cannot deliver is
left behind with the reason.

Main definitions:

* `Jubs.ClaimedEnvelope`, `Jubs.RelayConfig` — a row, and what a relay is started with;
* `Jubs.outboxJobId` — the id of the job of a row;
* `Jubs.prepare`, `Jubs.deliver` — the request of a row, and its delivery;
* `Jubs.KeptJob`, `Jubs.KeepingDriver` — a job as a driver keeps it, and a driver that keeps its
  jobs.

Main results:

* `Jubs.outboxJobId_injective` — **two rows of one id are the rows of two outboxes**;
* `Jubs.prepare_eq_ok` — what a request carries of its row;
* `Jubs.KeepingDriver.deliver_cases` — **what a delivery does to a driver that keeps its jobs**.
-/

import Jubs.FlowStore
import Jubs.JobsOptions
import Jubs.Migration

set_option autoImplicit false

namespace Jubs

/-- One row of the outbox, as the relay reads it back. -/
structure ClaimedEnvelope where
  id : String
  envelope : Envelope

/-- What a relay reads of its configuration. -/
structure RelayConfig where
  definitions : Option (List JobDefinition)

/-! ### The id of a row's job -/

/-- Why a row with an empty id is refused. -/
def emptyRowIdError : Thrown :=
  plainError ("jubs: the outbox claimed a row with an empty id, and a job id cannot be derived " ++
    "from it — BullMQ would make an id up instead, the row would be marked delivered for a job " ++
    "nothing can name, and the next claim of that row would enqueue a second one. Give every " ++
    "row of your outbox table an id, and hand it back from `claim` as `id`.") none

/-- Why a row whose id carries a colon is refused. -/
def colonRowIdError (rowId : String) : Thrown :=
  plainError ("jubs: the outbox claimed the row \"" ++ rowId ++ "\", whose id carries a colon, " ++
    "and a job id cannot be derived from it — BullMQ refuses a custom id whose colons do not " ++
    "cut it in exactly three parts, and this library cuts a job id at its first colon to find " ++
    "the queue it is on. Name your rows with an id that holds no colon, a bigserial or a uuid.")
      none

/-- `outboxJobId(rowId)`. -/
def outboxJobId (rowId : String) : Except Thrown String :=
  if rowId.length = 0 then .error emptyRowIdError
  else if ':' ∈ rowId.toList then .error (colonRowIdError rowId)
  else .ok ("outbox-" ++ rowId)

theorem outboxJobId_eq_ok {rowId jobId : String} (h : outboxJobId rowId = .ok jobId) :
    jobId = "outbox-" ++ rowId := by
  unfold outboxJobId at h
  split_ifs at h
  exact (Except.ok.inj h).symm

/-- No driver takes the id of a row for an absent one. -/
theorem ne_empty_of_outboxJobId {rowId jobId : String} (h : outboxJobId rowId = .ok jobId) :
    jobId ≠ "" := by
  rw [outboxJobId_eq_ok h]
  intro hempty
  have htext := congrArg String.toList hempty
  simp at htext

/-- **The id of a job names one row id.** -/
theorem outboxJobId_injective {rowId rowId' jobId : String} (h : outboxJobId rowId = .ok jobId)
    (h' : outboxJobId rowId' = .ok jobId) : rowId = rowId' := by
  have heq := (outboxJobId_eq_ok h).symm.trans (outboxJobId_eq_ok h')
  have htext := congrArg String.toList heq
  rw [String.toList_append, String.toList_append] at htext
  exact String.toList_inj.1 (List.append_cancel_left htext)

/-! ### A row that is left behind -/

/-- Why the relay left a row behind. -/
inductive LeftBehindReason where
  | driverFailed
  | versionAhead
  | unrecoverable
deriving DecidableEq

/-- What is told of a row that was left behind. -/
structure LeftBehindEvent where
  rowId : String
  name : String
  reason : LeftBehindReason
  error : Thrown

/-- `leftBehindEvent(row, reason, failure)`.  The conversion of a failure that is no error may
itself throw. -/
def leftBehindEvent (row : ClaimedEnvelope) (reason : LeftBehindReason) (failure : Thrown) :
    Except Thrown LeftBehindEvent :=
  match failure with
  | .inl _ => .ok ⟨row.id, row.envelope.name, reason, failure⟩
  | .inr value =>
      match value.toText with
      | some text => .ok ⟨row.id, row.envelope.name, reason, plainError text none⟩
      | none => .error typeError

/-- `failure instanceof VersionAheadError ? "version_ahead" : "unrecoverable"`. -/
def leftBehindReason (failure : Thrown) : LeftBehindReason :=
  if failure.cls = some .versionAhead then .versionAhead else .unrecoverable

/-! ### Delivering a row -/

/-- Why a row whose definition is not registered is left behind. -/
def unknownRowError (claimed : ClaimedEnvelope) : Thrown :=
  plainError ("jubs: the outbox row \"" ++ claimed.id ++ "\" runs \"" ++ claimed.envelope.name ++
    "\", which this client does not know — register its definition in createJobs(\x7b " ++
    "definitions \x7d) on the client that starts the relay.") none

/-- Why a row whose definition waits on children is left behind. -/
def rowAwaitsError (claimed : ClaimedEnvelope) : Thrown :=
  plainError ("jubs: the outbox row \"" ++ claimed.id ++ "\" runs \"" ++ claimed.envelope.name ++
    "\", which waits on children, and a row holds one envelope and no tree — delivering it " ++
    "would enqueue that job with no children at all, and the first delivery would find its " ++
    "slots short and bury it. A flow is refused inside jobs.atomic(fn, \x7b tx \x7d) for that " ++
    "reason, so this row was written by something else: drop it, and enqueue the flow with " ++
    "jobs.enqueue(definition, data, awaits) outside the block.") none

/-- `definitionOf(config, claimed)`. -/
def definitionOf (config : RelayConfig) (claimed : ClaimedEnvelope) : Except Thrown JobDefinition :=
  match (config.definitions.getD []).find? fun candidate =>
      candidate.name = claimed.envelope.name with
  | none => .error (unknownRowError claimed)
  | some definition =>
      if 0 < (slotsOf definition).length then .error (rowAwaitsError claimed) else .ok definition

/-- The request of a row whose payload was migrated. -/
def requestOf (definition : JobDefinition) (claimed : ClaimedEnvelope) (migrated : Value) :
    Except Thrown EnqueueRequest := do
  let validated ← validatePayload definition migrated
  let delivery ← resolveDeliveryWithoutUniqueness definition validated
  let jobId ← outboxJobId claimed.id
  return ⟨definition.queue, claimed.envelope, delivery, some jobId⟩

/-- The request of a row: the first `try` block of `deliver`.  It never ends when the migration of
the row's payload never does. -/
def prepare (config : RelayConfig) (claimed : ClaimedEnvelope) : Answer Thrown EnqueueRequest :=
  match definitionOf config claimed with
  | .error failure => some (.error failure)
  | .ok definition =>
      (migrateEnvelope definition claimed.envelope).map fun r =>
      r.bind (requestOf definition claimed)

/-- `deliver(config, claimed)` over a driver: the event of a row that was left behind, and nothing
for a row that reached the queue. -/
def deliver {δ : Type} (enqueue : δ → EnqueueRequest → Except Thrown String × δ)
    (config : RelayConfig) (claimed : ClaimedEnvelope) (d : δ) :
    Option (Except Thrown (Option LeftBehindEvent) × δ) :=
  (prepare config claimed).map fun
    | .error failure => ((leftBehindEvent claimed (leftBehindReason failure) failure).map some, d)
    | .ok request =>
        match enqueue d request with
        | (.ok _, d') => (.ok none, d')
        | (.error failure, d') => ((leftBehindEvent claimed .driverFailed failure).map some, d')

/-- **What a request carries of its row**: the row's own envelope, and the id derived from it. -/
theorem prepare_eq_ok {config : RelayConfig} {claimed : ClaimedEnvelope} {request : EnqueueRequest}
    (h : prepare config claimed = some (.ok request)) : request.envelope = claimed.envelope ∧
      ∃ jobId, request.jobId = some jobId ∧ outboxJobId claimed.id = .ok jobId := by
  unfold prepare at h
  split at h
  · cases h
  · obtain ⟨answer, -, h⟩ := Option.map_eq_some_iff.1 h
    change (answer >>= _) = _ at h
    obtain ⟨migrated, -, h⟩ := bind_eq_ok.1 h
    obtain ⟨validated, -, h⟩ := bind_eq_ok.1 h
    obtain ⟨delivery, -, h⟩ := bind_eq_ok.1 h
    obtain ⟨jobId, hjobId, h⟩ := bind_eq_ok.1 h
    obtain rfl := Except.ok.inj h
    exact ⟨rfl, jobId, rfl, hjobId⟩

/-! ### Drivers that keep their jobs -/

/-- A job as a driver keeps it. -/
structure KeptJob where
  queue : String
  id : String
  envelope : Value

/-- Whether a job stands under an id on a queue. -/
def KeptJob.At (job : KeptJob) (queue id : String) : Prop := job.queue = queue ∧ job.id = id

/-- A driver that keeps the jobs it stored.  `φ` is how one call fares: it may be answered, and it
may fail whether or not it had stored the job.  Under an id the caller derived it stores the job, or
gives back the job that is there already.  A request it does not take is refused and stores
nothing. -/
structure KeepingDriver (δ φ : Type) where
  jobs : δ → List KeptJob
  takes : EnqueueRequest → Prop
  enqueue : φ → δ → EnqueueRequest → Except Thrown String × δ
  keeps : ∀ fate d request id, request.jobId = some id → id ≠ "" →
    (jobs (enqueue fate d request).2 = jobs d ∧
      ∀ answer, (enqueue fate d request).1 = .ok answer →
        takes request ∧ ∃ job ∈ jobs d, job.At request.queue id) ∨
    (takes request ∧ ∃ envelope, storedData request.envelope = some envelope ∧
      jobs (enqueue fate d request).2 = jobs d ++ [⟨request.queue, id, envelope⟩] ∧
      ∀ job ∈ jobs d, ¬ job.At request.queue id)

namespace KeepingDriver

variable {δ φ : Type} (K : KeepingDriver δ φ)

/-- What one delivery of a row did. -/
inductive Delivered (config : RelayConfig) (claimed : ClaimedEnvelope) (d d' : δ) :
    Except Thrown (Option LeftBehindEvent) → Prop where
  | kept {answer : Except Thrown (Option LeftBehindEvent)} (same : K.jobs d' = K.jobs d)
      (there : answer = .ok none → ∃ request jobId, prepare config claimed = some (.ok request) ∧
        K.takes request ∧ outboxJobId claimed.id = .ok jobId ∧ ∃ job ∈ K.jobs d,
          job.At request.queue jobId) :
      Delivered config claimed d d' answer
  | stored {answer : Except Thrown (Option LeftBehindEvent)} {request : EnqueueRequest}
      {jobId : String} {envelope : Value} (prepared : prepare config claimed = some (.ok request))
      (taken : K.takes request) (derived : outboxJobId claimed.id = .ok jobId)
      (projected : storedData claimed.envelope = some envelope)
      (added : K.jobs d' = K.jobs d ++ [⟨request.queue, jobId, envelope⟩])
      (new : ∀ job ∈ K.jobs d, ¬ job.At request.queue jobId) :
      Delivered config claimed d d' answer

theorem map_some_ne_ok_none (event : Except Thrown LeftBehindEvent) :
    event.map some ≠ .ok none := by
  cases event <;> simp [Except.map]

/-- **What a delivery does to a driver that keeps its jobs.**  It stores the row's own envelope
under the row's id, or nothing at all; and a row that is not left behind stands under its id. -/
theorem deliver_cases {fate : φ} {config : RelayConfig} {claimed : ClaimedEnvelope} {d d₁ : δ}
    {answer : Except Thrown (Option LeftBehindEvent)}
    (h : deliver (K.enqueue fate) config claimed d = some (answer, d₁)) :
    K.Delivered config claimed d d₁ answer := by
  obtain ⟨prepared, hprepare, h⟩ := Option.map_eq_some_iff.1 h
  cases prepared with
  | error failure =>
      cases h
      exact .kept rfl fun hnone => absurd hnone (map_some_ne_ok_none _)
  | ok request =>
      obtain ⟨henvelope, jobId, hjobId, hderived⟩ := prepare_eq_ok hprepare
      have hkeeps := K.keeps fate d request jobId hjobId (ne_empty_of_outboxJobId hderived)
      rcases hcall : K.enqueue fate d request with ⟨called, d'⟩
      rw [hcall] at hkeeps
      simp only [hcall] at h
      rcases hkeeps with ⟨hsame, hthere⟩ | ⟨htakes, envelope, hstored, hadded, hnew⟩
      · cases called with
        | ok id =>
            cases h
            obtain ⟨htakes, job, hjob, hat⟩ := hthere id rfl
            exact .kept hsame fun _ =>
              ⟨request, jobId, hprepare, htakes, hderived, job, hjob, hat⟩
        | error failure =>
            cases h
            exact .kept hsame fun hnone => absurd hnone (map_some_ne_ok_none _)
      · rw [henvelope] at hstored
        cases called with
        | ok id =>
            cases h
            exact .stored hprepare htakes hderived hstored hadded hnew
        | error failure =>
            cases h
            exact .stored hprepare htakes hderived hstored hadded hnew

end KeepingDriver

/-- Such a driver that does answer: there is a way a call fares in which it answers every request it
takes, when the envelope can be stored. -/
structure AnsweringDriver (δ φ : Type) extends KeepingDriver δ φ where
  reliable : φ
  answers : ∀ d request, takes request → (storedData request.envelope).isSome = true →
    ∃ id, (enqueue reliable d request).1 = .ok id

end Jubs
