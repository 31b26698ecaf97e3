/-
**The replay of a dead record, among deliveries of its idempotency key.**

A replay reads the record, plans what to enqueue, forgets the idempotency key of its payload,
enqueues the buried envelope and drops the record: three effects on two stores and a queue, with
refusals before them.  Other replays, discards and the deliveries of the same key act in between,
and every call to the driver may fail, before or after it took effect.

Main definitions:

* `Jubs.BuriedRecord`, `Jubs.ReplayPlan`, `Jubs.planReplay` — a dead record, and what a replay of it
  decides before its first effect;
* `Jubs.CallFate` — what becomes of a call to the driver;
* `Jubs.ReplayStage`, `Jubs.replayStep` — one replay, step by step;
* `Jubs.ReplayRun`, `Jubs.replayRun` — the record, its replays, and the deliveries of the key as one
  machine.

Main results:

* `Jubs.ReplayPlan.request_eq_ok` — **a replay enqueues the envelope that was buried**;
* `Jubs.Driver.view_complete` — which calls record a result, on either driver.
-/

import Jubs.ClientIds
import Jubs.Delivery
import Jubs.JobsOptions
import Jubs.LeaseRuns
import Jubs.Migration

set_option autoImplicit false

namespace Jubs

/-! ### What a replay decides -/

/-- A dead record: the live queue whose dead queue keeps it, its stored id, and the entry. -/
structure BuriedRecord where
  queue : QueueName
  storedId : String
  entry : DeadEntry

/-- The id the record is listed under. -/
def BuriedRecord.id (record : BuriedRecord) : String := listedId record.queue.name record.storedId

/-- What a replay knows when it has refused nothing: the definition, the payload it validated, and
the idempotency key of that payload, `none` when the definition declares none. -/
structure ReplayPlan where
  definition : JobDefinition
  validated : Value
  key : Option String

namespace BuriedRecord

variable (record : BuriedRecord)

def atomicReplayError : Thrown :=
  plainError ("jubs: jobs.dead.replay(\"" ++ record.id ++ "\") was called inside an atomic " ++
    "block, and a replay is not one enqueue — it forgets the payload's idempotency key, " ++
    "enqueues the job and drops the dead record, and those three never become one act. Holding " ++
    "only the last two would let a block that then failed leave the key forgotten with nothing " ++
    "enqueued, and the record listed for a second replay of the same job. Replay outside the " ++
    "block.") none

def flowReplayError : Thrown :=
  plainError ("jubs: the dead job \"" ++ record.id ++ "\" is part of a flow, and replaying it " ++
    "would enqueue \"" ++ record.entry.envelope.name ++ "\" with no children at all — it would " ++
    "run over an empty result set and complete green. Put the flow back together instead: " ++
    "jobs.retry(id) on each child that failed, which returns it to its parent's dependencies, " ++
    "then jobs.retry(\"" ++ record.entry.jobId ++ "\") on the parent. The ids of the children " ++
    "that failed are named in this entry's error. Both dead records stay where they are — drop " ++
    "them with jobs.dead.discard(id).") none

def unknownReplayError : Thrown :=
  plainError ("jubs: the dead job \"" ++ record.id ++ "\" runs \"" ++ record.entry.envelope.name ++
    "\", which this client does not know — register its definition in createJobs(\x7b " ++
    "definitions \x7d) to replay it") none

def awaitsReplayError : Thrown :=
  plainError ("jubs: the dead job \"" ++ record.id ++ "\" runs \"" ++ record.entry.envelope.name ++
    "\", which waits on children, and replaying it would enqueue that job alone, with no " ++
    "children at all — the first delivery would find its slots short and bury it again with the " ++
    "reason children_short. Enqueue the flow again with jobs.enqueue(definition, data, awaits), " ++
    "which builds the whole flow. This dead record stays where it is — drop it with " ++
    "jobs.dead.discard(id).") none

def heldReplayError : Thrown :=
  plainError ("jubs: the dead job \"" ++ record.id ++ "\" runs \"" ++ record.entry.envelope.name ++
    "\", whose idempotency key is held by a delivery running right now — the body that outlived " ++
    "this job's last attempt is still going, and it completes that key with its own result when " ++
    "it returns. Replaying now would enqueue a job that meets the held key and is rescheduled, " ++
    "and the delivery after that would hand back the kept result without ever calling the " ++
    "handler: green, with nothing run. This dead record stays where it is — replay it again " ++
    "once that body has ended.") none

end BuriedRecord

/-- What a replay makes of a payload that was migrated: its schema, and `idempotencyKeyFor`. -/
def planOf (definition : JobDefinition) (migrated : Value) : Except Thrown ReplayPlan := do
  let validated ← validatePayload definition migrated
  let key ← idempotencyKeyFor definition validated
  return ⟨definition, validated, key⟩

/-- What a replay decides about the record it read: the checks of `replay`, the migrations and the
schema of the payload, and `idempotencyKeyFor`.  It never decides when the migration never ends. -/
def planReplay (definitions : List JobDefinition) (record : BuriedRecord) :
    Answer Thrown ReplayPlan :=
  let envelope := record.entry.envelope
  if envelope.origin = .flow then some (.error record.flowReplayError)
  else
    match definitions.find? fun candidate => candidate.name = envelope.name with
    | none => some (.error record.unknownReplayError)
    | some definition =>
        if 0 < (slotsOf definition).length then some (.error record.awaitsReplayError)
        else (migrateEnvelope definition envelope).map fun r => r.bind (planOf definition)

/-- The request of a replay. -/
def ReplayPlan.request (plan : ReplayPlan) (record : BuriedRecord) :
    Except Thrown EnqueueRequest := do
  let delivery ← resolveDeliveryWithoutUniqueness plan.definition plan.validated
  return ⟨plan.definition.queue, record.entry.envelope, delivery, none⟩

/-- **A replay enqueues the envelope that was buried**, under an id of the driver's own. -/
theorem ReplayPlan.request_eq_ok {plan : ReplayPlan} {record : BuriedRecord}
    {request : EnqueueRequest} (h : plan.request record = .ok request) :
    request.envelope = record.entry.envelope ∧ request.jobId = none ∧
      request.delivery.unique = none := by
  obtain ⟨delivery, hdelivery, h⟩ := bind_eq_ok.1 h
  obtain rfl := Except.ok.inj h
  exact ⟨rfl, rfl, unique_resolveDeliveryWithoutUniqueness hdelivery⟩

/-! ### Calls to the driver -/

/-- What becomes of a call to the driver: it answers, or it fails, after it took effect or not. -/
inductive CallFate where
  | answers
  | fails (error : Thrown) (tookEffect : Bool)

/-- Whether a call took effect. -/
def CallFate.tookEffect : CallFate → Bool
  | .answers => true
  | .fails _ tookEffect => tookEffect

/-- What a caller gets of a call that would answer `value`. -/
def CallFate.reply {α : Type} (value : α) : CallFate → Except Thrown α
  | .answers => .ok value
  | .fails error _ => .error error

/-- Whether a driver replaces the result of a key that is complete already. -/
def Driver.overwrites : Driver → Bool
  | .redis => false
  | .memory => true

/-- Whether a call of `complete` records its result. -/
def KeyState.takes (driver : Driver) (token : String) : KeyState → Bool
  | .absent => true
  | .held token' => token' = token
  | .complete _ => driver.overwrites

/-- Whether a call that ends a possession records a result. -/
def KeyState.records (driver : Driver) (token : String) (k : KeyState) : Settlement → Bool
  | .complete _ => k.takes driver token
  | .release => false

/-- A second result does nothing in Redis. -/
theorem redisStore_complete_of_complete (now : ℕ) (token : String) (kept : KeptResult)
    {k : RedisKey} {json : Json} (hview : redisStore.view k = .complete json) :
    redisStore.view (redisStore.complete now token kept k) = .complete json := by
  rcases k.cases_cell with hk | ⟨t, expiresAt, hk⟩ | ⟨kept', expiresAt, hk⟩
  · simp [redisStore, hk] at hview
  · simp [redisStore, hk] at hview
  · rw [← hview]
    show Cell.view (k.after _).cell = Cell.view k.cell
    rw [RedisKey.cell_after, hk, Redis.kept_step rfl rfl]

/-- A second result replaces the first in memory. -/
theorem memoryStore_complete_of_complete (now : ℕ) (token : String) (kept : KeptResult)
    {k : MemoryKey} {json : Json} (hview : memoryStore.view k = .complete json) :
    memoryStore.view (memoryStore.complete now token kept k) = .complete kept.json := by
  rcases k.cases_key with rfl | ⟨t, rfl⟩ | ⟨json', hleased, hk⟩
  · cases hview
  · cases hview
  · simp [memoryStore, MemoryKey.record, hleased]

/-- **What a call of `complete` leaves of the key**, on either driver. -/
theorem Driver.view_complete (driver : Driver) (now : ℕ) (token : String) (kept : KeptResult)
    (k : driver.Key) :
    driver.store.view (driver.store.complete now token kept k) =
      if (driver.store.view k).takes driver token then .complete kept.json
      else driver.store.view k := by
  cases hview : driver.store.view k with
  | complete json =>
      cases driver with
      | redis => exact redisStore_complete_of_complete now token kept hview
      | memory => exact memoryStore_complete_of_complete now token kept hview
  | _ =>
      rcases driver.store.view_complete now token kept k with heq | ⟨hcomplete, -⟩
      · rw [heq, hview]
        simp [KeyState.record, KeyState.takes]
      · simp [hview, KeyState.isComplete] at hcomplete

/-! ### One replay -/

/-- Where a replay was when it rejected.  `held` is the refusal over a key that a delivery holds. -/
inductive ReplayPhase where
  | calling
  | reading
  | planning
  | held
  | forgetting
  | resolving
  | enqueueing
  | removing
deriving DecidableEq

/-- Whether a replay that rejected in a phase had not forgotten the key yet. -/
def ReplayPhase.beforeForget : ReplayPhase → Bool
  | .calling | .reading | .planning | .held => true
  | .forgetting | .resolving | .enqueueing | .removing => false

/-- Where a replay stands, named after what it does next. -/
inductive ReplayStage where
  | reading
  | planning
  | forgetting (plan : ReplayPlan)
  | enqueueing (plan : ReplayPlan) (request : EnqueueRequest)
  | removing (plan : ReplayPlan) (request : EnqueueRequest) (jobId : String)
  | resolved (plan : ReplayPlan) (request : EnqueueRequest) (jobId : String)
  | rejected (phase : ReplayPhase) (error : Thrown)

/-- The id a replay resolves to. -/
def ReplayStage.answer : ReplayStage → Option (Except Thrown String)
  | .resolved _ request jobId => some (.ok (composeJobId request.queue jobId))
  | .rejected _ error => some (.error error)
  | _ => none

/-- What happened to the record, the queue and the key. -/
inductive ReplayEvent (ι ρ : Type) where
  /-- The forget step of a replay found no delivery holding the key. -/
  | forgot (r : ρ)
  /-- The driver stored a job for a replay; `answered` when it said so. -/
  | enqueued (r : ρ) (request : EnqueueRequest) (jobId : String) (answered : Bool)
  | removed (r : ρ)
  | discarded
  /-- The body of a delivery ended. -/
  | ended (i : ι)
  /-- The result of a delivery was recorded under the key. -/
  | completed (i : ι)
  /-- A delivery was given the kept result, recorded by `writer`, and ran no handler. -/
  | gaveBack (i : ι) (writer : Option ι)

/-- A step of one replay. -/
inductive ReplayStep where
  /-- `dead.replay(id)` is called and reads the record. -/
  | read (inAtomicBlock : Bool) (fate : CallFate)
  | plan
  /-- `forgetKey`; `elsewhere` is what a key other than the one under study answers. -/
  | forget (fate : CallFate) (elsewhere : ForgetOutcome)
  | enqueue (jobId : String) (fate : CallFate)
  | remove (fate : CallFate)

/-- The record, its replays, and the deliveries of the key.  `writer` is the delivery whose result
the key keeps. -/
structure ReplayRun (σ ι ρ : Type) where
  keyed : KeyRun σ ι
  kept : Bool
  replays : ρ → ReplayStage
  writer : Option ι
  log : List (ReplayEvent ι ρ)

section

variable {σ ι ρ : Type} [DecidableEq ι] [DecidableEq ρ]

/-- A replay moves on. -/
def ReplayRun.stand (s : ReplayRun σ ι ρ) (r : ρ) (stage : ReplayStage) : ReplayRun σ ι ρ :=
  { s with replays := Function.update s.replays r stage }

/-- Something happens. -/
def ReplayRun.note (s : ReplayRun σ ι ρ) (events : List (ReplayEvent ι ρ)) : ReplayRun σ ι ρ :=
  { s with log := s.log ++ events }

/-- `dead.remove`, which is noted when the record was there to remove. -/
def ReplayRun.drop (s : ReplayRun σ ι ρ) (event : ReplayEvent ι ρ) : ReplayRun σ ι ρ :=
  { s with kept := false, log := if s.kept then s.log ++ [event] else s.log }

/-- `idempotency.forget` of the key, for a replay. -/
def ReplayRun.forgetFor (S : Store σ) (s : ReplayRun σ ι ρ) (r : ρ) : ReplayRun σ ι ρ :=
  let answer := S.forget s.keyed.store
  { s with
    keyed := { s.keyed with store := answer.1 }
    log := if answer.2 = .running then s.log else s.log ++ [.forgot r] }

/-- What follows a forget that answered. -/
def ReplayPlan.afterForget (plan : ReplayPlan) (record : BuriedRecord) (outcome : ForgetOutcome) :
    ReplayStage :=
  if outcome = .running then .rejected .held record.heldReplayError
  else
    match plan.request record with
    | .ok request => .enqueueing plan request
    | .error error => .rejected .resolving error

/-- `dead.replay(id)`, one step of the replay `r`. -/
def replayStep (S : Store σ) (key : String) (record : BuriedRecord)
    (definitions : List JobDefinition)
    (s : ReplayRun σ ι ρ) (r : ρ) (step : ReplayStep) : Option (ReplayRun σ ι ρ) :=
  match step, s.replays r with
  | .read inAtomicBlock fate, .reading =>
      some (s.stand r
        (if inAtomicBlock then .rejected .calling record.atomicReplayError
        else
          match fate.reply s.kept with
          | .error error => .rejected .reading error
          | .ok false => .rejected .reading (notKeptError record.id)
          | .ok true => .planning))
  | .plan, .planning =>
      (planReplay definitions record).map fun
        | .ok plan => s.stand r (.forgetting plan)
        | .error error => s.stand r (.rejected .planning error)
  | .forget fate elsewhere, .forgetting plan =>
      if plan.key = none then
        -- `not_guarded`: there is no key to forget
        some (s.stand r (plan.afterForget record .notFound))
      else if plan.key = some key then
        let t := if fate.tookEffect then s.forgetFor S r else s
        some (t.stand r
          (match fate.reply (S.forget s.keyed.store).2 with
          | .ok outcome => plan.afterForget record outcome
          | .error error => .rejected .forgetting error))
      else
        some (s.stand r
          (match fate.reply elsewhere with
          | .ok outcome => plan.afterForget record outcome
          | .error error => .rejected .forgetting error))
  | .enqueue jobId fate, .enqueueing plan request =>
      let reply := fate.reply jobId
      let t := if fate.tookEffect then s.note [.enqueued r request jobId reply.isOk] else s
      some (t.stand r
        (match reply with
        | .ok jobId => .removing plan request jobId
        | .error error => .rejected .enqueueing error))
  | .remove fate, .removing plan request jobId =>
      let t := if fate.tookEffect then s.drop (.removed r) else s
      some (t.stand r
        (match fate.reply jobId with
        | .ok jobId => .resolved plan request jobId
        | .error error => .rejected .removing error))
  | _, _ => none

/-! ### The deliveries of the key -/

/-- A step of the machine. -/
inductive ReplayAct (ι ρ : Type) where
  | replay (r : ρ) (step : ReplayStep)
  /-- `dead.discard(id)` reaches the driver. -/
  | discard (fate : CallFate)
  | acquire (i : ι) (token : String) (now : ℕ) (fate : CallFate)
  | act (i : ι) (a : Act)
  /-- The call that ends a delivery's possession. -/
  | call (i : ι) (now : ℕ) (fate : CallFate)
  | renew (i : ι) (now : ℕ)
  /-- `jobs.idempotency.forget` of the key. -/
  | forget
  /-- What the key holds expires: a lease that was not renewed in time, or a result. -/
  | expire

/-- The replay a step belongs to. -/
def ReplayAct.replay? : ReplayAct ι ρ → Option ρ
  | .replay r _ => some r
  | _ => none

/-- The body of a delivery ends with one of its own steps. -/
def Act.endsBody : Act → Bool
  | .returns _ | .throws _ => true
  | _ => false

/-- The idempotency key a replay plans with. -/
def replayKey (definitions : List JobDefinition) (record : BuriedRecord) : Option String :=
  match planReplay definitions record with
  | some (.ok plan) => plan.key
  | _ => none

/-- Whether a job was stored for a replay. -/
def ReplayRun.hasEnqueued (s : ReplayRun σ ι ρ) (r : ρ) : Bool :=
  s.log.any fun
    | .enqueued r' _ _ _ => r' = r
    | _ => false

/-- Whether a delivery may reach the store of keys: any that is no replay's, and one of a replay's
job once that job is stored, when the replay plans with this key — a delivery computes the key from
the payload the replay planned with. -/
def ReplayRun.delivers (key : String) (record : BuriedRecord) (definitions : ρ → List JobDefinition)
    (s : ReplayRun σ ι ρ) : Option ρ → Bool
  | none => true
  | some r => s.hasEnqueued r && decide (replayKey (definitions r) record = some key)

/-- A call of `acquire` that would be answered by `lease`. -/
def ReplayRun.given (s : ReplayRun σ ι ρ) (i : ι) : Except Thrown IdempotencyLease →
    List (ReplayEvent ι ρ)
  | .ok (.complete _) => [.gaveBack i s.writer]
  | _ => []

/-- A call that ends a possession takes effect. -/
def ReplayRun.settle (driver : Driver) (s : ReplayRun driver.Key ι ρ) (i : ι) (now : ℕ)
    (token : String) (call : Settlement) : ReplayRun driver.Key ι ρ :=
  let recorded := (driver.store.view s.keyed.store).records driver token call
  { s with
    keyed := { s.keyed with store := driver.store.settle now token call s.keyed.store }
    writer := if recorded then some i else s.writer
    log := if recorded then s.log ++ [.completed i] else s.log }

/-- **The machine**: replays and discards of one dead record, and the deliveries of one key.
`jobOf i` is the replay whose job the delivery `i` runs. -/
def replayRun (driver : Driver) (key : String) (record : BuriedRecord)
    (definitions : ρ → List JobDefinition) (definition : ι → JobDefinition) (jobOf : ι → Option ρ) :
    Machine (ReplayRun driver.Key ι ρ) (ReplayAct ι ρ) := fun s step =>
  match step with
  | .replay r step => replayStep driver.store key record (definitions r) s r step
  | .discard fate => some (if fate.tookEffect then s.drop .discarded else s)
  | .acquire i token now fate =>
      match (s.keyed.deliveries i).stage with
      | .arriving =>
          if token ∈ s.keyed.minted ∨ s.delivers key record definitions (jobOf i) = false then none
          else
            let reply := driver.store.acquire now token s.keyed.store
            let answer := (fate.reply reply.2).bind id
            some { s with
              keyed :=
                { s.keyed.move i ((s.keyed.deliveries i).received key answer) with
                  store := if fate.tookEffect then reply.1 else s.keyed.store
                  minted := token :: s.keyed.minted }
              log := s.log ++ s.given i answer }
      | _ => none
  | .act i a => (act (definition i) (s.keyed.deliveries i) a).map fun d =>
      { s with
        keyed := s.keyed.move i d
        log := if a.endsBody then s.log ++ [.ended i] else s.log }
  | .call i now fate =>
      match (s.keyed.deliveries i).stage with
      | .settling token call result =>
          let t := if fate.tookEffect then s.settle driver i now token call else s
          let result := result.map fun result => (fate.reply result).bind id
          some { t with keyed := t.keyed.move i ((s.keyed.deliveries i).returned token result) }
      | _ => none
  | .renew i now => (s.keyed.deliveries i).renewing.map fun token =>
      { s with keyed := { s.keyed with store := driver.store.renew now token s.keyed.store } }
  | .forget =>
      some { s with keyed := { s.keyed with store := (driver.store.forget s.keyed.store).1 } }
  | .expire => some { s with keyed := { s.keyed with store := driver.store.expire s.keyed.store } }

/-- The record is kept, no replay has read it, and the key is free. -/
def ReplayRun.init (driver : Driver) : ReplayRun driver.Key ι ρ :=
  ⟨.init driver.store, true, fun _ => .reading, none, []⟩

end

end Jubs
