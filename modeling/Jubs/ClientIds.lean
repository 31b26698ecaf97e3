/-
**The ids of live jobs and of dead records, and who reads them.**

A live job answers to its queue and its stored id around a colon.  The record of a dead job answers
to the dead queue that keeps it, which is the queue's own name with `.dead` behind it.  Three calls
of the client speak of live jobs and two of dead records, and each has to refuse the ids of the
other kind.

Main definitions:

* `Jubs.deadQueueName`, `Jubs.liveQueueName` — the name of a dead queue, and back;
* `Jubs.readLiveJobId`, `Jubs.readDeadJobId` — the two readers;
* `Jubs.askLive`, `Jubs.askDead` — what the client does with an id of either kind;
* `Jubs.jobsGet`, `Jubs.jobsRetry`, `Jubs.jobsCancel`, `Jubs.replayedRecord`, `Jubs.jobsDiscard` —
  the five calls;
* `Jubs.Carries` — the ids that are handed out for a job;
* `Jubs.ReachesLive`, `Jubs.ReachesDead` — what an id reaches.

Main results:

* `Jubs.liveQueueName_eq_some_iff` — which names are those of dead queues;
* `Jubs.ids_resolve_iff` — **the ids of a queue are read as what they name, unless the queue is
  itself named like a dead queue**;
* `Jubs.ids_misread` — a queue that is.
-/

import Jubs.Dispatch
import Jubs.Driver
import Jubs.FlowStore
import Mathlib.Data.List.DropRight

set_option autoImplicit false

namespace Jubs

/-! ### Dead queues -/

/-- `DEAD_SUFFIX`. -/
def deadSuffix : String := ".dead"

/-- `deadQueueName(queue)`. -/
def deadQueueName (queue : String) : String := queue ++ deadSuffix

/-- `liveQueueName(dead)`. -/
def liveQueueName (dead : String) : Option String :=
  if ¬ deadSuffix.toList <:+ dead.toList ∨ dead.length = deadSuffix.length then none
  else some (String.ofList (dead.toList.rdrop deadSuffix.length))

@[simp] theorem toList_deadQueueName (queue : String) :
    (deadQueueName queue).toList = queue.toList ++ deadSuffix.toList := by
  simp [deadQueueName]

/-- **Which names are those of dead queues**: a name with the suffix behind it, unless it is the
suffix alone. -/
theorem liveQueueName_eq_some_iff {dead queue : String} :
    liveQueueName dead = some queue ↔ queue ≠ "" ∧ dead = deadQueueName queue := by
  unfold liveQueueName
  constructor
  · intro h
    split_ifs at h with hname
    obtain ⟨⟨front, hfront⟩, hlength⟩ : deadSuffix.toList <:+ dead.toList ∧
      dead.length ≠ deadSuffix.length := by simpa [not_or] using hname
    obtain rfl := Option.some.inj h
    have hdead : dead.toList.rdrop deadSuffix.length = front := by
      rw [← hfront, ← String.length_toList, List.rdrop_append_length]
    rw [hdead]
    refine ⟨?_, ?_⟩
    · intro hempty
      obtain rfl : front = [] := by simpa using hempty
      exact hlength (by rw [← String.length_toList, ← hfront]; rfl)
    · rw [← String.toList_inj, toList_deadQueueName, String.toList_ofList, hfront]
  · rintro ⟨hqueue, rfl⟩
    have hname : ¬ (¬ deadSuffix.toList <:+ (deadQueueName queue).toList ∨
        (deadQueueName queue).length = deadSuffix.length) := by
      simp [deadQueueName, hqueue]
    rw [if_neg hname, toList_deadQueueName, ← String.length_toList, List.rdrop_append_length,
      String.ofList_toList]

/-- The name of a queue's dead queue is read back. -/
@[simp] theorem liveQueueName_deadQueueName (q : QueueName) :
    liveQueueName (deadQueueName q.name) = some q.name :=
  liveQueueName_eq_some_iff.2 ⟨q.nonempty, rfl⟩

/-- The dead queue of a queue is a queue. -/
def QueueName.dead (q : QueueName) : QueueName where
  name := deadQueueName q.name
  nonempty := by simp [deadQueueName, deadSuffix]
  noColon := by simp [q.noColon, deadSuffix]

/-! ### The two readers -/

/-- `readLiveJobId(id)`: nothing when the id names a dead queue. -/
def readLiveJobId (id : String) : Except Thrown (Option (String × String)) := do
  let (queue, storedId) ← readJobId id
  if (liveQueueName queue).isSome then return none
  return some (queue, storedId)

/-- What an id is refused with that names no dead queue. -/
def notDeadIdError (id : String) : Thrown :=
  plainError ("jubs: \"" ++ id ++
    "\" is not a dead job id — pass an id returned by jobs.dead.list(queue)") none

/-- `readDeadJobId(id)`: the live queue, and the stored id of the record. -/
def readDeadJobId (id : String) : Except Thrown (String × String) := do
  let (queue, storedId) ← readJobId id
  match liveQueueName queue with
  | none => throw (notDeadIdError id)
  | some live => return (live, storedId)

/-! ### The calls of the client -/

/-- What a call about a live job does with an id: it asks the driver, and a dead id is an
absence. -/
def askLive {α : Type} (absence : α) (ask : String → String → α) (id : String) :
    Except Thrown α := do
  match ← readLiveJobId id with
  | none => return absence
  | some (queue, storedId) => return ask queue storedId

/-- What a call about a dead record does with an id. -/
def askDead {α : Type} (ask : String → String → Except Thrown α) (id : String) :
    Except Thrown α := do
  let (queue, storedId) ← readDeadJobId id
  ask queue storedId

section

variable {Record : Type} (driver : JobCalls Record)

/-- `jobs.get(id)`. -/
def jobsGet : String → Except Thrown (Option JobSnapshot) :=
  askLive none fun queue storedId =>
    (driver.get queue storedId).map fun snapshot =>
      { snapshot with id := composeJobId queue snapshot.id }

/-- `jobs.retry(id)`. -/
def jobsRetry : String → Except Thrown RetryResult := askLive .unknownJob driver.retry

/-- `jobs.cancel(id)`. -/
def jobsCancel : String → Except Thrown CancelResult := askLive .unknownJob driver.cancel

/-- What a call is refused with that names no record. -/
def notKeptError (id : String) : Thrown :=
  plainError ("jubs: no dead job \"" ++ id ++ "\" is kept — it was replayed or discarded already")
    none

/-- The record `jobs.dead.replay(id)` reads before anything else. -/
def replayedRecord (id : String) : Except Thrown Record :=
  askDead (fun queue storedId =>
    match driver.readDead queue storedId with
    | some entry => .ok entry
    | none => .error (notKeptError id)) id

/-- `jobs.dead.discard(id)`. -/
def jobsDiscard (id : String) : Except Thrown Unit :=
  askDead (fun queue storedId =>
    if driver.removeDead queue storedId then .ok () else .error (notKeptError id)) id

end

/-- The id `jobs.dead.list(queue)` composes for a record. -/
def listedId (queue storedId : String) : String := composeJobId (deadQueueName queue) storedId

/-! ### What the ids reach -/

section

variable {α : Type} {absence : α} {ask : String → String → α} {q : QueueName} {id : String}

theorem askLive_live (h : liveQueueName q.name = none) (hid : id ≠ "") :
    askLive absence ask (composeJobId q.name id) = .ok (ask q.name id) := by
  simp [askLive, readLiveJobId, readJobId_composeJobId q hid, h, bind, Except.bind, pure,
    Except.pure]

theorem askLive_dead {live : String} (h : liveQueueName q.name = some live) (hid : id ≠ "") :
    askLive absence ask (composeJobId q.name id) = .ok absence := by
  simp [askLive, readLiveJobId, readJobId_composeJobId q hid, h, bind, Except.bind, pure,
    Except.pure]

theorem askDead_live {ask : String → String → Except Thrown α} (h : liveQueueName q.name = none)
    (hid : id ≠ "") :
    askDead ask (composeJobId q.name id) = .error (notDeadIdError (composeJobId q.name id)) := by
  simp [askDead, readDeadJobId, readJobId_composeJobId q hid, h, bind, Except.bind, throw,
    throwThe, MonadExceptOf.throw]

theorem askDead_dead {ask : String → String → Except Thrown α} {live : String}
    (h : liveQueueName q.name = some live) (hid : id ≠ "") :
    askDead ask (composeJobId q.name id) = ask live id := by
  simp [askDead, readDeadJobId, readJobId_composeJobId q hid, h, bind, Except.bind, pure,
    Except.pure]

end

/-- The ids that are handed out for the job `storedId` of the queue `q`. -/
inductive Carries (q : QueueName) (storedId : String) : String → Prop
  /-- What an enqueue answers, `heldOrNamed(queue, held)`. -/
  | enqueued : Carries q storedId (composeJobId q.name storedId)
  /-- What the events of the hooks and the context of the handler carry. -/
  | event (envelope : Envelope) (delivery : JobDelivery) (h : delivery.id = storedId) :
      Carries q storedId (eventOf q.name envelope delivery).id
  /-- What the failure of a child carries. -/
  | failure (slot reason : String) (uuid : Uuid) (hslot : ':' ∉ slot.toList)
      (h : composeChildId slot uuid = storedId) :
      Carries q storedId (readFailure (toKey q.name (composeChildId slot uuid), reason)).id

/-- The queue of a child is read back out of its key. -/
theorem readChildKey_queue (q : QueueName) {storedId : String} (h : ':' ∉ storedId.toList) :
    readChildKey (toKey q.name storedId) = (q.name, storedId) := by
  simp [readChildKey, toKey, Cut.segments_join ':' _ storedId, Cut.segments_of_not_mem h,
    Cut.segments_join ':' "bull", Cut.segments_of_not_mem q.noColon]

/-- Every id that is handed out for a job is composed of its queue and its stored id. -/
theorem Carries.eq_compose {q : QueueName} {storedId id : String} (h : Carries q storedId id) :
    id = composeJobId q.name storedId := by
  cases h with
  | enqueued => rfl
  | event envelope delivery hid => rw [eventOf, hid]
  | failure slot reason uuid hslot hid =>
      rw [readFailure, readChildKey_queue q (colon_not_mem_composeChildId uuid hslot), hid]

/-- An id that reaches a live job, and no record. -/
structure ReachesLive (q : QueueName) (storedId id : String) : Prop where
  get : ∀ {Record : Type} (driver : JobCalls Record), jobsGet driver id =
    .ok ((driver.get q.name storedId).map fun snapshot =>
      { snapshot with id := composeJobId q.name snapshot.id })
  retry : ∀ {Record : Type} (driver : JobCalls Record),
    jobsRetry driver id = .ok (driver.retry q.name storedId)
  cancel : ∀ {Record : Type} (driver : JobCalls Record),
    jobsCancel driver id = .ok (driver.cancel q.name storedId)
  replay : ∀ {Record : Type} (driver : JobCalls Record),
    replayedRecord driver id = .error (notDeadIdError id)
  discard : ∀ {Record : Type} (driver : JobCalls Record),
    jobsDiscard driver id = .error (notDeadIdError id)

/-- An id that reaches a dead record of a live queue, and is an absence to the calls about jobs. -/
structure ReachesDead (q : QueueName) (storedId id : String) : Prop where
  get : ∀ {Record : Type} (driver : JobCalls Record), jobsGet driver id = .ok none
  retry : ∀ {Record : Type} (driver : JobCalls Record), jobsRetry driver id = .ok .unknownJob
  cancel : ∀ {Record : Type} (driver : JobCalls Record), jobsCancel driver id = .ok .unknownJob
  replay : ∀ {Record : Type} (driver : JobCalls Record), replayedRecord driver id =
    match driver.readDead q.name storedId with
    | some entry => .ok entry
    | none => .error (notKeptError id)
  discard : ∀ {Record : Type} (driver : JobCalls Record), jobsDiscard driver id =
    if driver.removeDead q.name storedId then .ok () else .error (notKeptError id)

/-- The id of a live job is read as that job, when its queue is not named like a dead queue. -/
theorem reachesLive_compose {q : QueueName} {storedId : String} (h : liveQueueName q.name = none)
    (hid : storedId ≠ "") : ReachesLive q storedId (composeJobId q.name storedId) where
  get _ := askLive_live h hid
  retry _ := askLive_live h hid
  cancel _ := askLive_live h hid
  replay _ := askDead_live h hid
  discard _ := askDead_live h hid

/-- The id of a dead record is read as that record. -/
theorem reachesDead_listedId (q : QueueName) {storedId : String} (hid : storedId ≠ "") :
    ReachesDead q storedId (listedId q.name storedId) where
  get _ := askLive_dead (q := q.dead) (liveQueueName_deadQueueName q) hid
  retry _ := askLive_dead (q := q.dead) (liveQueueName_deadQueueName q) hid
  cancel _ := askLive_dead (q := q.dead) (liveQueueName_deadQueueName q) hid
  replay _ := askDead_dead (q := q.dead) (liveQueueName_deadQueueName q) hid
  discard _ := askDead_dead (q := q.dead) (liveQueueName_deadQueueName q) hid

/-- A driver that answers every question with yes. -/
def willing : JobCalls Unit where
  get _ _ := none
  retry _ _ := .retried
  cancel _ _ := .removed
  readDead _ _ := some ()
  removeDead _ _ := true

/-- **The ids of a queue are read as what they name, unless the queue is itself named like a dead
queue.**  For every queue: every id handed out for one of its jobs reaches that job and no record,
every id listed for one of its records reaches that record and no job, and no other queue and
stored id compose an id of it, if and only if its name is not a name with `.dead` behind it. -/
theorem ids_resolve_iff (q : QueueName) :
    ((∀ storedId id, storedId ≠ "" → Carries q storedId id → ReachesLive q storedId id) ∧
      (∀ storedId, storedId ≠ "" → ReachesDead q storedId (listedId q.name storedId)) ∧
      ∀ (q' : QueueName) storedId storedId',
        composeJobId q.name storedId = composeJobId q'.name storedId' ↔
          q = q' ∧ storedId = storedId') ↔
      liveQueueName q.name = none := by
  constructor
  · rintro ⟨hlive, -, -⟩
    by_contra hname
    obtain ⟨live, hname⟩ := Option.ne_none_iff_exists'.1 hname
    -- a retry of the queue's first job finds nothing, whatever the driver has
    have hreach := (hlive "1" _ (by decide) .enqueued).retry willing
    rw [jobsRetry, askLive_dead hname (by decide)] at hreach
    cases hreach
  · intro hname
    refine ⟨?_, fun storedId hid => reachesDead_listedId q hid, fun q' id id' => composeJobId_inj⟩
    intro storedId id hid hcarries
    obtain rfl := hcarries.eq_compose
    exact reachesLive_compose hname hid

/-- A queue named like the dead queue of `mail`. -/
def mailDead : QueueName := ⟨"mail.dead", by decide, by decide⟩

/-- **A queue named like a dead queue loses its jobs**: the id of its first job is unknown to a
retry that the driver would grant, and a discard of it drops a record of the queue `mail`. -/
theorem ids_misread : Carries mailDead "1" "mail.dead:1" ∧
    willing.retry "mail.dead" "1" = .retried ∧
    jobsRetry willing "mail.dead:1" = .ok .unknownJob ∧
    jobsDiscard willing "mail.dead:1" = .ok () := by
  have hname : liveQueueName mailDead.name = some "mail" :=
    liveQueueName_eq_some_iff.2 ⟨by decide, rfl⟩
  have hid : "1" ≠ "" := by decide
  refine ⟨.enqueued, rfl, ?_, ?_⟩
  · exact askLive_dead (q := mailDead) hname hid
  · exact askDead_dead (q := mailDead) hname hid

end Jubs
