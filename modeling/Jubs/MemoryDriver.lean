/-
**The jobs of the memory driver.**

The driver keeps two arrays of job objects: every job it recorded, and the line of those that wait.
A job object is shared by both arrays and changed in place, so the arrays hold references here and
the objects stand in a heap.  A call of `runNext` that awaits its run is a reference in `running`.

Main definitions:

* `Jubs.MemoryJob`, `Jubs.MemoryDriver` — a job object, and the state of one driver;
* `Jubs.MemoryDriver.enqueue`, `retry`, `cancel`, `runNext`, `settle` — what the calls do;
* `Jubs.MemoryDriver.requestCancel`, `takeCancelled` — the marks of the cancellations;
* `Jubs.MemoryCall`, `Jubs.MemoryEvent`, `Jubs.memoryRun` — the calls as one machine, with a log of
  what happened to which job.

Main results:

* `Jubs.memoryRun_cases` — **what a call can do to the jobs**.
-/

import Jubs.Dispatch
import Jubs.Driver
import Jubs.FlowStore
import Jubs.JobsOptions
import Jubs.Machine
import Mathlib.Logic.Function.Basic

set_option autoImplicit false

namespace Jubs

/-! ### Jobs and the driver that keeps them -/

/-- A job object.  `failure` is `undefined` until a run fails. -/
structure MemoryJob where
  id : String
  queue : String
  maxAttempts : Number
  envelope : Value
  state : JobState
  attempts : ℕ
  attemptsStarted : ℕ
  failure : Value

/-- What a reference that was never made points to. -/
def noJob : MemoryJob := ⟨"", "", 0, .undefined, .unknown, 0, 0, .undefined⟩

/-- The state of one `memoryDriver()`.  `made` counts the job objects made so far, and `running`
holds the jobs whose run some `runNext` awaits. -/
structure MemoryDriver where
  jobs : ℕ → MemoryJob
  made : ℕ
  recorded : List ℕ
  pending : List ℕ
  consumers : String → Bool
  paused : String → Bool
  marked : String → Option ℕ
  running : List ℕ

/-- A driver nothing was enqueued on. -/
def memoryDriver : MemoryDriver where
  jobs := fun _ => noJob
  made := 0
  recorded := []
  pending := []
  consumers := fun _ => false
  paused := fun _ => false
  marked := fun _ => none
  running := []

/-- `list.splice(list.indexOf(x), 1)`.  An index of `-1` counts from the end. -/
def spliceOut (list : List ℕ) (x : ℕ) : List ℕ := if x ∈ list then list.erase x else list.dropLast

/-- `unsupported(behaviour)`. -/
def unsupported (behaviour : String) : Thrown :=
  plainError ("jubs: memoryDriver does not simulate \"" ++ behaviour ++
    "\"; test that behaviour against redisDriver") none

/-- The delivery options the driver takes. -/
def acceptedDelivery : List String :=
  ["attempts", "backoff", "priority", "keepCompletedForMs", "keepFailedCount"]

/-- `Object.keys(delivery)`. -/
def Delivery.keys (delivery : Delivery) : List String :=
  ["attempts", "backoff", "priority", "keepCompletedForMs", "keepFailedCount"] ++
    (delivery.delayMs.map fun _ => "delayMs").toList ++
    (delivery.unique.map fun _ => "unique").toList

/-- What `JSON.stringify` throws on a value it cannot project.  The engine's own text is left
out. -/
def stringifyError : Thrown := newError .plain "TypeError" "" none none

/-- `error instanceof Error ? error.message : String(error)`, and `undefined` where the conversion
throws. -/
def failureOf : Thrown → Value
  | .inl error => error.message
  | .inr value => (value.toText.map Value.str).getD .undefined

namespace MemoryDriver

/-- One job object is changed in place. -/
def modify (m : MemoryDriver) (ref : ℕ) (change : MemoryJob → MemoryJob) : MemoryDriver :=
  { m with jobs := Function.update m.jobs ref (change (m.jobs ref)) }

/-- `jobAt(queue, id)`. -/
def jobAt (m : MemoryDriver) (queue id : String) : Option ℕ :=
  m.recorded.find? fun ref => (m.jobs ref).queue = queue ∧ (m.jobs ref).id = id

/-- `runnable()`. -/
def runnable (m : MemoryDriver) : Option ℕ :=
  m.pending.find? fun ref => !m.paused (m.jobs ref).queue

/-! ### Enqueueing and reading -/

/-- The id of a new job: the one the request carries, unless that is empty, and otherwise a count of
the jobs that are recorded. -/
def freshId (m : MemoryDriver) (request : EnqueueRequest) : String :=
  match request.jobId with
  | some jobId => if jobId = "" then toString (m.recorded.length + 1) else jobId
  | none => toString (m.recorded.length + 1)

/-- The kept job whose id the request carries. -/
def already (m : MemoryDriver) (request : EnqueueRequest) : Option ℕ :=
  match request.jobId with
  | some jobId => if jobId = "" then none else m.jobAt request.queue jobId
  | none => none

/-- A job is recorded and put in line. -/
def record (m : MemoryDriver) (job : MemoryJob) : MemoryDriver :=
  { m with
    jobs := Function.update m.jobs m.made job
    made := m.made + 1
    recorded := m.recorded ++ [m.made]
    pending := m.pending ++ [m.made] }

/-- The job object of a request. -/
def newJob (m : MemoryDriver) (request : EnqueueRequest) (envelope : Value) : MemoryJob where
  id := m.freshId request
  queue := request.queue
  maxAttempts := request.delivery.attempts
  envelope := envelope
  state := .waiting
  attempts := 0
  attemptsStarted := 0
  failure := .undefined

/-- `enqueue(request)`.  The caller is given the id of the job that is answered with. -/
def enqueue (m : MemoryDriver) (request : EnqueueRequest) : Except Thrown (ℕ × MemoryDriver) :=
  match request.delivery.keys.find? fun key => key ∉ acceptedDelivery with
  | some rejected => .error (unsupported rejected)
  | none =>
      match m.already request with
      | some ref => .ok (ref, m)
      | none =>
          match storedData request.envelope with
          | some envelope => .ok (m.made, m.record (m.newJob request envelope))
          | none => .error stringifyError

/-- `get(queue, id)`: the job that is told of. -/
def get (m : MemoryDriver) (queue id : String) : Option MemoryJob := (m.jobAt queue id).map m.jobs

/-! ### Runs -/

/-- What a run is handed of a job. -/
def delivery (job : MemoryJob) : JobDelivery where
  id := job.id
  attemptsStarted := job.attemptsStarted
  attempt := .finite (job.attempts + 1 : ℕ)
  maxAttempts := job.maxAttempts
  envelope := job.envelope

/-- A job is taken out of the line and handed to a run. -/
def start (m : MemoryDriver) (ref : ℕ) : MemoryDriver :=
  { m.modify ref fun job =>
      { job with state := .active, attemptsStarted := job.attemptsStarted + 1 } with
    pending := spliceOut m.pending ref
    running := m.running ++ [ref] }

/-- `runNext()`, up to its run: the job that is run. -/
def runNext (m : MemoryDriver) : Except Thrown (ℕ × MemoryDriver) :=
  match m.runnable with
  | none =>
      if m.pending ≠ [] then
        .error (plainError ("jubs: memoryDriver has every pending job on a paused queue — call " ++
          "jobs.resume(queue) to run them") none)
      else .error (plainError "jubs: memoryDriver has no pending job to run" none)
  | some ref =>
      if m.consumers (m.jobs ref).queue then .ok (ref, m.start ref)
      else .error (plainError ("jubs: memoryDriver has no consumer on queue \"" ++
        (m.jobs ref).queue ++ "\" — call jobs.start(handlers) before running jobs") none)

/-- A run that ended for good. -/
def finish (m : MemoryDriver) (ref : ℕ) (state : JobState) (failure : Value → Value) :
    MemoryDriver :=
  { m.modify ref fun job =>
      { job with state := state, attempts := job.attempts + 1, failure := failure job.failure } with
    running := m.running.erase ref }

/-- A job whose lease was held stands at the front of the line again. -/
def putBack (m : MemoryDriver) (ref : ℕ) : MemoryDriver :=
  { m.modify ref fun job => { job with state := .waiting } with
    pending := ref :: m.pending
    running := m.running.erase ref }

/-- `runNext()`, once its run has settled. -/
def settle (m : MemoryDriver) (ref : ℕ) : Except Thrown Value → MemoryDriver
  | .ok _ => m.finish ref .completed id
  | .error error =>
      if error.cls = some .leaseHeld then m.putBack ref
      else m.finish ref .failed fun _ => failureOf error

/-! ### Retrying and cancelling -/

/-- `requestCancel(queue, delivery)`. -/
def requestCancel (m : MemoryDriver) (queue : String) (delivery : RunningDelivery) : MemoryDriver :=
  { m with
    marked := Function.update m.marked (composeJobId queue delivery.id)
      (some delivery.attemptsStarted) }

/-- `takeCancellation(queue, delivery)`. -/
def takeCancellation (m : MemoryDriver) (queue : String) (delivery : RunningDelivery) :
    Bool × MemoryDriver :=
  let key := composeJobId queue delivery.id
  if m.marked key = some delivery.attemptsStarted then
    (true, { m with marked := Function.update m.marked key none })
  else (false, m)

/-- `takeCancelled(queue, running)`: those of the objects it is given whose mark it takes. -/
def takeCancelled {δ : Type} (named : δ → RunningDelivery) (queue : String) :
    MemoryDriver → List δ → List δ × MemoryDriver
  | m, [] => ([], m)
  | m, delivery :: running =>
      let (taken, m') := m.takeCancellation queue (named delivery)
      let (rest, m'') := takeCancelled named queue m' running
      (if taken then delivery :: rest else rest, m'')

/-- A failed job stands in line again. -/
def requeue (m : MemoryDriver) (ref : ℕ) : MemoryDriver :=
  { m.modify ref fun job =>
      { job with state := .waiting, attempts := 0, failure := .undefined } with
    pending := m.pending ++ [ref] }

/-- `retry(queue, id)`. -/
def retry (m : MemoryDriver) (queue id : String) : RetryResult × MemoryDriver :=
  match m.jobAt queue id with
  | none => (.unknownJob, m)
  | some ref =>
      if (m.jobs ref).state ≠ .failed then (.notFailed (m.jobs ref).state, m)
      else (.retried, m.requeue ref)

/-- A job is taken out of both arrays. -/
def remove (m : MemoryDriver) (ref : ℕ) : MemoryDriver :=
  { m with pending := spliceOut m.pending ref, recorded := spliceOut m.recorded ref }

/-- `cancel(queue, id)`. -/
def cancel (m : MemoryDriver) (queue id : String) : CancelResult × MemoryDriver :=
  match m.jobAt queue id with
  | none => (.unknownJob, m)
  | some ref =>
      let job := m.jobs ref
      if job.state = .completed ∨ job.state = .failed then (.finished job.state, m)
      else if job.state = .active then
        (.aborting, m.requestCancel queue ⟨job.id, job.attemptsStarted⟩)
      else (.removed, m.remove ref)

end MemoryDriver

/-! ### The calls as one machine -/

/-- A call on the driver.  `drain` is one turn of the loop of a `drain()`, and `settle` is the end
of a run that some `runNext` awaits. -/
inductive MemoryCall where
  | enqueue (request : EnqueueRequest)
  | runNext
  | drain
  | settle (ref : ℕ) (outcome : Except Thrown Value)
  | retry (queue id : String)
  | cancel (queue id : String)
  | takeCancelled (queue : String) (running : List RunningDelivery)
  | pause (queue : String)
  | resume (queue : String)
  | consume (queue : String)
  | close (queue : String)

/-- What happened to a job: an enqueue answered its id, an enqueue or a retry put it in line, a run
was handed it, a run of it ended completed or failed, a held lease put it back, a cancel removed
it. -/
inductive MemoryEvent where
  | answered (queue id : String) (ref : ℕ)
  | inLine (ref : ℕ)
  | delivered (ref : ℕ) (delivery : JobDelivery)
  | ended (ref : ℕ)
  | putBack (ref : ℕ)
  | removed (ref : ℕ)

namespace MemoryDriver

/-- What a `runNext` does, and what is seen of it. -/
def actRunNext (m : MemoryDriver) : MemoryDriver × List MemoryEvent :=
  match m.runNext with
  | .error _ => (m, [])
  | .ok (ref, m') => (m', [.delivered ref (delivery (m'.jobs ref))])

/-- What an `enqueue` does, and what is seen of it. -/
def actEnqueue (m : MemoryDriver) (request : EnqueueRequest) : MemoryDriver × List MemoryEvent :=
  match m.enqueue request with
  | .error _ => (m, [])
  | .ok (ref, m') =>
      let answered := MemoryEvent.answered request.queue (m'.jobs ref).id ref
      (m', if m'.made = m.made then [answered] else [.inLine ref, answered])

/-- What a call does, and what is seen of it.  A call that rejects changes nothing, and a run that
is not awaited cannot settle. -/
def act (m : MemoryDriver) : MemoryCall → Option (MemoryDriver × List MemoryEvent)
  | .enqueue request => some (m.actEnqueue request)
  | .runNext => some m.actRunNext
  | .drain => some (if m.runnable.isSome then m.actRunNext else (m, []))
  | .settle ref outcome =>
      if ref ∈ m.running then
        some (m.settle ref outcome, [match outcome with
          | .ok _ => .ended ref
          | .error error => if error.cls = some .leaseHeld then .putBack ref else .ended ref])
      else none
  | .retry queue id =>
      let (answer, m') := m.retry queue id
      some (m', if answer = .retried then (m.jobAt queue id).toList.map .inLine else [])
  | .cancel queue id =>
      let (answer, m') := m.cancel queue id
      some (m', if answer = .removed then (m.jobAt queue id).toList.map .removed else [])
  | .takeCancelled queue running => some ((m.takeCancelled id queue running).2, [])
  | .pause queue => some ({ m with paused := Function.update m.paused queue true }, [])
  | .resume queue => some ({ m with paused := Function.update m.paused queue false }, [])
  | .consume queue => some ({ m with consumers := Function.update m.consumers queue true }, [])
  | .close queue => some ({ m with consumers := Function.update m.consumers queue false }, [])

end MemoryDriver

/-- A driver, and what happened to its jobs so far. -/
structure MemoryRun where
  driver : MemoryDriver
  log : List MemoryEvent

/-- The calls on one driver, in the order their effects take place. -/
def memoryRun : Machine MemoryRun MemoryCall := fun s call =>
  (s.driver.act call).map fun p => ⟨p.1, s.log ++ p.2⟩

/-- A run on a driver nothing was enqueued on. -/
def MemoryRun.start : MemoryRun := ⟨memoryDriver, []⟩

/-! ### What a call can do -/

/-- What one call can do to the jobs of a driver, and what is seen of it. -/
inductive MemoryStep (m : MemoryDriver) (call : MemoryCall) :
    MemoryDriver → List MemoryEvent → Prop where
  | stays (consumers paused : String → Bool) (marked : String → Option ℕ) :
      MemoryStep m call { m with consumers := consumers, paused := paused, marked := marked } []
  | answers {queue id : String} {ref : ℕ} (found : m.jobAt queue id = some ref) :
      MemoryStep m call m [.answered queue id ref]
  | records {request : EnqueueRequest} {envelope : Value} (asked : call = .enqueue request)
      (accepted : ∀ key ∈ request.delivery.keys, key ∈ acceptedDelivery)
      (stored : storedData request.envelope = some envelope) (new : m.already request = none) :
      MemoryStep m call (m.record (m.newJob request envelope))
        [.inLine m.made, .answered request.queue (m.freshId request) m.made]
  | starts {ref : ℕ} (first : m.runnable = some ref) :
      MemoryStep m call (m.start ref)
        [.delivered ref (MemoryDriver.delivery ((m.start ref).jobs ref))]
  | finishes {ref : ℕ} {state : JobState} {failure : Value → Value} (inFlight : ref ∈ m.running)
      (finished : state.isFinished = true) : MemoryStep m call (m.finish ref state failure)
      [.ended ref]
  | putsBack {ref : ℕ} (inFlight : ref ∈ m.running) :
      MemoryStep m call (m.putBack ref) [.putBack ref]
  | requeues {queue id : String} {ref : ℕ} (found : m.jobAt queue id = some ref)
      (failed : (m.jobs ref).state = .failed) : MemoryStep m call (m.requeue ref) [.inLine ref]
  | removes {queue id : String} {ref : ℕ} (found : m.jobAt queue id = some ref)
      (unfinished : (m.jobs ref).state.isFinished = false)
      (inactive : (m.jobs ref).state ≠ .active) : MemoryStep m call (m.remove ref) [.removed ref]

namespace MemoryDriver

variable {m : MemoryDriver}

/-- A job is found among the recorded ones, under its queue and id. -/
theorem jobAt_eq_some {queue id : String} {ref : ℕ} (h : m.jobAt queue id = some ref) :
    ref ∈ m.recorded ∧ (m.jobs ref).queue = queue ∧ (m.jobs ref).id = id := by
  have hfound := List.find?_some h
  exact ⟨List.mem_of_find?_eq_some h, by simpa using hfound⟩

theorem runnable_eq_some {ref : ℕ} (h : m.runnable = some ref) :
    ref ∈ m.pending ∧ m.paused (m.jobs ref).queue = false := by
  have hfound := List.find?_some h
  exact ⟨List.mem_of_find?_eq_some h, by simpa using hfound⟩

theorem already_eq_some {request : EnqueueRequest} {ref : ℕ}
    (h : m.already request = some ref) : ∃ jobId, request.jobId = some jobId ∧ jobId ≠ "" ∧
      m.jobAt request.queue jobId = some ref := by
  unfold already at h
  split at h
  · rename_i jobId hjobId
    split_ifs at h with hempty
    exact ⟨jobId, hjobId, hempty, h⟩
  · cases h

/-- Only the marks change when cancellations are taken. -/
theorem takeCancelled_eq {δ : Type} (named : δ → RunningDelivery) (queue : String)
    (running : List δ) (m : MemoryDriver) :
    ∃ marked, (m.takeCancelled named queue running).2 = { m with marked := marked } := by
  induction running generalizing m with
  | nil => exact ⟨m.marked, rfl⟩
  | cons delivery running ih =>
      obtain ⟨marked, h⟩ := ih (m.takeCancellation queue (named delivery)).2
      refine ⟨marked, ?_⟩
      rw [takeCancelled]
      dsimp only
      rw [h]
      unfold takeCancellation
      dsimp only
      split_ifs <;> rfl

/-- A `runNext` runs the job that is runnable, once its queue has a consumer. -/
theorem runNext_eq_ok_iff {ref : ℕ} {m' : MemoryDriver} :
    m.runNext = .ok (ref, m') ↔
      m.runnable = some ref ∧ m.consumers (m.jobs ref).queue = true ∧ m' = m.start ref := by
  unfold runNext
  cases hrunnable : m.runnable with
  | none =>
      dsimp only
      split_ifs <;> simp
  | some next =>
      dsimp only
      split_ifs with hconsumer
      · constructor
        · intro h
          cases h
          exact ⟨rfl, hconsumer, rfl⟩
        · rintro ⟨h, -, rfl⟩
          cases h
          rfl
      · simp only [Option.some.injEq, false_iff, not_and]
        rintro rfl hyes
        exact absurd hyes hconsumer

theorem step_runNext (call : MemoryCall) : MemoryStep m call m.actRunNext.1 m.actRunNext.2 := by
  unfold actRunNext
  cases hrun : m.runNext with
  | error error => exact .stays _ _ _
  | ok p =>
      obtain ⟨ref, m'⟩ := p
      obtain ⟨hfirst, -, rfl⟩ := runNext_eq_ok_iff.1 hrun
      exact .starts hfirst

theorem step_enqueue (request : EnqueueRequest) :
    MemoryStep m (.enqueue request) (m.actEnqueue request).1 (m.actEnqueue request).2 := by
  unfold actEnqueue enqueue
  cases hrejected : request.delivery.keys.find? fun key => key ∉ acceptedDelivery with
  | some rejected => exact .stays _ _ _
  | none =>
      have haccepted : ∀ key ∈ request.delivery.keys, key ∈ acceptedDelivery := by
        simpa using hrejected
      cases halready : m.already request with
      | some ref =>
          obtain ⟨jobId, -, -, hfound⟩ := already_eq_some halready
          simp only [if_true, (jobAt_eq_some hfound).2.2]
          exact .answers hfound
      | none =>
          cases hstored : storedData request.envelope with
          | none => exact .stays _ _ _
          | some envelope =>
              have hmade : (m.record (m.newJob request envelope)).made ≠ m.made := by simp [record]
              have hid : ((m.record (m.newJob request envelope)).jobs m.made).id =
                  m.freshId request := by simp [record, newJob]
              simp only [if_neg hmade, hid]
              exact .records rfl haccepted hstored halready

theorem step_settle (call : MemoryCall) {ref : ℕ} (href : ref ∈ m.running)
    (outcome : Except Thrown Value) : MemoryStep m call (m.settle ref outcome) [match outcome with
      | .ok _ => .ended ref
      | .error error => if error.cls = some .leaseHeld then .putBack ref else .ended ref] := by
  cases outcome with
  | ok value => exact .finishes href rfl
  | error error =>
      simp only [settle]
      split_ifs
      · exact .putsBack href
      · exact .finishes href rfl

theorem step_retry (call : MemoryCall) (queue id : String) : MemoryStep m call (m.retry queue id).2
    (if (m.retry queue id).1 = .retried then (m.jobAt queue id).toList.map .inLine else []) := by
  unfold retry
  cases hfound : m.jobAt queue id with
  | none => exact .stays _ _ _
  | some ref =>
      by_cases hfailed : (m.jobs ref).state = .failed
      · simpa [hfailed] using .requeues hfound hfailed
      · simpa [hfailed] using .stays m.consumers m.paused m.marked

theorem step_cancel (call : MemoryCall) (queue id : String) :
    MemoryStep m call (m.cancel queue id).2
    (if (m.cancel queue id).1 = .removed then (m.jobAt queue id).toList.map .removed else []) := by
  unfold cancel
  cases hfound : m.jobAt queue id with
  | none => exact .stays _ _ _
  | some ref =>
      by_cases hfinished : (m.jobs ref).state = .completed ∨ (m.jobs ref).state = .failed
      · simpa [hfinished] using .stays m.consumers m.paused m.marked
      · by_cases hactive : (m.jobs ref).state = .active
        · simpa [hactive] using .stays _ _ _
        · have hunfinished : (m.jobs ref).state.isFinished = false := by
            cases hstate : (m.jobs ref).state <;> simp_all [JobState.isFinished]
          simpa [hfinished, hactive] using .removes hfound hunfinished hactive

/-- **What a call can do to the jobs.** -/
theorem act_cases {call : MemoryCall} {p : MemoryDriver × List MemoryEvent}
    (h : m.act call = some p) : MemoryStep m call p.1 p.2 := by
  cases call with
  | enqueue request =>
      obtain rfl := Option.some.inj h
      exact step_enqueue request
  | runNext =>
      obtain rfl := Option.some.inj h
      exact step_runNext _
  | drain =>
      obtain rfl := Option.some.inj h
      split_ifs
      · exact step_runNext _
      · exact .stays _ _ _
  | settle ref outcome =>
      simp only [act] at h
      split_ifs at h with href
      obtain rfl := Option.some.inj h
      exact step_settle _ href outcome
  | retry queue id =>
      obtain rfl := Option.some.inj h
      exact step_retry _ queue id
  | cancel queue id =>
      obtain rfl := Option.some.inj h
      exact step_cancel _ queue id
  | takeCancelled queue running =>
      obtain rfl := Option.some.inj h
      obtain ⟨marked, hmarked⟩ := takeCancelled_eq id queue running m
      rw [hmarked]
      exact .stays _ _ _
  | pause queue | resume queue | consume queue | close queue =>
      obtain rfl := Option.some.inj h
      exact .stays _ _ _

end MemoryDriver

theorem memoryRun_cases {s t : MemoryRun} {call : MemoryCall} (h : memoryRun s call = some t) :
    ∃ events, MemoryStep s.driver call t.driver events ∧ t.log = s.log ++ events := by
  obtain ⟨p, hact, rfl⟩ := Option.map_eq_some_iff.1 h
  exact ⟨p.2, MemoryDriver.act_cases hact, rfl⟩

end Jubs
