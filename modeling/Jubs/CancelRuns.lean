/-
**Cancels, deliveries and sweeps as one machine.**

A cancel of the Redis driver reads the job in one round trip, its state in a second, and writes its
mark in a third; the memory driver does all of it at once.  A runtime sweeps: it groups the
deliveries that are in its `live` set by queue, asks the driver about one group after the other, and
aborts the signals of those it is given back.  Jobs change hands meanwhile.

Main definitions:

* `Jubs.LiveDelivery`, `Jubs.liveByQueue` — a delivery a runtime runs, and the groups of a sweep;
* `Jubs.Cancel`, `Jubs.Sweep` — one call of `cancel`, and one pass of `sweepCancellations`;
* `Jubs.CancelState`, `Jubs.CancelEvent`, `Jubs.cancelStep` — the machine over the marks of a
  driver;
* `Jubs.cancelRuns` — the machine of each driver;
* `Jubs.CancelStep` — what a step can do.

Main results:

* `Jubs.mem_liveByQueue` — a group holds the live deliveries of its queue, in their order;
* `Jubs.cancelStep_cases` — **what a step can do to the marks, the cancels and the sweeps**;
* `Jubs.MemoryDriver.cancel_eq` — the cancel of the memory driver is the one of the machine.
-/

import Jubs.Cancellation
import Jubs.LeaseRuns

set_option autoImplicit false

namespace Jubs

/-! ### Deliveries, and the groups a sweep asks about -/

/-- The queue and the stored id of a job. -/
abbrev JobRef : Type := QueueName × String

/-- A delivery a runtime runs.  Each is an entry of its own, and `controller` tells which: the place
at which the delivery was handed out. -/
structure LiveDelivery where
  queue : QueueName
  id : String
  attemptsStarted : ℕ
  name : String
  controller : ℕ
deriving DecidableEq

namespace LiveDelivery

/-- The job a delivery is one of. -/
def job (d : LiveDelivery) : JobRef := (d.queue, d.id)

/-- A delivery as the cancellation channel names it. -/
def named (d : LiveDelivery) : RunningDelivery := ⟨d.id, d.attemptsStarted⟩

end LiveDelivery

/-- `running.push(delivery)`, in the group of its queue. -/
def pushDelivery (d : LiveDelivery) :
    List (QueueName × List LiveDelivery) → List (QueueName × List LiveDelivery)
  | [] => [(d.queue, [d])]
  | (queue, running) :: byQueue =>
      if queue = d.queue then (queue, running ++ [d]) :: byQueue
      else (queue, running) :: pushDelivery d byQueue

/-- `liveByQueue(live)`. -/
def liveByQueue (live : List LiveDelivery) : List (QueueName × List LiveDelivery) :=
  live.foldl (fun byQueue d => pushDelivery d byQueue) []

/-- A delivery of a queue without a group opens one. -/
theorem pushDelivery_of_not_mem {d : LiveDelivery}
    {byQueue : List (QueueName × List LiveDelivery)} (h : d.queue ∉ byQueue.map Prod.fst) :
    pushDelivery d byQueue = byQueue ++ [(d.queue, [d])] := by
  induction byQueue with
  | nil => rfl
  | cons p byQueue ih =>
      obtain ⟨queue, running⟩ := p
      simp only [List.map_cons, List.mem_cons, not_or] at h
      rw [pushDelivery, if_neg (Ne.symm h.1), ih h.2, List.cons_append]

/-- Any other joins the group of its queue. -/
theorem pushDelivery_of_mem {d : LiveDelivery}
    {byQueue : List (QueueName × List LiveDelivery)} (hnodup : (byQueue.map Prod.fst).Nodup)
    (h : d.queue ∈ byQueue.map Prod.fst) :
    pushDelivery d byQueue =
      byQueue.map fun p => if p.1 = d.queue then (p.1, p.2 ++ [d]) else p := by
  induction byQueue with
  | nil => cases h
  | cons p byQueue ih =>
      obtain ⟨queue, running⟩ := p
      rw [List.map_cons, List.nodup_cons] at hnodup
      rw [pushDelivery, List.map_cons]
      by_cases hqueue : queue = d.queue
      · rw [if_pos hqueue, if_pos hqueue]
        -- no group after it is of the same queue
        have hrest : byQueue.map (fun p => if p.1 = d.queue then (p.1, p.2 ++ [d]) else p) =
            byQueue := by
          rw [← List.map_id byQueue, List.map_map]
          refine List.map_congr_left fun p hp => if_neg fun hp' => hnodup.1 ?_
          exact List.mem_map.2 ⟨p, hp, hp'.trans hqueue.symm⟩
        rw [hrest]
      · have hmem : d.queue ∈ byQueue.map Prod.fst := by
          rcases List.mem_cons.1 h with heq | hmem
          · exact absurd heq.symm hqueue
          · exact hmem
        rw [if_neg hqueue, if_neg hqueue, ih hnodup.2 hmem]

/-- The groups of a list of deliveries: one for each queue, with the deliveries of that queue. -/
structure Grouped (live : List LiveDelivery)
    (byQueue : List (QueueName × List LiveDelivery)) : Prop where
  nodup : (byQueue.map Prod.fst).Nodup
  group : ∀ p ∈ byQueue, p.2 = live.filter fun d => d.queue = p.1
  holds : ∀ d ∈ live, d.queue ∈ byQueue.map Prod.fst

theorem Grouped.push {live : List LiveDelivery} {byQueue : List (QueueName × List LiveDelivery)}
    (h : Grouped live byQueue) (d : LiveDelivery) :
    Grouped (live ++ [d]) (pushDelivery d byQueue) := by
  by_cases hmem : d.queue ∈ byQueue.map Prod.fst
  · have hkeys : (pushDelivery d byQueue).map Prod.fst = byQueue.map Prod.fst := by
      rw [pushDelivery_of_mem h.nodup hmem, List.map_map]
      refine List.map_congr_left fun p _ => ?_
      simp only [Function.comp_apply]
      split_ifs <;> rfl
    refine ⟨hkeys ▸ h.nodup, ?_, ?_⟩
    · intro p hp
      rw [pushDelivery_of_mem h.nodup hmem] at hp
      obtain ⟨p', hp', rfl⟩ := List.mem_map.1 hp
      split_ifs with hqueue
      · rw [List.filter_append, ← h.group p' hp', List.filter_singleton]
        simp [hqueue]
      · rw [List.filter_append, ← h.group p' hp', List.filter_singleton]
        simp [Ne.symm hqueue]
    · intro d' hd'
      rw [hkeys]
      rcases List.mem_append.1 hd' with hd' | hd'
      · exact h.holds d' hd'
      · exact List.mem_singleton.1 hd' ▸ hmem
  · rw [pushDelivery_of_not_mem hmem]
    refine ⟨?_, ?_, ?_⟩
    · rw [List.map_append, List.map_singleton, ← List.concat_eq_append, List.nodup_concat]
      exact ⟨hmem, h.nodup⟩
    · intro p hp
      rw [List.filter_append, List.filter_singleton]
      rcases List.mem_append.1 hp with hp | hp
      · have hqueue : d.queue ≠ p.1 := by
          intro heq
          exact hmem (heq ▸ List.mem_map_of_mem hp)
        simp [hqueue, h.group p hp]
      · obtain rfl := List.mem_singleton.1 hp
        -- no delivery so far is of this queue
        have hnone : live.filter (fun d' => d'.queue = d.queue) = [] := by
          rw [List.filter_eq_nil_iff]
          intro d' hd' heq
          exact hmem (of_decide_eq_true heq ▸ h.holds d' hd')
        simp [hnone]
    · intro d' hd'
      rw [List.map_append, List.mem_append]
      rcases List.mem_append.1 hd' with hd' | hd'
      · exact Or.inl (h.holds d' hd')
      · exact Or.inr (by simp [List.mem_singleton.1 hd'])

/-- **A sweep asks about every live delivery, in the group of its queue.** -/
theorem grouped_liveByQueue (live : List LiveDelivery) : Grouped live (liveByQueue live) := by
  induction live using List.reverseRecOn with
  | nil => exact ⟨List.nodup_nil, by simp [liveByQueue], by simp⟩
  | append_singleton live d ih =>
      have hpush : liveByQueue (live ++ [d]) = pushDelivery d (liveByQueue live) := by
        simp [liveByQueue]
      rw [hpush]
      exact ih.push d

/-! ### Calls of `cancel`, and sweeps -/

/-- A job as a cancel reads it: its state while it is kept, and the count of its deliveries. -/
structure CancelJob where
  state : Option JobState
  attemptsStarted : ℕ

/-- Where a call of `cancel` stands: at `getJob`, at `getState` with the count that `getJob`
answered, at `requestCancel`, or at `remove`.  `locked` tells the calls of
`cancelRefusedByALock`. -/
inductive CancelStage where
  | reading (locked : Bool)
  | read (locked : Bool) (attemptsStarted : ℕ)
  | marking (attemptsStarted : ℕ)
  | removing
  | answered (answer : CancelResult)
  | rejected

namespace CancelStage

/-- Whether the call has returned. -/
def returned : CancelStage → Bool
  | .answered _ | .rejected => true
  | .reading _ | .read _ _ | .marking _ | .removing => false

/-- The count that `getJob` answered and a mark may still be written for. -/
def count : CancelStage → Option ℕ
  | .read _ n | .marking n => some n
  | .reading _ | .removing | .answered _ | .rejected => none

end CancelStage

/-- One call of `cancel`.  `target` is the count of deliveries of the job at the `getState` that
found it active, and `wrote` the count in the mark the call wrote. -/
structure Cancel where
  job : JobRef
  stage : CancelStage
  target : Option ℕ
  wrote : Option ℕ

/-- `cancelUnderLock(state)`. -/
def cancelUnderLock (state : JobState) : CancelResult :=
  if state = .active then .aborting else .childrenRunning

namespace Cancel

/-- `getJob(id)`. -/
def readJob (job : CancelJob) (cancel : Cancel) : Option Cancel :=
  match cancel.stage with
  | .reading locked => some { cancel with stage := match job.state with
      | none => .answered .unknownJob
      | some _ => .read locked job.attemptsStarted }
  | _ => none

/-- `getState()`, of a job that may be gone by then. -/
def readState (job : CancelJob) (cancel : Cancel) : Option Cancel :=
  match cancel.stage with
  | .read locked n =>
      let state := job.state.getD .unknown
      let marking := { cancel with stage := .marking n, target := some job.attemptsStarted }
      if locked then
        if cancelUnderLock state = .aborting then some marking
        else some { cancel with stage := .answered (cancelUnderLock state) }
      else if state.isFinished then some { cancel with stage := .answered (.finished state) }
      else if state = .active then some marking
      else some { cancel with stage := .removing }
  | _ => none

/-- `remove({ removeChildren: true })`, which a lock may refuse. -/
def remove (locked : Bool) (cancel : Cancel) : Option Cancel :=
  match cancel.stage with
  | .removing =>
      some { cancel with stage := if locked then .reading true else .answered .removed }
  | _ => none

/-- A round trip that rejects. -/
def reject (cancel : Cancel) : Option Cancel :=
  if cancel.stage.returned then none else some { cancel with stage := .rejected }

/-- A call whose mark for a count is written. -/
def written (n : ℕ) (heard : Bool) (cancel : Cancel) : Cancel :=
  { cancel with stage := if heard then .answered .aborting else .rejected, wrote := some n }

end Cancel

/-- What `cancel` answers where it reads and writes in one step, and the count it marks. -/
def cancelAtOnce (job : CancelJob) : CancelResult × Option ℕ :=
  match job.state with
  | none => (.unknownJob, none)
  | some state =>
      if state = .completed ∨ state = .failed then (.finished state, none)
      else if state = .active then (.aborting, some job.attemptsStarted)
      else (.removed, none)

/-- One pass of `sweepCancellations`: the groups it still asks about, and the deliveries it was
given back and aborts next. -/
structure Sweep where
  asks : List (QueueName × List LiveDelivery)
  taken : List LiveDelivery

/-- A sweep found a delivery by the mark of a cancel. -/
structure Find where
  cancel : ℕ
  sweep : ℕ
  delivery : LiveDelivery

/-! ### The machine -/

/-- The marks, the jobs, the deliveries in the order in which they were handed out, the `live` set
of each runtime, the reasons of the signals, the calls of `cancel` and the sweeps.  Three fields
record what happened: the cancel that wrote the last mark of a job, whether that mark may have
expired since, and what sweeps found. -/
structure CancelState (μ : Type) where
  marks : μ
  jobs : JobRef → CancelJob
  handed : List LiveDelivery
  entered : List ℕ
  live : ℕ → List LiveDelivery
  reasons : ℕ → Option Thrown
  cancels : ℕ → Option Cancel
  sweeps : ℕ → Option Sweep
  writer : JobRef → ℕ
  expired : JobRef → Bool
  finds : List Find

/-- No job, no delivery, no call. -/
def CancelState.init {μ : Type} (store : MarkStore μ) : CancelState μ where
  marks := store.empty
  jobs := fun _ => ⟨none, 0⟩
  handed := []
  entered := []
  live := fun _ => []
  reasons := fun _ => none
  cancels := fun _ => none
  sweeps := fun _ => none
  writer := fun _ => 0
  expired := fun _ => false
  finds := []

/-- What happens.  A number names a delivery by its controller, a cancel and a sweep by a number
that is new when it begins. -/
inductive CancelEvent where
  /-- A job is added, ends, is retried or rescheduled, stalls or goes away. -/
  | moves (job : JobRef) (state : Option JobState)
  /-- A worker takes a job, and its count of deliveries grows. -/
  | hands (job : JobRef) (attemptsStarted : ℕ) (name : String)
  /-- `live.add(entry)`, in the runtime whose worker took the delivery. -/
  | enters (delivery : LiveDelivery) (runtime : ℕ)
  /-- `live.delete(entry)`. -/
  | ends (runtime controller : ℕ)
  | calls (cancel : ℕ) (job : JobRef)
  | readsJob (cancel : ℕ)
  | readsState (cancel : ℕ)
  /-- `requestCancel` writes, and its answer may be lost. -/
  | marks (cancel : ℕ) (heard : Bool)
  | removes (cancel : ℕ) (locked : Bool)
  | rejects (cancel : ℕ)
  /-- A cancel of the memory driver. -/
  | cancels (cancel : ℕ) (job : JobRef)
  | expires (job : JobRef)
  | sweeps (sweep runtime : ℕ)
  /-- `takeCancelled` of the next group. -/
  | takes (sweep : ℕ)
  /-- The signals of what it gave back are aborted. -/
  | aborts (sweep : ℕ)
  /-- `takeCancelled` rejects, and the sweep ends. -/
  | fails (sweep : ℕ)

namespace CancelState

variable {μ : Type}

/-- A job stands in another state. -/
def moveJob (s : CancelState μ) (job : JobRef) (state : Option JobState) : CancelState μ :=
  { s with jobs := Function.update s.jobs job { s.jobs job with state := state } }

/-- A delivery is handed out. -/
def hand (s : CancelState μ) (d : LiveDelivery) : CancelState μ :=
  { s with
    jobs := Function.update s.jobs d.job ⟨some .active, d.attemptsStarted⟩
    handed := s.handed ++ [d] }

/-- A call of `cancel` stands elsewhere. -/
def putCancel (s : CancelState μ) (c : ℕ) (cancel : Cancel) : CancelState μ :=
  { s with cancels := Function.update s.cancels c (some cancel) }

/-- A sweep stands elsewhere. -/
def putSweep (s : CancelState μ) (i : ℕ) (sweep : Sweep) : CancelState μ :=
  { s with sweeps := Function.update s.sweeps i (some sweep) }

/-- The set of a runtime changes. -/
def putLive (s : CancelState μ) (runtime : ℕ) (live : List LiveDelivery) : CancelState μ :=
  { s with live := Function.update s.live runtime live }

/-- A call of `cancel` moves on. -/
def advance (s : CancelState μ) (c : ℕ) (f : Cancel → Option Cancel) : Option (CancelState μ) :=
  (s.cancels c).bind fun cancel => (f cancel).map (s.putCancel c)

/-- A cancel writes its mark. -/
def mark (store : MarkStore μ) (s : CancelState μ) (c : ℕ) (job : JobRef) (n : ℕ) :
    CancelState μ :=
  { s with
    marks := store.request job.1.name ⟨job.2, n⟩ s.marks
    writer := Function.update s.writer job c
    expired := Function.update s.expired job false }

/-- The signals of some deliveries are aborted, one after the other. -/
def abortAll : List LiveDelivery → (ℕ → Option Thrown) → ℕ → Option Thrown
  | [], reasons => reasons
  | d :: taken, reasons => abortAll taken (Function.update reasons d.controller
      (abort (cancelledError d.name none) (reasons d.controller)))

/-- `takeCancelled(queue, running)` of a sweep, which has `rest` to ask about after it. -/
def take (store : MarkStore μ) (s : CancelState μ) (i : ℕ) (queue : QueueName)
    (running : List LiveDelivery) (rest : List (QueueName × List LiveDelivery)) : CancelState μ :=
  let (taken, marks) := store.take LiveDelivery.named queue.name running s.marks
  { s.putSweep i ⟨rest, taken⟩ with
    marks := marks
    finds := s.finds ++ taken.map fun d => ⟨s.writer d.job, i, d⟩ }

end CancelState

/-- Cancels, deliveries and sweeps over the marks of a driver, while an id stays with one job. -/
def cancelStep {μ : Type} (store : MarkStore μ) : Machine (CancelState μ) CancelEvent :=
  fun s event => match event with
  | .moves job state => if state = some .active then none else some (s.moveJob job state)
  | .hands job n name =>
      if (s.jobs job).state.isSome ∧ (s.jobs job).attemptsStarted < n then
        some (s.hand ⟨job.1, job.2, n, name, s.handed.length⟩)
      else none
  | .enters d runtime =>
      if d ∈ s.handed ∧ d.controller ∉ s.entered then
        some { s.putLive runtime (s.live runtime ++ [d]) with entered := d.controller :: s.entered }
      else none
  | .ends runtime k => some (s.putLive runtime ((s.live runtime).filter (·.controller ≠ k)))
  | .calls c job =>
      if s.cancels c = none then some (s.putCancel c ⟨job, .reading false, none, none⟩) else none
  | .readsJob c => (s.cancels c).bind fun cancel => s.advance c (Cancel.readJob (s.jobs cancel.job))
  | .readsState c => (s.cancels c).bind fun cancel =>
      s.advance c (Cancel.readState (s.jobs cancel.job))
  | .marks c heard => (s.cancels c).bind fun cancel =>
      match cancel.stage with
      | .marking n => some ((s.mark store c cancel.job n).putCancel c (cancel.written n heard))
      | _ => none
  | .removes c locked => (s.cancels c).bind fun cancel =>
      (if locked then s else s.moveJob cancel.job none).advance c (Cancel.remove locked)
  | .rejects c => s.advance c Cancel.reject
  | .cancels c job =>
      if s.cancels c = none then
        match cancelAtOnce (s.jobs job) with
        | (answer, some n) =>
            some ((s.mark store c job n).putCancel c ⟨job, .answered answer, some n, some n⟩)
        | (answer, none) =>
            some ((if answer = .removed then s.moveJob job none else s).putCancel c
              ⟨job, .answered answer, none, none⟩)
      else none
  | .expires job =>
      some { s with
        marks := store.expire job.1.name job.2 s.marks
        expired := Function.update s.expired job true }
  | .sweeps i runtime =>
      if s.sweeps i = none ∧ s.live runtime ≠ [] then
        some (s.putSweep i ⟨liveByQueue (s.live runtime), []⟩)
      else none
  | .takes i => (s.sweeps i).bind fun sweep =>
      match sweep.asks, sweep.taken with
      | (queue, running) :: rest, [] => some (s.take store i queue running rest)
      | _, _ => none
  | .aborts i => (s.sweeps i).bind fun sweep =>
      match sweep.taken with
      | [] => none
      | taken => some { s.putSweep i ⟨sweep.asks, []⟩ with
          reasons := CancelState.abortAll taken s.reasons }
  | .fails i => (s.sweeps i).bind fun sweep =>
      if sweep.taken = [] then some (s.putSweep i ⟨[], []⟩) else none

/-! ### What a step can do -/

/-- The count a cancel may write: the one the job has, or the one the call read of it. -/
def CancelState.MayCount {μ : Type} (s : CancelState μ) (c : ℕ) (job : JobRef) (n : ℕ) : Prop :=
  n = (s.jobs job).attemptsStarted ∨
    ∃ cancel, s.cancels c = some cancel ∧ cancel.stage.count = some n

/-- A call that has not returned goes on, or a new one begins. -/
structure CancelState.GoesOn {μ : Type} (s : CancelState μ) (c : ℕ) (cancel' : Cancel) : Prop where
  old : ∀ cancel, s.cancels c = some cancel →
    cancel.stage.returned = false ∧ cancel'.job = cancel.job
  count : ∀ n, cancel'.stage.count = some n → s.MayCount c cancel'.job n

/-- What a step of the machine can do. -/
inductive CancelStep {μ : Type} (store : MarkStore μ) (s : CancelState μ) :
    CancelState μ → Prop where
  | moved (job : JobRef) (state : Option JobState) : CancelStep store s (s.moveJob job state)
  | handed (job : JobRef) (n : ℕ) (name : String) (h : (s.jobs job).attemptsStarted < n) :
      CancelStep store s (s.hand ⟨job.1, job.2, n, name, s.handed.length⟩)
  | entered (d : LiveDelivery) (runtime : ℕ) (hd : d ∈ s.handed) (h : d.controller ∉ s.entered) :
      CancelStep store s { s.putLive runtime (s.live runtime ++ [d]) with
        entered := d.controller :: s.entered }
  | ended (runtime k : ℕ) :
      CancelStep store s (s.putLive runtime ((s.live runtime).filter (·.controller ≠ k)))
  | wentOn (s' : CancelState μ) (hs' : s' = s ∨ ∃ job state, s' = s.moveJob job state) (c : ℕ)
      (cancel' : Cancel) (h : s.GoesOn c cancel')
      (hwrote : cancel'.wrote = (s.cancels c).bind Cancel.wrote) :
      CancelStep store s (s'.putCancel c cancel')
  | marked (c n : ℕ) (cancel' : Cancel) (h : s.GoesOn c cancel') (hn : s.MayCount c cancel'.job n)
      (hwrote : cancel'.wrote = some n) (hreturned : cancel'.stage.returned = true) :
      CancelStep store s ((s.mark store c cancel'.job n).putCancel c cancel')
  | expired (job : JobRef) : CancelStep store s { s with
      marks := store.expire job.1.name job.2 s.marks
      expired := Function.update s.expired job true }
  | swept (i runtime : ℕ) (h : s.sweeps i = none) :
      CancelStep store s (s.putSweep i ⟨liveByQueue (s.live runtime), []⟩)
  | took (i : ℕ) (queue : QueueName) (running : List LiveDelivery)
      (rest : List (QueueName × List LiveDelivery))
      (h : s.sweeps i = some ⟨(queue, running) :: rest, []⟩) :
      CancelStep store s (s.take store i queue running rest)
  | aborted (i : ℕ) (sweep : Sweep) (h : s.sweeps i = some sweep) :
      CancelStep store s { s.putSweep i ⟨sweep.asks, []⟩ with
        reasons := CancelState.abortAll sweep.taken s.reasons }
  | failed (i : ℕ) (sweep : Sweep) (h : s.sweeps i = some sweep) (hnone : sweep.taken = []) :
      CancelStep store s (s.putSweep i ⟨[], []⟩)

namespace Cancel

variable {job : CancelJob} {cancel cancel' : Cancel}

/-- What `getJob` leaves of a call. -/
theorem readJob_eq_some (h : cancel.readJob job = some cancel') :
    cancel.stage.returned = false ∧ cancel'.job = cancel.job ∧ cancel'.wrote = cancel.wrote ∧
      (∀ n, cancel'.stage ≠ .marking n) ∧ cancel'.stage ≠ .answered .aborting ∧
      ∀ n, cancel'.stage.count = some n → n = job.attemptsStarted := by
  unfold readJob at h
  split at h
  · rename_i locked hstage
    obtain rfl := Option.some.inj h
    refine ⟨by rw [hstage]; rfl, rfl, rfl, ?_⟩
    cases job.state with
    | none => exact ⟨fun n => by simp, by simp, fun n hn => by cases hn⟩
    | some state => exact ⟨fun n => by simp, by simp, fun n hn => (Option.some.inj hn).symm⟩
  · cases h

/-- What `getState` leaves of a call: a mark is due only for the count that `getJob` answered. -/
theorem readState_eq_some (h : cancel.readState job = some cancel') :
    ∃ locked n, cancel.stage = .read locked n ∧ cancel'.job = cancel.job ∧
      cancel'.wrote = cancel.wrote ∧
      (cancel'.stage = .marking n ∧ job.state = some .active ∧
          cancel'.target = some job.attemptsStarted ∨
        cancel'.stage.count = none ∧ cancel'.stage ≠ .answered .aborting) := by
  unfold readState at h
  split at h
  · rename_i locked n hstage
    refine ⟨locked, n, hstage, ?_⟩
    have hactive : job.state.getD .unknown = .active → job.state = some .active := by
      cases job.state <;> simp
    dsimp only at h
    split_ifs at h with hlocked hreached hfinished hstate
    · obtain rfl := Option.some.inj h
      refine ⟨rfl, rfl, Or.inl ⟨rfl, hactive ?_, rfl⟩⟩
      by_contra hne
      rw [cancelUnderLock, if_neg hne] at hreached
      cases hreached
    · obtain rfl := Option.some.inj h
      exact ⟨rfl, rfl, Or.inr ⟨rfl, fun heq => hreached (CancelStage.answered.inj heq)⟩⟩
    · obtain rfl := Option.some.inj h
      exact ⟨rfl, rfl, Or.inr ⟨rfl, by simp⟩⟩
    · obtain rfl := Option.some.inj h
      exact ⟨rfl, rfl, Or.inl ⟨rfl, hactive hstate, rfl⟩⟩
    · obtain rfl := Option.some.inj h
      exact ⟨rfl, rfl, Or.inr ⟨rfl, by simp⟩⟩
  · cases h

/-- What `remove` leaves of a call. -/
theorem remove_eq_some {locked : Bool} (h : cancel.remove locked = some cancel') :
    cancel.stage = .removing ∧ cancel'.job = cancel.job ∧ cancel'.wrote = cancel.wrote ∧
      cancel'.stage.count = none ∧ cancel'.stage ≠ .answered .aborting := by
  unfold remove at h
  split at h
  · rename_i hstage
    obtain rfl := Option.some.inj h
    refine ⟨hstage, rfl, rfl, ?_⟩
    cases locked <;> simp [CancelStage.count]
  · cases h

/-- What a rejection leaves of a call. -/
theorem reject_eq_some (h : cancel.reject = some cancel') :
    cancel.stage.returned = false ∧ cancel'.job = cancel.job ∧ cancel'.wrote = cancel.wrote ∧
      cancel'.stage = .rejected := by
  unfold reject at h
  split_ifs at h with hreturned
  obtain rfl := Option.some.inj h
  exact ⟨by simpa using hreturned, rfl, rfl, rfl⟩

end Cancel

/-- A cancel that acts at once marks the count of a job that is active, and answers `aborting`
exactly then. -/
theorem cancelAtOnce_eq {job : CancelJob} {answer : CancelResult} {wrote : Option ℕ}
    (h : cancelAtOnce job = (answer, wrote)) :
    (wrote = none ∧ answer ≠ .aborting) ∨
      (wrote = some job.attemptsStarted ∧ answer = .aborting ∧ job.state = some .active) := by
  unfold cancelAtOnce at h
  split at h
  · cases h
    exact Or.inl ⟨rfl, by simp⟩
  · rename_i state hstate
    split_ifs at h with hfinished hactive
    · cases h
      exact Or.inl ⟨rfl, by simp⟩
    · cases h
      exact Or.inr ⟨rfl, rfl, hactive ▸ hstate⟩
    · cases h
      exact Or.inl ⟨rfl, by simp⟩

theorem CancelState.advance_eq_some {μ : Type} {s t : CancelState μ} {c : ℕ}
    {f : Cancel → Option Cancel} (h : s.advance c f = some t) :
    ∃ cancel cancel', s.cancels c = some cancel ∧ f cancel = some cancel' ∧
      t = s.putCancel c cancel' := by
  obtain ⟨cancel, hcancel, h⟩ := Option.bind_eq_some_iff.1 h
  obtain ⟨cancel', hf, rfl⟩ := Option.map_eq_some_iff.1 h
  exact ⟨cancel, cancel', hcancel, hf, rfl⟩

section

variable {μ : Type} {store : MarkStore μ} {s t : CancelState μ}

/-- A call that moves on from a known stage. -/
theorem CancelState.GoesOn.of_eq {c : ℕ} {cancel cancel' : Cancel} (h : s.cancels c = some cancel)
    (hreturned : cancel.stage.returned = false) (hjob : cancel'.job = cancel.job)
    (hcount : ∀ n, cancel'.stage.count = some n → s.MayCount c cancel'.job n) :
    s.GoesOn c cancel' := by
  refine ⟨fun old hold => ?_, hcount⟩
  obtain rfl := Option.some.inj (h.symm.trans hold)
  exact ⟨hreturned, hjob⟩

/-- A call that begins. -/
theorem CancelState.GoesOn.of_none {c : ℕ} {cancel' : Cancel} (h : s.cancels c = none)
    (hcount : cancel'.stage.count = none) : s.GoesOn c cancel' := by
  refine ⟨fun old hold => ?_, fun n hn => ?_⟩
  · rw [h] at hold
    cases hold
  · rw [hcount] at hn
    cases hn

/-- **What a step can do to the marks, the cancels and the sweeps.** -/
theorem cancelStep_cases {event : CancelEvent} (h : cancelStep store s event = some t) :
    CancelStep store s t := by
  cases event with
  | moves job state =>
      simp only [cancelStep] at h
      split_ifs at h
      obtain rfl := Option.some.inj h
      exact .moved job state
  | hands job n name =>
      simp only [cancelStep] at h
      split_ifs at h with hcount
      obtain rfl := Option.some.inj h
      exact .handed job n name hcount.2
  | enters d runtime =>
      simp only [cancelStep] at h
      split_ifs at h with hnew
      obtain rfl := Option.some.inj h
      exact .entered d runtime hnew.1 hnew.2
  | ends runtime k =>
      obtain rfl := Option.some.inj h
      exact .ended runtime k
  | calls c job =>
      simp only [cancelStep] at h
      split_ifs at h with hfresh
      obtain rfl := Option.some.inj h
      exact .wentOn s (Or.inl rfl) c _ (.of_none hfresh rfl) (by rw [hfresh]; rfl)
  | readsJob c =>
      obtain ⟨cancel, hcancel, h⟩ := Option.bind_eq_some_iff.1 h
      obtain ⟨old, cancel', hold, hread, rfl⟩ := CancelState.advance_eq_some h
      obtain rfl := Option.some.inj (hcancel.symm.trans hold)
      obtain ⟨hreturned, hjob, hwrote, -, -, hcount⟩ := Cancel.readJob_eq_some hread
      refine .wentOn s (Or.inl rfl) c cancel' (.of_eq hold hreturned hjob fun n hn => ?_)
        (by rw [hold]; exact hwrote)
      exact Or.inl (hjob ▸ hcount n hn)
  | readsState c =>
      obtain ⟨cancel, hcancel, h⟩ := Option.bind_eq_some_iff.1 h
      obtain ⟨old, cancel', hold, hread, rfl⟩ := CancelState.advance_eq_some h
      obtain rfl := Option.some.inj (hcancel.symm.trans hold)
      obtain ⟨locked, n, hstage, hjob, hwrote, hnext⟩ := Cancel.readState_eq_some hread
      have hreturned : cancel.stage.returned = false := by
        rw [hstage]
        rfl
      refine .wentOn s (Or.inl rfl) c cancel' (.of_eq hold hreturned hjob fun n' hn' => ?_)
        (by rw [hold]; exact hwrote)
      rcases hnext with ⟨hmarking, -⟩ | ⟨hnone, -⟩
      · refine Or.inr ⟨cancel, hold, ?_⟩
        rw [hmarking] at hn'
        rw [hstage]
        exact hn'
      · rw [hnone] at hn'
        cases hn'
  | marks c heard =>
      obtain ⟨cancel, hcancel, h⟩ := Option.bind_eq_some_iff.1 h
      split at h
      · rename_i n hstage
        obtain rfl := Option.some.inj h
        have hreturned : cancel.stage.returned = false := by
          rw [hstage]
          rfl
        refine .marked c n (cancel.written n heard) (.of_eq hcancel hreturned rfl fun n' hn' => ?_)
          (Or.inr ⟨cancel, hcancel, by rw [hstage]; rfl⟩) rfl (by cases heard <;> rfl)
        cases heard <;> cases hn'
      · cases h
  | removes c locked =>
      obtain ⟨cancel, hcancel, h⟩ := Option.bind_eq_some_iff.1 h
      have hs' : (if locked then s else s.moveJob cancel.job none) = s ∨
          ∃ job state, (if locked then s else s.moveJob cancel.job none) = s.moveJob job state := by
        cases locked with
        | true => exact Or.inl rfl
        | false => exact Or.inr ⟨_, _, rfl⟩
      have hcancels : (if locked then s else s.moveJob cancel.job none).cancels = s.cancels := by
        cases locked <;> rfl
      obtain ⟨old, cancel', hold, hremove, rfl⟩ := CancelState.advance_eq_some h
      rw [hcancels] at hold
      obtain ⟨hstage, hjob, hwrote, hcount, -⟩ := Cancel.remove_eq_some hremove
      refine .wentOn _ hs' c cancel' (.of_eq hold (by rw [hstage]; rfl) hjob fun n hn => ?_)
        (by rw [hold]; exact hwrote)
      rw [hcount] at hn
      cases hn
  | rejects c =>
      obtain ⟨old, cancel', hold, hreject, rfl⟩ := CancelState.advance_eq_some h
      obtain ⟨hreturned, hjob, hwrote, hstage⟩ := Cancel.reject_eq_some hreject
      refine .wentOn s (Or.inl rfl) c cancel' (.of_eq hold hreturned hjob fun n hn => ?_)
        (by rw [hold]; exact hwrote)
      rw [hstage] at hn
      cases hn
  | cancels c job =>
      simp only [cancelStep] at h
      split_ifs at h with hfresh
      split at h
      · rename_i answer n hanswer
        obtain rfl := Option.some.inj h
        refine .marked c n ⟨job, .answered answer, some n, some n⟩ (.of_none hfresh rfl) ?_ rfl rfl
        rcases cancelAtOnce_eq hanswer with ⟨hnone, -⟩ | ⟨hn, -⟩
        · cases hnone
        · exact Or.inl (Option.some.inj hn)
      · obtain rfl := Option.some.inj h
        refine .wentOn _ ?_ c _ (.of_none hfresh rfl) (by rw [hfresh]; rfl)
        split_ifs
        · exact Or.inr ⟨_, _, rfl⟩
        · exact Or.inl rfl
  | expires job =>
      obtain rfl := Option.some.inj h
      exact .expired job
  | sweeps i runtime =>
      simp only [cancelStep] at h
      split_ifs at h with hnew
      obtain rfl := Option.some.inj h
      exact .swept i runtime hnew.1
  | takes i =>
      obtain ⟨⟨asks, taken⟩, hsweep, h⟩ := Option.bind_eq_some_iff.1 h
      dsimp only at h
      split at h
      · obtain rfl := Option.some.inj h
        exact .took i _ _ _ hsweep
      · cases h
  | aborts i =>
      obtain ⟨sweep, hsweep, h⟩ := Option.bind_eq_some_iff.1 h
      split at h
      · cases h
      · obtain rfl := Option.some.inj h
        exact .aborted i sweep hsweep
  | fails i =>
      obtain ⟨sweep, hsweep, h⟩ := Option.bind_eq_some_iff.1 h
      split_ifs at h with hnone
      obtain rfl := Option.some.inj h
      exact .failed i sweep hsweep hnone

end

/-! ### Both drivers -/

/-- What a driver keeps of its marks. -/
def Driver.Marks : Driver → Type
  | .redis => RedisMarks
  | .memory => MemoryDriver

/-- The marks of a driver. -/
def Driver.marks : (driver : Driver) → MarkStore driver.Marks
  | .redis => redisMarks
  | .memory => memoryMarks

/-- Whether an event is one of a driver: the cancels of Redis take their round trips and its marks
expire, and the memory driver cancels at once. -/
def Driver.offers : Driver → CancelEvent → Bool
  | .redis, .cancels _ _ => false
  | .memory, .calls _ _ => false
  | .memory, .expires _ => false
  | _, _ => true

/-- Cancels, deliveries and sweeps on a driver. -/
def cancelRuns (driver : Driver) : Machine (CancelState driver.Marks) CancelEvent :=
  fun s event => if driver.offers event then cancelStep driver.marks s event else none

theorem cancelRuns_eq_some {driver : Driver} {s t : CancelState driver.Marks} {event : CancelEvent}
    (h : cancelRuns driver s event = some t) : cancelStep driver.marks s event = some t := by
  unfold cancelRuns at h
  split_ifs at h
  exact h

namespace MemoryDriver

/-- A job of the memory driver, as a cancel reads it. -/
def cancelJob (m : MemoryDriver) (queue id : String) : CancelJob where
  state := (m.jobAt queue id).map fun ref => (m.jobs ref).state
  attemptsStarted := ((m.jobAt queue id).map fun ref => (m.jobs ref).attemptsStarted).getD 0

/-- The cancel of the memory driver answers and marks what `cancelAtOnce` says. -/
theorem cancel_eq (m : MemoryDriver) (queue id : String) :
    (m.cancel queue id).1 = (cancelAtOnce (m.cancelJob queue id)).1 ∧
      (m.cancel queue id).2.marked = match (cancelAtOnce (m.cancelJob queue id)).2 with
        | none => m.marked
        | some n => (m.requestCancel queue ⟨id, n⟩).marked := by
  unfold cancel cancelAtOnce cancelJob
  cases hjob : m.jobAt queue id with
  | none => exact ⟨rfl, rfl⟩
  | some ref =>
      have hid : (m.jobs ref).id = id := by
        have hfound := List.find?_some hjob
        simp only [decide_eq_true_eq] at hfound
        exact hfound.2
      simp only [Option.map_some, Option.getD_some]
      split_ifs with hfinished hactive
      · exact ⟨rfl, rfl⟩
      · exact ⟨rfl, by rw [hid]⟩
      · exact ⟨rfl, rfl⟩

end MemoryDriver

end Jubs
