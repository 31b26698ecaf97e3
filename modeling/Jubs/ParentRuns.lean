/-
**The life of a job that waits on children, as the Redis driver and BullMQ run it.**

A parent is handed out, reads what its children settled into, and its run ends.  The driver then
reads the error of the run: two refusals are moved to the delayed jobs, a refusal over a running
child is moved back to the parents that wait on children, and everything else fails the attempt.
The children settle at any moment in between, also between the read and the move.

Main definitions:

* `Jubs.ParentJob`, `Jubs.ParentState` — a parent, and where it stands;
* `Jubs.reschedule`, `Jubs.waitForChildren`, `Jubs.conclude` — what the driver makes of a run;
* `Jubs.parentRun` — the parent, its deliveries and its children as one machine;
* `Jubs.Recorded` — that the hooks and the dead queue were told of a failure.

Main results:

* `Jubs.recorded_of_finished` — a run that ends a parent is recorded, unless the driver's move
  failed under it;
* `Jubs.parent_dies_recorded` — **every parent that ends failed is recorded, in every run in which
  no last attempt loses the race of its move**;
* `Jubs.parent_dies_silently` — a run in which one does.
-/

import Jubs.Machine
import Jubs.Reports

set_option autoImplicit false

namespace Jubs

/-! ### Parents -/

/-- A job that waits on children, as it is stored. -/
structure ParentJob where
  queue : String
  id : String
  name : String
  attempts : Decimal
  stored : Value
  envelope : Envelope
  reads : readEnvelope stored = .ok envelope

/-- A delivery whose run has settled. -/
structure SettledRun where
  config : JobsConfig
  delivery : JobDelivery
  notices : List Notice
  outcome : Except Thrown Value

/-- Where BullMQ keeps a parent.  An `active` one has not read its children yet. -/
inductive ParentStatus where
  | waitingChildren
  | waiting
  | delayed
  | active (token : Option String)
  | settled (token : Option String) (run : SettledRun)
  | completed
  | failed (run : SettledRun)

/-- A parent and what its children settled into. -/
structure ParentState where
  status : ParentStatus
  attemptsMade : ℕ
  attemptsStarted : ℕ
  children : FlowState

/-- A parent that was enqueued with `n` children. -/
def ParentState.init (n : ℕ) : ParentState where
  status := if n = 0 then .waiting else .waitingChildren
  attemptsMade := 0
  attemptsStarted := 0
  children := ⟨[], [], n⟩

/-- What the driver hands to the runtime. -/
def deliveryOf (job : ParentJob) (s : ParentState) : JobDelivery where
  id := job.id
  attemptsStarted := s.attemptsStarted
  attempt := .finite (s.attemptsMade + 1 : ℕ)
  maxAttempts := .finite job.attempts
  envelope := job.stored

/-! ### What the driver makes of a run -/

/-- Whether BullMQ runs a job again after the attempt under way fails with `error`. -/
def retriesAfter (job : ParentJob) (s : ParentState) (error : Thrown) : Bool :=
  !error.isUnrecoverable && Number.lt (.finite (s.attemptsMade + 1 : ℕ)) (.finite job.attempts)

/-- The processor rejects with `error`. -/
def failAttempt (job : ParentJob) (s : ParentState) (run : SettledRun) (error : Thrown) :
    ParentState :=
  { s with
    attemptsMade := s.attemptsMade + 1
    status := if retriesAfter job s error then .delayed else .failed run }

/-- The error of a delivery that carries no worker token. -/
def tokenlessError (job : ParentJob) (asked fails : String) (cause : Thrown) : Thrown :=
  plainError ("jubs: redis delivered job \"" ++ job.name ++ "\" without a worker token, and " ++
    "this delivery asked to " ++ asked ++ " — jubs cannot " ++ fails ++ " without the token, so " ++
    "it fails the attempt instead") (some cause)

/-- Whether a delivery carries a worker token. -/
def hasToken (token : Option String) : Bool := token.getD "" ≠ ""

/-- `reschedule(job, token, postponed)`. -/
def reschedule (job : ParentJob) (s : ParentState) (token : Option String) (run : SettledRun)
    (postponed : Thrown) : ParentState :=
  if hasToken token then { s with status := .delayed }
  else failAttempt job s run (tokenlessError job "be delivered again instead of failing"
    "reschedule it" postponed)

/-- `waitForChildren(job, token, pending)`.  The move answers `false` when no dependency remains. -/
def waitForChildren (job : ParentJob) (s : ParentState) (token : Option String) (run : SettledRun)
    (pending : Thrown) : ParentState :=
  if hasToken token then
    if s.children.pending = 0 then failAttempt job s run pending
    else { s with status := .waitingChildren }
  else failAttempt job s run (tokenlessError job "wait on its children again instead of failing"
    "move it back to waiting-children" pending)

/-- The end of a delivery.  BullMQ refuses to complete a job that still has dependencies. -/
def conclude (job : ParentJob) (s : ParentState) (token : Option String) (run : SettledRun) :
    Option ParentState :=
  match run.outcome with
  | .ok _ =>
      if s.children.pending = 0 then
        some { s with status := .completed, attemptsMade := s.attemptsMade + 1 }
      else none
  | .error error =>
      some (if error.cls = some .leaseHeld ∨ error.cls = some .shutdownAbort then
          reschedule job s token run error
        else if error.cls = some .childrenPending then waitForChildren job s token run error
        else failAttempt job s run error)

/-! ### The machine -/

/-- One step of a parent or of one of its children.  A `run` reads the children, or is refused by
the flow store. -/
inductive ParentAct where
  | deliver (token : Option String)
  | run (config : JobsConfig) (handlers : List JobHandler) (refusal : Option Thrown)
  | conclude
  /-- The delay of a delayed job is over. -/
  | promote
  /-- `jobs.retry` of the parent. -/
  | retry
  | childCompletes (result : ChildResult)
  | childFails (failure : ChildFailure)
  /-- A child is cancelled or removed, and leaves no trace. -/
  | childRemoved
  /-- `jobs.retry` of the failed child at a position. -/
  | childRetried (i : ℕ)

/-- A configuration whose flow store answers what the children settled into by now. -/
def JobsConfig.reading (config : JobsConfig) (refusal : Option Thrown) (children : FlowState) :
    JobsConfig :=
  { config with
    driver := { config.driver with read := fun _ _ => some (refusal.elim (.ok children) .error) } }

/-- A child leaves the dependencies of the parent; the last one wakes it. -/
def settleChild (s : ParentState) (children : FlowState) : ParentState :=
  { s with
    children := children
    status := match s.status with
      | .waitingChildren => if children.pending = 0 then .waiting else .waitingChildren
      | status => status }

/-- **A parent, its deliveries and its children.** -/
def parentRun (job : ParentJob) : Machine ParentState ParentAct := fun s act =>
  let c := s.children
  match act, s.status with
  | .deliver token, .waiting =>
      some { s with status := .active token, attemptsStarted := s.attemptsStarted + 1 }
  | .run config handlers refusal, .active token =>
      let config := config.reading refusal c
      let delivery := deliveryOf job s
      (runOn config handlers job.queue delivery).map fun p =>
        { s with status := .settled token ⟨config, delivery, p.1, p.2⟩ }
  | .conclude, .settled token run => conclude job s token run
  | .promote, .delayed => some { s with status := .waiting }
  | .retry, .failed _ => some { s with status := .waiting, attemptsMade := 0 }
  | .childCompletes result, _ =>
      if 0 < c.pending then
        some (settleChild s ⟨c.results ++ [result], c.failures, c.pending - 1⟩)
      else none
  | .childFails failure, _ =>
      if 0 < c.pending then
        some (settleChild s ⟨c.results, c.failures ++ [failure], c.pending - 1⟩)
      else none
  | .childRemoved, _ =>
      if 0 < c.pending then some (settleChild s ⟨c.results, c.failures, c.pending - 1⟩) else none
  | .childRetried i, _ =>
      if i < c.failures.length then
        some { s with children := ⟨c.results, c.failures.eraseIdx i, c.pending + 1⟩ }
      else none
  | _, _ => none

/-! ### Records of a failure -/

/-- The hooks and the dead queue were told that a run ended its job. -/
def Recorded (job : ParentJob) (run : SettledRun) : Prop :=
  ∃ failure : JobFailureEvent, failure.id = composeJobId job.queue job.id ∧
    failure.attempt = run.delivery.attempt ∧
    (run.config.hooks.onAttemptFailed.isSome → .onAttemptFailed failure ∈ run.notices) ∧
    (run.config.hooks.onDead.isSome → .onDead failure ∈ run.notices) ∧
    (job.queue ∈ run.config.deadQueues → ∃ burial,
      .bury job.queue ⟨failure.id, job.envelope, failure.error, burial⟩ ∈ run.notices)

/-- A parent on its last attempt refused to run over a child that was still in flight, and by now no
dependency is left that the driver could move it back for. -/
def LosesMove (job : ParentJob) (s : ParentState) : Prop :=
  ∃ token run error, s.status = .settled token run ∧ run.outcome = .error error ∧
    error.cls = some .childrenPending ∧ s.children.pending = 0 ∧
    Number.lt (.finite (s.attemptsMade + 1 : ℕ)) (.finite job.attempts) = false

/-- A step that finds a worker token, legible errors and no lost race. -/
def Unhindered (job : ParentJob) (s : ParentState) : ParentAct → Prop
  | .deliver token => hasToken token = true
  | .run config handlers refusal =>
      Legible config handlers ∧ ∀ error ∈ refusal, Presentable error
  | .conclude => ¬ LosesMove job s
  | _ => True

/-- BullMQ's rule on the two numbers is the one a burial is decided by. -/
theorem willRetry_deliveryOf (job : ParentJob) (s : ParentState) (error : Thrown) :
    willRetry (deliveryOf job s) error = retriesAfter job s error := by
  have hlt : ∀ a b : Decimal, (!Number.le (.finite b) (.finite a)) =
      Number.lt (.finite a) (.finite b) := by
    intro a b
    simp only [Number.le, Number.lt, ← decide_not, not_le]
  rw [willRetry, retriesAfter, ← hlt]
  rfl

theorem mem_heard {config : JobsConfig} {notice : Notice} (h : config.hooks.hears notice = true) :
    notice ∈ config.heard [notice] := by
  simp [JobsConfig.heard, h]

/-- A run whose error ends the parent is recorded. -/
theorem recorded_of_finished {job : ParentJob} {s : ParentState} {run : SettledRun}
    {handlers : List JobHandler} {error : Thrown} (hlegible : Legible run.config handlers)
    (hdelivery : run.delivery = deliveryOf job s)
    (hrun : runOn run.config handlers job.queue run.delivery = some (run.notices, .error error))
    (hpostponed : error.isPostponement = false) (hretry : retriesAfter job s error = false) :
    Recorded job run := by
  have hreads : readEnvelope run.delivery.envelope = .ok job.envelope := by
    rw [hdelivery]
    exact job.reads
  have hretry : willRetry run.delivery error = false := by
    rw [hdelivery, willRetry_deliveryOf, hretry]
  obtain ⟨started, serialized, burial, hl⟩ := runOn_finished hreads
    (dispatch_throws wraps_presentable hlegible _ _ _) hrun hpostponed hretry
  refine ⟨{ eventOf job.queue job.envelope run.delivery with error := serialized }, ?_, rfl,
    ?_, ?_, ?_⟩
  · rw [hdelivery]
    rfl
  · intro hhook
    rw [hl, finalNotices]
    simp only [List.mem_append]
    exact Or.inr (Or.inl (Or.inl (mem_heard hhook)))
  · intro hhook
    rw [hl, finalNotices]
    simp only [List.mem_append]
    exact Or.inr (Or.inr (mem_heard hhook))
  · intro hqueue
    refine ⟨burial, ?_⟩
    have hqueue : (eventOf job.queue job.envelope run.delivery).queue ∈ run.config.deadQueues :=
      hqueue
    rw [hl, finalNotices, if_pos hqueue]
    simp only [List.mem_append]
    exact Or.inr (Or.inl (Or.inr List.mem_cons_self))

/-! ### The invariant -/

/-- **What holds of a parent at every moment**: a delivery in progress has its token, a run that has
settled is the run of the delivery under way, and a parent that failed is recorded. -/
structure ParentInv (job : ParentJob) (s : ParentState) : Prop where
  active : ∀ token, s.status = .active token → hasToken token = true
  settled : ∀ token run, s.status = .settled token run →
    hasToken token = true ∧ run.delivery = deliveryOf job s ∧
      ∃ handlers, Legible run.config handlers ∧
        runOn run.config handlers job.queue run.delivery = some (run.notices, run.outcome)
  failed : ∀ run, s.status = .failed run → Recorded job run

/-- A parent that no worker holds and that has not failed. -/
def ParentStatus.isIdle : ParentStatus → Bool
  | .waitingChildren | .waiting | .delayed | .completed => true
  | .active _ | .settled _ _ | .failed _ => false

theorem ParentInv.of_idle {job : ParentJob} {s : ParentState} (h : s.status.isIdle = true) :
    ParentInv job s := by
  constructor
  · intro token hs
    simp [hs, ParentStatus.isIdle] at h
  · intro token run hs
    simp [hs, ParentStatus.isIdle] at h
  · intro run hs
    simp [hs, ParentStatus.isIdle] at h

theorem parentInv_init (job : ParentJob) (n : ℕ) : ParentInv job (.init n) := by
  refine .of_idle ?_
  unfold ParentState.init
  split_ifs <;> rfl

/-- The children settle without touching the delivery under way. -/
theorem ParentInv.children {job : ParentJob} {s : ParentState} (h : ParentInv job s)
    (children : FlowState) : ParentInv job { s with children := children } :=
  ⟨h.active, h.settled, h.failed⟩

theorem ParentInv.settleChild {job : ParentJob} {s : ParentState} (h : ParentInv job s)
    (children : FlowState) : ParentInv job (settleChild s children) := by
  cases hs : s.status with
  | waitingChildren =>
      refine .of_idle ?_
      simp only [Jubs.settleChild, hs]
      split_ifs <;> rfl
  | _ =>
      have heq : Jubs.settleChild s children = { s with children := children } := by
        simp [Jubs.settleChild, hs]
      rw [heq]
      exact h.children children

/-- A failed attempt ends the parent only when BullMQ does not retry it. -/
theorem failAttempt_inv {job : ParentJob} {s : ParentState} {run : SettledRun} {error : Thrown}
    (h : retriesAfter job s error = false → Recorded job run) :
    ParentInv job (failAttempt job s run error) := by
  cases hretry : retriesAfter job s error with
  | true => exact .of_idle (by simp [failAttempt, hretry, ParentStatus.isIdle])
  | false =>
      constructor
      · intro token hs
        simp [failAttempt, hretry] at hs
      · intro token run' hs
        simp [failAttempt, hretry] at hs
      · intro run' hs
        simp only [failAttempt, hretry, Bool.false_eq_true, if_false,
          ParentStatus.failed.injEq] at hs
        exact hs ▸ h hretry

theorem conclude_inv {job : ParentJob} {s t : ParentState} {token : Option String}
    {run : SettledRun} (hinv : ParentInv job s) (hs : s.status = .settled token run)
    (hrace : ¬ LosesMove job s) (h : conclude job s token run = some t) : ParentInv job t := by
  obtain ⟨htoken, hdelivery, handlers, hlegible, hrun⟩ := hinv.settled token run hs
  unfold conclude at h
  cases houtcome : run.outcome with
  | ok value =>
      rw [houtcome] at h
      dsimp only at h
      split_ifs at h
      cases h
      exact .of_idle rfl
  | error error =>
      rw [houtcome] at h hrun
      dsimp only at h
      cases h
      split_ifs with hmoved hpending
      · rw [reschedule, if_pos htoken]
        exact .of_idle rfl
      · rw [waitForChildren, if_pos htoken]
        split_ifs with hnone
        · -- The move found no dependency left, so this was not the last attempt.
          refine failAttempt_inv fun hretry => absurd ?_ hrace
          have hun : error.isUnrecoverable = false := by
            simp [Thrown.isUnrecoverable, hpending, ErrorClass.isUnrecoverable]
          exact ⟨token, run, error, hs, houtcome, hpending,
            hnone, by simpa [retriesAfter, hun] using hretry⟩
        · exact .of_idle rfl
      · have hpostponed : error.isPostponement = false := by
          rcases error with e | v
          · have hcls : ∀ cls, (Thrown.cls (.inl e) = some cls) =
                (e.cls = cls) := by simp [Thrown.cls]
            simp only [hcls, not_or] at hmoved hpending
            cases he : e.cls <;>
              simp_all [Thrown.isPostponement, Thrown.cls, ErrorClass.isPostponement]
          · rfl
        exact failAttempt_inv (recorded_of_finished hlegible hdelivery hrun hpostponed)

theorem legible_reading {config : JobsConfig} {handlers : List JobHandler} {refusal : Option Thrown}
    (children : FlowState) (h : Legible config handlers)
    (hrefusal : ∀ error ∈ refusal, Presentable error) :
    Legible (config.reading refusal children) handlers where
  acquire := h.acquire
  complete := h.complete
  release := h.release
  read queue id error herror := by
    cases refusal with
    | none => cases herror
    | some e =>
        cases herror
        exact hrefusal _ rfl
  result := h.result
  key := h.key
  body := h.body

/-- **One step keeps the invariant**, unless a last attempt loses the race of its move. -/
theorem parentRun_step {job : ParentJob} {s t : ParentState} {act : ParentAct}
    (hcond : Unhindered job s act) (hinv : ParentInv job s)
    (h : parentRun job s act = some t) : ParentInv job t := by
  cases act with
  | deliver token =>
      cases hs : s.status <;> simp only [parentRun, hs, reduceCtorEq, Option.some.injEq] at h
      subst h
      refine ⟨?_, ?_, ?_⟩
      · intro token' heq
        cases heq
        exact hcond
      · intro token' run heq
        cases heq
      · intro run heq
        cases heq
  | run config handlers refusal =>
      cases hs : s.status <;> simp only [parentRun, hs, reduceCtorEq] at h
      rename_i token
      obtain ⟨p, hp, rfl⟩ := Option.map_eq_some_iff.1 h
      refine ⟨?_, ?_, ?_⟩
      · intro token' heq
        cases heq
      · intro token' run heq
        cases heq
        exact ⟨hinv.active token hs, rfl, handlers, legible_reading s.children hcond.1 hcond.2, hp⟩
      · intro run heq
        cases heq
  | conclude =>
      cases hs : s.status <;> simp only [parentRun, hs, reduceCtorEq] at h
      exact conclude_inv hinv hs hcond h
  | promote =>
      cases hs : s.status <;> simp only [parentRun, hs, reduceCtorEq, Option.some.injEq] at h
      subst h
      exact .of_idle rfl
  | retry =>
      cases hs : s.status <;> simp only [parentRun, hs, reduceCtorEq, Option.some.injEq] at h
      subst h
      exact .of_idle rfl
  | childCompletes result =>
      simp only [parentRun, Option.ite_none_right_eq_some, Option.some.injEq] at h
      obtain ⟨-, rfl⟩ := h
      exact hinv.settleChild _
  | childFails failure =>
      simp only [parentRun, Option.ite_none_right_eq_some, Option.some.injEq] at h
      obtain ⟨-, rfl⟩ := h
      exact hinv.settleChild _
  | childRemoved =>
      simp only [parentRun, Option.ite_none_right_eq_some, Option.some.injEq] at h
      obtain ⟨-, rfl⟩ := h
      exact hinv.settleChild _
  | childRetried i =>
      simp only [parentRun, Option.ite_none_right_eq_some, Option.some.injEq] at h
      obtain ⟨-, rfl⟩ := h
      exact hinv.children _

/-- **Every parent that ends failed is recorded**, in every run in which no last attempt loses the
race of its move. -/
theorem parent_dies_recorded {job : ParentJob} {n : ℕ} {l : List ParentAct} {s : ParentState}
    (h : (parentRun job).exec (.init n) l = some s)
    (hl : (parentRun job).Along (Unhindered job) (.init n) l) :
    ∀ run, s.status = .failed run → Recorded job run :=
  (Machine.exec_invariant_along (P := ParentInv job)
    (fun _ _ _ hcond hinv hstep => parentRun_step hcond hinv hstep) h hl
    (parentInv_init job n)).failed

/-! ### The race that loses the record -/

/-- A parent with a child in flight never reaches its handler. -/
theorem dispatch_pending {config : JobsConfig} {handlers : List JobHandler} {envelope : Envelope}
    {event : JobEvent} {delivery : JobDelivery} {handler : JobHandler} {stored data : Value}
    {state : FlowState} {l : List Notice} (hfind : handlerFor handlers envelope = .ok handler)
    (hknown : assertVersionIsKnown handler.definition envelope = .ok ())
    (hmigrated : migrateEnvelope handler.definition envelope = some (.ok stored))
    (hdata : validatePayload handler.definition stored = .ok data)
    (hslots : slotsOf handler.definition ≠ [])
    (hread : config.driver.read event.queue delivery.id = some (.ok state))
    (hpending : 0 < state.pending)
    (hstart : notify config.hooks.onStart .onStart event = some (l, .ok ())) :
    dispatch config handlers envelope event delivery =
      some (l, .error (childrenPendingError handler.definition state.pending)) := by
  let pending := childrenPendingError handler.definition state.pending
  have hcounted : childrenRead handler.definition envelope.slots state = .error pending := by
    rw [childrenRead, if_pos hpending]
  have hchildren : (childrenFor (config.driver.read event.queue delivery.id) handler.definition
      envelope : Effect Notice Thrown _) = some ([], .error pending) := by
    rw [childrenFor, if_neg hslots, hread]
    exact Effect.bind_eq_error_iff.2 (Or.inr ⟨state, [], [], rfl, by rw [hcounted]; rfl, rfl⟩)
  have hwork : (work config handler envelope event delivery : Effect Notice Thrown Value) =
      some ([], .error pending) := by
    rw [work, hmigrated]
    refine Effect.bind_eq_error_iff.2 (Or.inr ⟨stored, [], [], rfl, ?_, rfl⟩)
    rw [hdata]
    refine Effect.bind_eq_error_iff.2 (Or.inr ⟨data, [], [], rfl, ?_, rfl⟩)
    refine Effect.bind_eq_error_iff.2 (Or.inl ?_)
    exact Effect.onError_eq_some_iff.2 (Or.inr ⟨pending, [], [], hchildren, rfl, rfl⟩)
  exact dispatch_of_work_error hfind hknown hstart hwork

/-- A run that ends no attempt leaves no record, when there is somebody to tell. -/
theorem not_recorded_of_postponed {job : ParentJob} {run : SettledRun} {handlers : List JobHandler}
    {error : Thrown} (hlegible : Legible run.config handlers)
    (hreads : readEnvelope run.delivery.envelope = .ok job.envelope)
    (hrun : runOn run.config handlers job.queue run.delivery = some (run.notices, .error error))
    (hpostponed : error.isPostponement = true)
    (hlistens : run.config.hooks.onAttemptFailed.isSome ∨ run.config.hooks.onDead.isSome ∨
      job.queue ∈ run.config.deadQueues) : ¬ Recorded job run := by
  rintro ⟨failure, -, -, hfailed, hdead, hburied⟩
  have honly : ∀ notice ∈ run.notices, notice = .onStart
      (eventOf job.queue job.envelope run.delivery) := by
    intro notice hmem
    rcases runOn_postponed hreads (dispatch_throws wraps_presentable hlegible _ _ _) hrun hpostponed
      with hl | hl
    · simp [hl] at hmem
    · rw [hl] at hmem
      simpa using (List.mem_filter.1 hmem).1
  rcases hlistens with h | h | h
  · cases honly _ (hfailed h)
  · cases honly _ (hdead h)
  · obtain ⟨burial, hmem⟩ := hburied h
    cases honly _ hmem

/-- **The exact defect**: a last attempt that loses the race of its move ends its parent with no
record, whoever listens. -/
theorem conclude_of_losesMove {job : ParentJob} {s t : ParentState} (hinv : ParentInv job s)
    (hrace : LosesMove job s) (h : parentRun job s .conclude = some t) :
    ∃ run, t.status = .failed run ∧
      (run.config.hooks.onAttemptFailed.isSome ∨ run.config.hooks.onDead.isSome ∨
        job.queue ∈ run.config.deadQueues → ¬ Recorded job run) := by
  obtain ⟨token, run, error, hs, houtcome, hpending, hnone, hlast⟩ := hrace
  obtain ⟨htoken, hdelivery, handlers, hlegible, hrun⟩ := hinv.settled token run hs
  have hretry : retriesAfter job s error = false := by simp [retriesAfter, hlast]
  have hconclude : conclude job s token run = some (failAttempt job s run error) := by
    simp [conclude, houtcome, hpending, waitForChildren, htoken, hnone]
  simp only [parentRun, hs] at h
  obtain rfl : failAttempt job s run error = t := Option.some.inj (hconclude.symm.trans h)
  refine ⟨run, by simp [failAttempt, hretry], ?_⟩
  have hreads : readEnvelope run.delivery.envelope = .ok job.envelope := by
    rw [hdelivery]
    exact job.reads
  have hpostponed : error.isPostponement = true := by
    simp [Thrown.isPostponement, hpending, ErrorClass.isPostponement]
  exact not_recorded_of_postponed hlegible hreads (houtcome ▸ hrun) hpostponed

/-- A job that waits on its lines. -/
def summaryJob : JobDefinition :=
  { lineJob with name := "invoice.summary", awaits := [⟨"lines", true, lineJob⟩] }

/-- A handler that never gets to run. -/
def summaryHandler : JobHandler := ⟨summaryJob, fun _ _ => ⟨some (.ok .null), false, none⟩⟩

/-- The envelope of a summary over one line. -/
def summaryEnvelope : Envelope := ⟨1, "invoice.summary", .null, .flow, some [("lines", 1)]⟩

/-- A summary that is allowed one attempt. -/
def summaryParent : ParentJob := ⟨"mail", "7", "invoice.summary", 1, summaryEnvelope.toValue,
  summaryEnvelope, rfl⟩

/-- The only line fails for good and wakes the summary; an operator retries the line; the summary is
delivered and refuses to run; the line completes; the driver moves the summary back. -/
def racedRun : List ParentAct :=
  [.childFails ⟨"mail:lines~1", "lines", "timeout"⟩, .childRetried 0, .deliver (some "token"),
    .run mailConfig [summaryHandler] none, .childCompletes ⟨"lines", .null⟩, .conclude]

/-- A driver that refuses nothing leaves only what the handler of a summary throws. -/
theorem throws_summary {P Q : Thrown → Prop} {run : Value → HandlerContext → Execution}
    (h : ∀ data context raised, (run data context).settles = some (.error raised) →
      P raised.error) :
    Throws P Q mailConfig [⟨summaryJob, run⟩] := by
  refine throws_mailConfig ?_ ?_ ?_
  · intro handler hmem slot hslot value error hresult
    obtain rfl := List.mem_singleton.1 hmem
    obtain rfl := List.mem_singleton.1 hslot
    cases hresult
  · intro handler hmem data error hkey
    obtain rfl := List.mem_singleton.1 hmem
    cases hkey
  · intro handler hmem data context raised hraised
    obtain rfl := List.mem_singleton.1 hmem
    exact h data context raised hraised

theorem legible_summary : Legible mailConfig [summaryHandler] :=
  throws_summary fun data context raised h => by cases h

/-- What the delivered summary is run as. -/
def summaryConfig : JobsConfig := mailConfig.reading none ⟨[], [], 1⟩

/-- The summary, handed out once. -/
def deliveredSummary : ParentState := ⟨.active (some "token"), 0, 1, ⟨[], [], 1⟩⟩

/-- The event of that delivery. -/
def summaryEvent : JobEvent := eventOf "mail" summaryEnvelope
    (deliveryOf summaryParent deliveredSummary)

theorem summary_refuses : runOn summaryConfig [summaryHandler] "mail"
    (deliveryOf summaryParent deliveredSummary) =
      some ([.onStart summaryEvent], .error (childrenPendingError summaryJob 1)) := by
  have hdispatch : dispatch summaryConfig [summaryHandler] summaryEnvelope summaryEvent
      (deliveryOf summaryParent deliveredSummary) =
        some ([.onStart summaryEvent], .error (childrenPendingError summaryJob 1)) := by
    have hfind : handlerFor [summaryHandler] summaryEnvelope = .ok summaryHandler := rfl
    have hknown : assertVersionIsKnown summaryHandler.definition summaryEnvelope = .ok () := by
      have hle : Number.le 1 1 = true := by
        show decide (Decimal.toRat 1 ≤ Decimal.toRat 1) = true
        simp
      exact if_pos hle
    have hread : summaryConfig.driver.read summaryEvent.queue
        (deliveryOf summaryParent deliveredSummary).id = some (.ok ⟨[], [], 1⟩) := rfl
    have hslots : slotsOf summaryHandler.definition ≠ [] := by
      simp [slotsOf, summaryHandler, summaryJob]
    have hmigrated : migrateEnvelope summaryHandler.definition summaryEnvelope =
        some (.ok .null) :=
      migrateEnvelope_current rfl rfl
    have hdata : validatePayload summaryHandler.definition .null = .ok .null := rfl
    have hstart : notify summaryConfig.hooks.onStart .onStart summaryEvent =
        some ([.onStart summaryEvent], .ok ()) := rfl
    have hpending : 0 < (⟨[], [], 1⟩ : FlowState).pending := Nat.one_pos
    have h := dispatch_pending hfind hknown hmigrated hdata hslots hread hpending hstart
    exact h
  rw [runOn_eq summaryParent.reads]
  exact Effect.onError_eq_some_iff.2 (Or.inr ⟨_, _, [], hdispatch, rfl, rfl⟩)

/-- The run of the refused summary. -/
def refusedRun : SettledRun := ⟨summaryConfig, deliveryOf summaryParent deliveredSummary,
  [.onStart summaryEvent], .error (childrenPendingError summaryJob 1)⟩

/-- The refused summary, once its line has completed. -/
def refusedSummary : ParentState :=
  ⟨.settled (some "token") refusedRun, 0, 1, ⟨[⟨"lines", .null⟩], [], 0⟩⟩

/-- A run that settles is what the driver reads next. -/
theorem parentRun_run {job : ParentJob} {s : ParentState} {token : Option String}
    {config : JobsConfig} {handlers : List JobHandler} {refusal : Option Thrown} {l : List Notice}
    {r : Except Thrown Value} (hs : s.status = .active token)
    (h : runOn (config.reading refusal s.children) handlers job.queue (deliveryOf job s) =
      some (l, r)) :
    parentRun job s (.run config handlers refusal) = some { s with
      status := .settled token
        ⟨config.reading refusal s.children, deliveryOf job s, l, r⟩ } := by
  simp only [parentRun, hs, h, Option.map_some]

theorem racedRun_refuses : (parentRun summaryParent).exec (.init 1) (racedRun.take 5) =
    some refusedSummary := by
  have hrun : parentRun summaryParent deliveredSummary (.run mailConfig [summaryHandler] none) =
      some ⟨.settled (some "token") refusedRun, 0, 1, ⟨[], [], 1⟩⟩ :=
        parentRun_run rfl summary_refuses
  refine Machine.exec_cons_iff.2 ⟨_, rfl, Machine.exec_cons_iff.2 ⟨_, rfl, ?_⟩⟩
  refine Machine.exec_cons_iff.2 ⟨deliveredSummary, rfl, Machine.exec_cons_iff.2 ⟨_, hrun, ?_⟩⟩
  rfl

/-- A parent on its only attempt refuses to run over a line that is in flight, the line completes
before the driver's move, and the parent ends failed: `onAttemptFailed` and `onDead` are configured,
its queue is opted in, and nothing but `onStart` was noticed. -/
theorem parent_dies_silently : ∃ s run, (parentRun summaryParent).exec (.init 1) racedRun = some s ∧
    s.status = .failed run ∧ run.notices = [.onStart summaryEvent] ∧
      ¬ Recorded summaryParent run := by
  have hlast : Number.lt (.finite (0 + 1 : ℕ)) (.finite 1) = false := Number.lt_irrefl _
  have hrace : LosesMove summaryParent refusedSummary :=
    ⟨_, _, _, rfl, rfl, rfl, rfl, hlast⟩
  have hretry : retriesAfter summaryParent refusedSummary (childrenPendingError summaryJob 1) =
      false := by simp [retriesAfter, refusedSummary, summaryParent, hlast]
  have hfails : parentRun summaryParent refusedSummary .conclude =
      some ⟨.failed refusedRun, 1, 1, ⟨[⟨"lines", .null⟩], [], 0⟩⟩ := by
    show some (failAttempt summaryParent refusedSummary refusedRun
      (childrenPendingError summaryJob 1)) = _
    rw [failAttempt, hretry]
    rfl
  refine ⟨⟨.failed refusedRun, 1, 1, ⟨[⟨"lines", .null⟩], [], 0⟩⟩, refusedRun, ?_, rfl, rfl, ?_⟩
  · have hexec : (parentRun summaryParent).exec (.init 1) (racedRun.take 5 ++ [.conclude]) = _ :=
      Machine.exec_append_iff.2 ⟨_, racedRun_refuses, Machine.exec_singleton.2 hfails⟩
    exact hexec
  · have hlegible : Legible refusedRun.config [summaryHandler] :=
      legible_reading _ legible_summary fun error h => by cases h
    exact not_recorded_of_postponed hlegible summaryParent.reads summary_refuses rfl (Or.inl rfl)

/-- A handler of summaries that throws. -/
def downSummary : JobHandler :=
  ⟨summaryJob, fun _ _ => ⟨some (.error ⟨mailDown, false⟩), false, none⟩⟩

/-- What a summary reads of a line that completed. -/
def readyLines : FlowState := ⟨[⟨"lines", .null⟩], [], 0⟩

theorem throws_downSummary {P Q : Thrown → Prop} (h : P mailDown) :
    Throws P Q mailConfig [downSummary] :=
  throws_summary fun _ _ _ hraised => Except.error.inj (Option.some.inj hraised) ▸ h

theorem readable_readyLines :
    childrenRead summaryJob summaryEnvelope.slots readyLines = .ok [("lines", .arr [.null])] := by
  have hwhole : childrenShort summaryJob summaryEnvelope.slots readyLines = none := by
    refine childrenShort_eq_none_iff.2 ?_
    intro slot hslot
    obtain rfl := List.mem_singleton.1 hslot
    refine ⟨rfl, ?_⟩
    rintro n ⟨⟩
    exact Number.lt_irrefl _
  rw [childrenRead, if_neg (by decide), if_neg (by decide), hwhole]
  rfl

/-- Every delivery of a summary whose line completed runs its handler, and reports what it
throws. -/
theorem runOn_downSummary {delivery : JobDelivery}
    (hreads : readEnvelope delivery.envelope = .ok summaryEnvelope) : ∃ l,
    runOn (mailConfig.reading none readyLines) [downSummary] "mail" delivery =
      some (l, .error mailDown) := by
  have hfind : handlerFor [downSummary] summaryEnvelope = .ok downSummary := rfl
  have hknown : assertVersionIsKnown downSummary.definition summaryEnvelope = .ok () :=
    if_pos ((Number.le_natCast 1 1).trans (by decide))
  have hmigrated : migrateEnvelope downSummary.definition summaryEnvelope = some (.ok .null) :=
    migrateEnvelope_current rfl rfl
  have hchildren : (childrenFor (some (.ok readyLines)) downSummary.definition summaryEnvelope :
      Effect Notice Thrown _) = some ([], .ok [("lines", .arr [.null])]) := by
    rw [childrenFor, if_neg (by simp [downSummary, summaryJob, slotsOf])]
    exact Effect.bind_eq_some_iff.2 (Or.inr ⟨readyLines, [], [], rfl,
      by rw [show downSummary.definition = summaryJob from rfl, readable_readyLines]; rfl, rfl⟩)
  have hdispatch : dispatch (mailConfig.reading none readyLines) [downSummary] summaryEnvelope
      (eventOf "mail" summaryEnvelope delivery) delivery = some (_, .error mailDown) :=
    dispatch_thrown hfind hknown hmigrated rfl hchildren rfl (fun _ => rfl) rfl
  have hanswers : (mailConfig.reading none readyLines).Answers :=
    ⟨answers_mailConfig.onAttemptFailed, answers_mailConfig.onDead, answers_mailConfig.bury⟩
  obtain ⟨l, hreject⟩ := @rejectWith_settles _ hanswers summaryEnvelope
    (eventOf "mail" summaryEnvelope delivery) delivery mailDown rfl
  rw [runOn_eq hreads]
  exact ⟨_, Effect.onError_eq_some_iff.2 (Or.inr ⟨mailDown, _, l, hdispatch, hreject, rfl⟩)⟩

/-- An attempt whose handler throws for want of a mail server fails. -/
theorem conclude_mailDown {job : ParentJob} {s : ParentState} {token : Option String}
    {run : SettledRun} (hs : s.status = .settled token run)
    (houtcome : run.outcome = .error mailDown) :
    parentRun job s .conclude = some (failAttempt job s run mailDown) := by
  simp only [parentRun, hs, conclude, houtcome]
  rfl

/-- Its line completes, it is delivered, and its handler throws. -/
def downRun : List ParentAct :=
  [.childCompletes ⟨"lines", .null⟩, .deliver (some "token"), .run mailConfig [downSummary] none,
    .conclude]

/-- The summary, handed out after its line completed. -/
def readySummary : ParentState := ⟨.active (some "token"), 0, 1, readyLines⟩

/-- A summary whose handler throws on its only attempt ends failed, and is recorded. -/
theorem parent_dies_recorded_example : ∃ s run,
    (parentRun summaryParent).exec (.init 1) downRun = some s ∧ s.status = .failed run ∧
      Recorded summaryParent run := by
  obtain ⟨l, hl⟩ := @runOn_downSummary (deliveryOf summaryParent readySummary) summaryParent.reads
  let run : SettledRun := ⟨mailConfig.reading none readyLines,
    deliveryOf summaryParent readySummary, l, .error mailDown⟩
  let settled : ParentState := { readySummary with status := .settled (some "token") run }
  have hrun : parentRun summaryParent readySummary (.run mailConfig [downSummary] none) =
      some settled := parentRun_run rfl hl
  have hretry : retriesAfter summaryParent settled mailDown = false := by
    have hlast : Number.lt (.finite (0 + 1 : ℕ)) (.finite 1) = false := Number.lt_irrefl _
    simp [retriesAfter, settled, readySummary, summaryParent, hlast]
  have hconclude : parentRun summaryParent settled .conclude =
      some (failAttempt summaryParent settled run mailDown) := conclude_mailDown rfl rfl
  have hfailed : (failAttempt summaryParent settled run mailDown).status = .failed run := by
    simp [failAttempt, hretry]
  have hrace : ¬ LosesMove summaryParent settled := by
    rintro ⟨token, run, error, hs, houtcome, hpending, -⟩
    cases hs
    cases houtcome
    cases hpending
  have hexec : (parentRun summaryParent).exec (.init 1) downRun = some _ :=
    Machine.exec_cons_iff.2 ⟨_, rfl, Machine.exec_cons_iff.2 ⟨readySummary, rfl,
      Machine.exec_cons_iff.2 ⟨_, hrun, Machine.exec_singleton.2 hconclude⟩⟩⟩
  have hunhindered : (parentRun summaryParent).Along (Unhindered summaryParent) (.init 1)
      downRun := by
    refine Machine.Along.cons trivial rfl (Machine.Along.cons (t := readySummary) rfl rfl ?_)
    refine Machine.Along.cons ⟨throws_downSummary rfl, fun error h => by cases h⟩ hrun ?_
    exact Machine.Along.cons hrace hconclude trivial
  exact ⟨_, run, hexec, hfailed, parent_dies_recorded hexec hunhindered run hfailed⟩

end Jubs
