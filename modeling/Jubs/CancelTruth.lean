/-
**What the answer of a Redis cancel was true of.**

A cancel of the Redis driver is a `getJob`, a `getState`, a removal that Redis refuses while a
worker holds the job or a descendant it would delete, and behind a refusal both reads once more.
Workers and other clients act between any two of them.  So what it answers was true at some instant
of the call, if at all, and need not be true when it returns; what it says of a removal was true
when the removal was made, or refused.

Main definitions:

* `Jubs.Instant` — the jobs Redis keeps at one instant, and who of them is held by a worker;
* `Jubs.worldStep` — what workers and other clients do;
* `Jubs.Removal`, `Jubs.cancelCall` — one call of `cancel` among them, as one machine;
* `Jubs.AnswerTrue` — what an answer says of the instants of its call.

Main results:

* `Jubs.cancel_answer_true` — **what a cancel answers was true at some instant of its call**;
* `Jubs.cancel_answer_untrue` — what two of its answers do not say.
-/

import Jubs.CancelRuns

set_option autoImplicit false

namespace Jubs

/-! ### The jobs at one instant -/

/-- A job Redis keeps.  `locked` says that a worker holds it, and `below` are the descendants that
are deleted with it. -/
structure RedisJob where
  state : JobState
  attemptsStarted : ℕ
  locked : Bool
  below : List JobRef

/-- The jobs Redis keeps at one instant. -/
abbrev Instant : Type := JobRef → Option RedisJob

namespace Instant

/-- Whether a worker holds a job. -/
def runs (instant : Instant) (job : JobRef) : Bool := (instant job).any RedisJob.locked

/-- The descendants that are deleted with a job. -/
def below (instant : Instant) (job : JobRef) : List JobRef :=
  ((instant job).map RedisJob.below).getD []

/-- What a removal of a job deletes. -/
def family (instant : Instant) (job : JobRef) : List JobRef := job :: instant.below job

/-- Whether Redis refuses to remove a job. -/
def refuses (instant : Instant) (job : JobRef) : Bool := (instant.family job).any instant.runs

/-- The jobs without some of them. -/
def without (instant : Instant) (jobs : List JobRef) : Instant := fun job =>
  if job ∈ jobs then none else instant job

/-- A job as `getJob` and `getState` read it. -/
def read (instant : Instant) (job : JobRef) : CancelJob :=
  ⟨(instant job).map RedisJob.state, ((instant job).map RedisJob.attemptsStarted).getD 0⟩

end Instant

/-- What workers and other clients do. -/
inductive WorldAct where
  /-- A client adds a job under an id that none has. -/
  | adds (job : JobRef) (kept : RedisJob)
  /-- A worker takes a waiting job. -/
  | takes (job : JobRef)
  /-- The worker that holds a job completes it, fails it, delays it or sends it back to wait. -/
  | ends (job : JobRef) (state : JobState)
  /-- The lock of a worker that stalled runs out. -/
  | stalls (job : JobRef)
  /-- A job nobody holds is promoted, retried, or has its last child settle. -/
  | moves (job : JobRef) (state : JobState)
  /-- Jobs nobody holds are removed by another client, or leave by their retention. -/
  | deletes (jobs : List JobRef)

/-- A step of workers and other clients. -/
def worldStep : Machine Instant WorldAct := fun instant act =>
  match act with
  | .adds job kept =>
      if (instant job).isNone ∧ kept.locked = false then
        some (Function.update instant job (some kept))
      else none
  | .takes job => (instant job).bind fun kept =>
      if kept.state = .waiting ∧ kept.locked = false then
        some (Function.update instant job (some { kept with
          state := .active
          attemptsStarted := kept.attemptsStarted + 1
          locked := true }))
      else none
  | .ends job state => (instant job).bind fun kept =>
      if kept.locked = true ∧ state ≠ .active then
        some (Function.update instant job (some { kept with state := state, locked := false }))
      else none
  | .stalls job => (instant job).bind fun kept =>
      if kept.locked then some (Function.update instant job (some { kept with locked := false }))
      else none
  | .moves job state => (instant job).bind fun kept =>
      if kept.locked = false ∧ state ≠ .active then
        some (Function.update instant job (some { kept with state := state }))
      else none
  | .deletes jobs => if jobs.any instant.runs then none else some (instant.without jobs)

/-! ### One call among them -/

/-- The removal of a call: the instant it met, and whether Redis refused it. -/
structure Removal where
  met : Instant
  refused : Bool

/-- One call of `cancel`, with every instant of it, the last one first, and its removal. -/
structure CancelCall where
  now : Instant
  cancel : Cancel
  seen : List Instant
  removal : Option Removal

/-- A call that was just made. -/
def CancelCall.init (now : Instant) (job : JobRef) : CancelCall :=
  ⟨now, ⟨job, .reading false, none, none⟩, [now], none⟩

/-- What happens next. -/
inductive CancelAct where
  /-- Workers and other clients act. -/
  | world (act : WorldAct)
  | readsJob
  | readsState
  | removes
  /-- `requestCancel` writes, and its answer may be lost. -/
  | marks (heard : Bool)
  /-- A round trip rejects. -/
  | rejects

/-- `cancel(queue, id)` and `cancelRefusedByALock(queue, id)` of the Redis driver, among workers and
other clients. -/
def cancelCall : Machine CancelCall CancelAct := fun s act =>
  let job := s.cancel.job
  match act with
  | .world act => (worldStep s.now act).map fun now => { s with now := now, seen := now :: s.seen }
  | .readsJob => (s.cancel.readJob (s.now.read job)).map fun cancel => { s with cancel := cancel }
  | .readsState => (s.cancel.readState (s.now.read job)).map fun cancel =>
      { s with cancel := cancel }
  | .removes =>
      (s.cancel.remove (s.now.refuses job)).map fun cancel =>
        if s.now.refuses job then { s with cancel := cancel, removal := some ⟨s.now, true⟩ }
        else
          let now := s.now.without (s.now.family job)
          { now := now, cancel := cancel, seen := now :: s.seen, removal := some ⟨s.now, false⟩ }
  | .marks heard =>
      match s.cancel.stage with
      | .marking n => some { s with cancel := s.cancel.written n heard }
      | _ => none
  | .rejects => s.cancel.reject.map fun cancel => { s with cancel := cancel }

/-! ### What an answer says -/

/-- A job stood in a state. -/
def Stood (instant : Instant) (job : JobRef) (state : JobState) : Prop :=
  ∃ kept, instant job = some kept ∧ kept.state = state

/-- What an answer says of the instants of its call, and of its removal. -/
def AnswerTrue (job : JobRef) (seen : List Instant) (removal : Option Removal) : CancelResult → Prop
  /- No job answered to the id. -/
  | .unknownJob => ∃ instant ∈ seen, instant job = none
  /- The job had settled. -/
  | .finished state => state.isFinished = true ∧ ∃ instant ∈ seen, Stood instant job state
  /- The job was active. -/
  | .aborting => ∃ instant ∈ seen, Stood instant job .active
  /- No worker held the job or a descendant when the removal was made, and right after it they were
  gone: deleted by it, unless the job had gone before. -/
  | .removed => ∃ met, removal = some ⟨met, false⟩ ∧ met.refuses job = false ∧
      ∃ later earlier, seen = later ++ met.without (met.family job) :: met :: earlier
  /- The removal was refused, and a worker held a descendant of the job then, or the job itself, of
  which nothing is said. -/
  | .childrenRunning => ∃ met ∈ seen, removal = some ⟨met, true⟩ ∧
      (met.runs job = false → ∃ child ∈ met.below job, met.runs child = true)

/-! ### What every step keeps -/

variable {s t : CancelCall}

/-- The answer whose truth is known at a stage: the one a call has given, is bound to give, or may
still give behind a refusal. -/
def CancelStage.known : CancelStage → Option CancelResult
  | .reading true | .read true _ => some .childrenRunning
  | .marking _ => some .aborting
  | .answered answer => some answer
  | .reading false | .read false _ | .removing | .rejected => none

/-- What holds of a call.  The instant it stands at is the last one. -/
structure CallInv (s : CancelCall) : Prop where
  now : ∃ earlier, s.seen = s.now :: earlier
  known : ∀ answer, s.cancel.stage.known = some answer →
    AnswerTrue s.cancel.job s.seen s.removal answer

theorem callInv_init (now : Instant) (job : JobRef) : CallInv (.init now job) :=
  ⟨⟨[], rfl⟩, fun _ h => by cases h⟩

theorem CallInv.now_mem (h : CallInv s) : s.now ∈ s.seen := by
  obtain ⟨earlier, hseen⟩ := h.now
  rw [hseen]
  exact List.mem_cons_self

/-- What was true of the instants so far is true once there is another. -/
theorem AnswerTrue.cons {job : JobRef} {seen : List Instant} {removal : Option Removal}
    {answer : CancelResult} (h : AnswerTrue job seen removal answer) (now : Instant) :
    AnswerTrue job (now :: seen) removal answer := by
  cases answer with
  | unknownJob =>
      obtain ⟨instant, hinstant, hnone⟩ := h
      exact ⟨instant, List.mem_cons_of_mem _ hinstant, hnone⟩
  | finished state =>
      obtain ⟨hfinished, instant, hinstant, hstood⟩ := h
      exact ⟨hfinished, instant, List.mem_cons_of_mem _ hinstant, hstood⟩
  | aborting =>
      obtain ⟨instant, hinstant, hstood⟩ := h
      exact ⟨instant, List.mem_cons_of_mem _ hinstant, hstood⟩
  | removed =>
      obtain ⟨met, hmade, hfree, later, earlier, rfl⟩ := h
      exact ⟨met, hmade, hfree, now :: later, earlier, rfl⟩
  | childrenRunning =>
      obtain ⟨met, hmet, hrefused, hheld⟩ := h
      exact ⟨met, List.mem_cons_of_mem _ hmet, hrefused, hheld⟩

/-- A call that goes on over the same instants. -/
theorem CallInv.goesOn (h : CallInv s) {cancel : Cancel} (hjob : cancel.job = s.cancel.job)
    (hknown : ∀ answer, cancel.stage.known = some answer →
      AnswerTrue s.cancel.job s.seen s.removal answer) : CallInv { s with cancel := cancel } :=
  ⟨h.now, fun answer hanswer => hjob ▸ hknown answer hanswer⟩

/-- `getJob` finds no job, or one that stands in some state. -/
theorem CallInv.readsJob (h : CallInv s) {cancel : Cancel}
    (hread : s.cancel.readJob (s.now.read s.cancel.job) = some cancel) :
    CallInv { s with cancel := cancel } := by
  unfold Cancel.readJob at hread
  split at hread
  · rename_i locked hreading
    cases hread
    refine h.goesOn rfl ?_
    intro answer hanswer
    cases hjob : s.now s.cancel.job with
    | none =>
        have hnone : (s.now.read s.cancel.job).state = none := by simp [Instant.read, hjob]
        simp only [hnone] at hanswer
        cases hanswer
        exact ⟨s.now, h.now_mem, hjob⟩
    | some kept =>
        have hsome : (s.now.read s.cancel.job).state = some kept.state := by
          simp [Instant.read, hjob]
        simp only [hsome] at hanswer
        refine h.known answer ?_
        rw [hreading]
        cases locked with
        | true => exact hanswer
        | false => cases hanswer
  · cases hread

/-- A state other than `unknown` is that of a job which is there. -/
theorem stood_of_read {instant : Instant} {job : JobRef} {state : JobState}
    (hstate : (instant.read job).state.getD .unknown = state) (hknown : state ≠ .unknown) :
    Stood instant job state := by
  cases hjob : instant job with
  | none =>
      simp only [Instant.read, hjob, Option.map_none, Option.getD_none] at hstate
      exact absurd hstate.symm hknown
  | some kept =>
      simp only [Instant.read, hjob, Option.map_some, Option.getD_some] at hstate
      exact ⟨kept, hjob, hstate⟩

/-- `getState` finds a job that is active, one that has settled, or one that stands elsewhere. -/
theorem CallInv.readsState (h : CallInv s) {cancel : Cancel}
    (hread : s.cancel.readState (s.now.read s.cancel.job) = some cancel) :
    CallInv { s with cancel := cancel } := by
  unfold Cancel.readState at hread
  split at hread
  · rename_i locked n hreading
    dsimp only at hread
    have haborting : (s.now.read s.cancel.job).state.getD .unknown = .active →
        AnswerTrue s.cancel.job s.seen s.removal .aborting := fun hactive =>
      ⟨s.now, h.now_mem, stood_of_read hactive (by decide)⟩
    split_ifs at hread with hlocked hunder hfinished hactive
    · -- the job turned active under the removal
      cases hread
      refine h.goesOn rfl ?_
      rintro answer ⟨⟩
      refine haborting ?_
      by_contra hne
      rw [cancelUnderLock, if_neg hne] at hunder
      cases hunder
    · cases hread
      have hchildren : cancelUnderLock ((s.now.read s.cancel.job).state.getD .unknown) =
          .childrenRunning := by
        unfold cancelUnderLock at hunder ⊢
        split_ifs at hunder ⊢ with hactive
        · exact absurd rfl hunder
        · rfl
      refine h.goesOn rfl ?_
      rintro answer ⟨⟩
      rw [hchildren]
      refine h.known _ ?_
      rw [hreading, hlocked]
      rfl
    · cases hread
      refine h.goesOn rfl ?_
      rintro answer ⟨⟩
      refine ⟨hfinished, s.now, h.now_mem, stood_of_read rfl ?_⟩
      intro hunknown
      rw [hunknown] at hfinished
      cases hfinished
    · cases hread
      refine h.goesOn rfl ?_
      rintro answer ⟨⟩
      exact haborting hactive
    · cases hread
      refine h.goesOn rfl ?_
      rintro answer ⟨⟩
  · cases hread

/-- A refused removal met a worker that held the job, or a descendant. -/
theorem Instant.held_of_refuses {instant : Instant} {job : JobRef} (h : instant.refuses job = true)
    (hfree : instant.runs job = false) :
    ∃ child ∈ instant.below job, instant.runs child = true := by
  obtain ⟨held, hheld, hruns⟩ := List.any_eq_true.1 h
  rcases List.mem_cons.1 hheld with rfl | hheld
  · rw [hfree] at hruns
    cases hruns
  · exact ⟨held, hheld, hruns⟩

/-- A removal is refused while a worker holds the job or a descendant, and deletes them
otherwise. -/
theorem CallInv.removes (h : CallInv s) (hstep : cancelCall s .removes = some t) : CallInv t := by
  obtain ⟨cancel, hremove, rfl⟩ := Option.map_eq_some_iff.1 hstep
  unfold Cancel.remove at hremove
  split at hremove
  · cases hremove
    cases hrefused : s.now.refuses s.cancel.job with
    | true =>
        simp only [if_true]
        refine ⟨h.now, ?_⟩
        rintro answer ⟨⟩
        exact ⟨s.now, h.now_mem, rfl, Instant.held_of_refuses hrefused⟩
    | false =>
        simp only [Bool.false_eq_true, if_false]
        refine ⟨⟨s.seen, rfl⟩, ?_⟩
        rintro answer ⟨⟩
        obtain ⟨earlier, hseen⟩ := h.now
        exact ⟨s.now, rfl, hrefused, [], earlier, by rw [hseen]; rfl⟩
  · cases hremove

/-- **What every step of a call keeps.** -/
theorem cancelCall_inv {act : CancelAct} (h : CallInv s) (hstep : cancelCall s act = some t) :
    CallInv t := by
  cases act with
  | world act =>
      obtain ⟨now, -, rfl⟩ := Option.map_eq_some_iff.1 hstep
      exact ⟨⟨s.seen, rfl⟩, fun answer hanswer => (h.known answer hanswer).cons now⟩
  | readsJob =>
      obtain ⟨cancel, hread, rfl⟩ := Option.map_eq_some_iff.1 hstep
      exact h.readsJob hread
  | readsState =>
      obtain ⟨cancel, hread, rfl⟩ := Option.map_eq_some_iff.1 hstep
      exact h.readsState hread
  | removes => exact h.removes hstep
  | marks heard =>
      unfold cancelCall at hstep
      dsimp only at hstep
      split at hstep
      · rename_i n hmarking
        cases hstep
        refine h.goesOn rfl ?_
        intro answer hanswer
        cases heard with
        | true =>
            cases hanswer
            refine h.known _ ?_
            rw [hmarking]
            rfl
        | false => cases hanswer
      · cases hstep
  | rejects =>
      obtain ⟨cancel, hreject, rfl⟩ := Option.map_eq_some_iff.1 hstep
      unfold Cancel.reject at hreject
      split_ifs at hreject
      cases hreject
      refine h.goesOn rfl ?_
      rintro answer ⟨⟩

/-- A call stays with its job. -/
theorem cancelCall_job {act : CancelAct} (hstep : cancelCall s act = some t) :
    t.cancel.job = s.cancel.job := by
  cases act with
  | world act =>
      obtain ⟨now, -, rfl⟩ := Option.map_eq_some_iff.1 hstep
      rfl
  | readsJob =>
      obtain ⟨cancel, hread, rfl⟩ := Option.map_eq_some_iff.1 hstep
      unfold Cancel.readJob at hread
      split at hread <;> cases hread
      rfl
  | readsState =>
      obtain ⟨cancel, hread, rfl⟩ := Option.map_eq_some_iff.1 hstep
      unfold Cancel.readState at hread
      split at hread
      · dsimp only at hread
        split_ifs at hread <;> cases hread <;> rfl
      · cases hread
  | removes =>
      obtain ⟨cancel, hremove, rfl⟩ := Option.map_eq_some_iff.1 hstep
      unfold Cancel.remove at hremove
      split at hremove <;> cases hremove
      split_ifs <;> rfl
  | marks heard =>
      unfold cancelCall at hstep
      dsimp only at hstep
      split at hstep <;> cases hstep
      rfl
  | rejects =>
      obtain ⟨cancel, hreject, rfl⟩ := Option.map_eq_some_iff.1 hstep
      unfold Cancel.reject at hreject
      split_ifs at hreject
      cases hreject
      rfl

/-- **What a cancel answers was true at some instant of its call**, whatever workers and other
clients do between any two of its steps. -/
theorem cancel_answer_true (now : Instant) (job : JobRef) (l : List CancelAct)
    {answer : CancelResult}
    (h : cancelCall.exec (.init now job) l = some s) (hanswer : s.cancel.stage = .answered answer) :
    AnswerTrue job s.seen s.removal answer := by
  have hinv : CallInv s :=
    Machine.exec_invariant (fun _ _ _ hinv hstep => cancelCall_inv hinv hstep) h
      (callInv_init now job)
  have hjob : s.cancel.job = job :=
    Machine.exec_invariant (P := fun s => s.cancel.job = job)
      (fun _ _ _ hjob hstep => (cancelCall_job hstep).trans hjob) h rfl
  rw [← hjob]
  refine hinv.known answer ?_
  rw [hanswer]
  rfl

/-- A child of that job. -/
def busyChild : JobRef := (⟨"letters", by decide, by decide⟩, "8")

/-- A waiting job without children, and the queue that keeps nothing else. -/
def lonelyJob : JobRef := (⟨"letters", by decide, by decide⟩, "7")

@[inherit_doc lonelyJob] def lonelyInstant : Instant :=
  Function.update (fun _ => none) lonelyJob (some ⟨.waiting, 0, false, []⟩)

/-- Another client removes the job before the removal of the cancel lands. -/
def removedBefore : List CancelAct :=
  [.readsJob, .readsState, .world (.deletes [lonelyJob]), .removes]

/-- A worker takes the job before the removal lands, and completes it behind the refusal. -/
def completedBehind : List CancelAct :=
  [.readsJob, .readsState, .world (.takes lonelyJob), .removes, .world (.ends lonelyJob .completed),
    .readsJob, .readsState]

/-- A job that waits on one child, which a worker holds. -/
def waitingInstant : Instant :=
  Function.update (Function.update (fun _ => none) lonelyJob
    (some ⟨.waitingChildren, 0, false, [busyChild]⟩)) busyChild (some ⟨.active, 1, true, []⟩)

/-- The removal is refused, and the job waits on. -/
def childHeld : List CancelAct := [.readsJob, .readsState, .removes, .readsJob, .readsState]

theorem cancel_answer_true_removed :
    (∃ s, cancelCall.exec (.init lonelyInstant lonelyJob) removedBefore = some s ∧
      AnswerTrue lonelyJob s.seen s.removal .removed) ∧
    ∃ s, cancelCall.exec (.init waitingInstant lonelyJob) childHeld = some s ∧
      AnswerTrue lonelyJob s.seen s.removal .childrenRunning :=
  ⟨⟨_, rfl, cancel_answer_true lonelyInstant lonelyJob removedBefore rfl rfl⟩,
    _, rfl, cancel_answer_true waitingInstant lonelyJob childHeld rfl rfl⟩

/-- What the two answers would say, were `removed` said by the call that deleted the job, and
`children_running` of a job that waits on children of which one runs. -/
def AnswerClaimed (job : JobRef) (seen : List Instant) (removal : Option Removal) :
    CancelResult → Prop
  | .removed => ∃ met, removal = some ⟨met, false⟩ ∧ (met job).isSome = true
  | .childrenRunning => ∃ instant ∈ seen, ∃ kept, instant job = some kept ∧
      kept.state = .waitingChildren ∧ ∃ child ∈ kept.below, instant.runs child = true
  | answer => AnswerTrue job seen removal answer

/-- **What two of its answers do not say**: a job is `removed` that another client had deleted, and
`children_running` is said of one that never waited on children. -/
theorem cancel_answer_untrue :
    (∃ s, cancelCall.exec (.init lonelyInstant lonelyJob) removedBefore = some s ∧
      s.cancel.stage = .answered .removed ∧ ¬AnswerClaimed lonelyJob s.seen s.removal .removed) ∧
    ∃ s, cancelCall.exec (.init lonelyInstant lonelyJob) completedBehind = some s ∧
      s.cancel.stage = .answered .childrenRunning ∧
        ¬AnswerClaimed lonelyJob s.seen s.removal .childrenRunning := by
  refine ⟨⟨_, rfl, rfl, ?_⟩, _, rfl, rfl, ?_⟩
  · rintro ⟨met, hmade, hsome⟩
    cases hmade
    cases hsome
  rintro ⟨instant, hinstant, kept, hkept, hwaits, -⟩
  have hstate : (instant lonelyJob).map RedisJob.state = some .waitingChildren := by
    rw [hkept, Option.map_some, hwaits]
  -- the job is completed, active or waiting, from the last instant back
  rcases List.mem_cons.1 hinstant with rfl | hinstant
  · cases (show some JobState.completed = some .waitingChildren from hstate)
  rcases List.mem_cons.1 hinstant with rfl | hinstant
  · cases (show some JobState.active = some .waitingChildren from hstate)
  obtain rfl := List.mem_singleton.1 hinstant
  cases (show some JobState.waiting = some .waitingChildren from hstate)

end Jubs
