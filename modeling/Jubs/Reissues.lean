/-
**An id that is given to another job.**

Once its job is gone an id is free again: the memory driver numbers a new job after the jobs it
keeps, and Redis takes any id of the caller's that no job answers to.  The deliveries of the new job
are counted from the start, while a mark names an id and a count and does not go away with the job
it was written for.  The memory driver may also number a new job with an id that is in use, and the
job stands behind the other.

Main definitions:

* `Jubs.ReissueState`, `Jubs.ReissueEvent` — the machine of the cancellations, while jobs are added;
* `Jubs.reissueRuns` — the machine of each driver;
* `Jubs.Spared` — no job is added under an id that something still says of another.

Main results:

* `Jubs.cancel_contract` — **a cancellation reaches the delivery it was asked against, and no
  other**, in a run whose ids are spared;
* `Jubs.later_job_aborted` — a mark that aborts a delivery of another job.
-/

import Jubs.CancelMarks
import Jubs.MemoryRuns

set_option autoImplicit false

namespace Jubs

/-! ### The machine -/

/-- The machine of the cancellations, and the counts of the jobs that stand behind one of their id,
in the order in which they were added. -/
structure ReissueState (μ : Type) where
  run : CancelState μ
  behind : JobRef → List ℕ

/-- What happens while jobs are added. -/
inductive ReissueEvent where
  | happens (event : CancelEvent)
  | adds (job : JobRef)
  /-- A worker takes a job that stands behind another of its id. -/
  | handsBehind (job : JobRef) (place attemptsStarted : ℕ) (name : String)
  /-- The job of an id is gone, and the first one behind it answers. -/
  | surfaces (job : JobRef) (state : JobState)

namespace CancelState

variable {μ : Type}

/-- A job is added, and was never delivered. -/
def addJob (s : CancelState μ) (job : JobRef) : CancelState μ :=
  { s with jobs := Function.update s.jobs job ⟨some .waiting, 0⟩ }

/-- The other jobs stay as they are. -/
theorem jobs_addJob_of_ne {s : CancelState μ} {job job' : JobRef} (h : job' ≠ job) :
    (s.addJob job).jobs job' = s.jobs job' := Function.update_of_ne h _ _

/-- Whether an event moves a job that is gone, which only adding one does. -/
def revives (s : CancelState μ) : CancelEvent → Bool
  | .moves job (some _) => (s.jobs job).state.isNone
  | _ => false

end CancelState

/-- No job, no delivery, no call. -/
def ReissueState.init {μ : Type} (store : MarkStore μ) : ReissueState μ :=
  ⟨.init store, fun _ => []⟩

/-- Whether a driver may give a new job an id that is in use: the memory driver numbers its jobs
after those it keeps. -/
def Driver.doubles : Driver → Bool
  | .redis => false
  | .memory => true

/-- Cancels, deliveries and sweeps on a driver, while jobs are added to it. -/
def reissueRuns (driver : Driver) : Machine (ReissueState driver.Marks) ReissueEvent :=
  fun s event => match event with
  | .happens event =>
      if s.run.revives event then none
      else (cancelRuns driver s.run event).map fun run => { s with run := run }
  | .adds job =>
      if (s.run.jobs job).state = none ∧ s.behind job = [] then
        some { s with run := s.run.addJob job }
      else if driver.doubles then
        some { s with behind := Function.update s.behind job (s.behind job ++ [0]) }
      else none
  | .handsBehind job place n name =>
      match (s.behind job)[place]? with
      | none => none
      | some count =>
          if count < n then
            some {
              run := { s.run with
                handed := s.run.handed ++ [⟨job.1, job.2, n, name, s.run.handed.length⟩] }
              behind := Function.update s.behind job ((s.behind job).set place n) }
          else none
  | .surfaces job state =>
      match (s.run.jobs job).state, s.behind job with
      | none, count :: rest =>
          some {
            run := { s.run with jobs := Function.update s.run.jobs job ⟨some state, count⟩ }
            behind := Function.update s.behind job rest }
      | _, _ => none

/-- No job is added under an id that a job answers to, that a mark names, or whose count a cancel
has read and not written yet. -/
def Spared {μ : Type} (store : MarkStore μ) (s : ReissueState μ) : ReissueEvent → Prop
  | .adds job => (s.run.jobs job).state = none ∧ (∀ n, s.run.names store job n = false) ∧
      ∀ c cancel, s.run.cancels c = some cancel → cancel.job = job → cancel.stage.count = none
  | _ => True

/-! ### Runs whose ids are spared -/

section

variable {μ : Type} {store : MarkStore μ}

/-- A job is added under an id that nothing says anything of. -/
theorem CancelInv.addJob {s : CancelState μ} (h : CancelInv store s) {job : JobRef}
    (hunmarked : ∀ n, s.names store job n = false)
    (hunread : ∀ c cancel, s.cancels c = some cancel → cancel.job = job →
      cancel.stage.count = none) :
    CancelInv store (s.addJob job) := by
  refine ⟨h.deliveries.putJobs _, h.marks.putJobs _, ⟨?_, ?_⟩, h.aborts.taken, h.aborts.reasons,
    h.aborts.due⟩
  · intro c cancel hcancel n hn
    by_cases hjob : cancel.job = job
    · rw [hunread c cancel hcancel hjob] at hn
      cases hn
    · rw [CancelState.jobs_addJob_of_ne hjob]
      exact h.counts.count c cancel hcancel n hn
  · intro job' n hnames
    by_cases hjob : job' = job
    · subst hjob
      have hnone : (s.addJob job').names store job' n = false := hunmarked n
      rw [hnone] at hnames
      cases hnames
    · rw [CancelState.jobs_addJob_of_ne hjob]
      exact h.counts.reached job' n hnames

/-- What a run whose ids are spared keeps: no job stands behind another. -/
structure ReissueInv (store : MarkStore μ) (s : ReissueState μ) : Prop where
  run : CancelInv store s.run
  alone : ∀ job, s.behind job = []

theorem reissueInv_init : ReissueInv store (ReissueState.init store) :=
  ⟨cancelInv_init, fun _ => rfl⟩

end

section

variable {driver : Driver} {s t : ReissueState driver.Marks} {event : ReissueEvent}

/-- **What a step can do** while no job stands behind another: it is one of the cancellations, or
adds a job under an id that is spared. -/
theorem reissueRuns_cases (h : ReissueInv driver.marks s) (hspared : Spared driver.marks s event)
    (hstep : reissueRuns driver s event = some t) : t.behind = s.behind ∧
      (CancelStep driver.marks s.run t.run ∨ ∃ job, t.run = s.run.addJob job ∧
        (∀ n, s.run.names driver.marks job n = false) ∧
        ∀ c cancel, s.run.cancels c = some cancel → cancel.job = job →
          cancel.stage.count = none) := by
  cases event with
  | happens event =>
      simp only [reissueRuns] at hstep
      split_ifs at hstep
      obtain ⟨run, hrun, rfl⟩ := Option.map_eq_some_iff.1 hstep
      exact ⟨rfl, Or.inl (cancelStep_cases (cancelRuns_eq_some hrun))⟩
  | adds job =>
      obtain ⟨hnone, hunmarked, hunread⟩ := hspared
      simp only [reissueRuns] at hstep
      rw [if_pos ⟨hnone, h.alone job⟩] at hstep
      obtain rfl := Option.some.inj hstep
      exact ⟨rfl, Or.inr ⟨job, rfl, hunmarked, hunread⟩⟩
  | handsBehind job place n name =>
      simp [reissueRuns, h.alone job] at hstep
  | surfaces job state =>
      simp only [reissueRuns, h.alone job] at hstep
      split at hstep
      · rename_i hbehind
        cases hbehind
      · cases hstep

theorem ReissueInv.step (h : ReissueInv driver.marks s) (hspared : Spared driver.marks s event)
    (hstep : reissueRuns driver s event = some t) : ReissueInv driver.marks t := by
  obtain ⟨hbehind, hstep | ⟨job, hadded, hunmarked, hunread⟩⟩ := reissueRuns_cases h hspared hstep
  · exact ⟨h.run.step hstep, hbehind ▸ h.alone⟩
  · exact ⟨hadded ▸ h.run.addJob hunmarked hunread, hbehind ▸ h.alone⟩

theorem FindsAmong.reissue {handed : List LiveDelivery} {c : ℕ}
    (hamong : FindsAmong driver.marks handed c s.run) (h : ReissueInv driver.marks s)
    (hspared : Spared driver.marks s event) (hstep : reissueRuns driver s event = some t) :
    FindsAmong driver.marks handed c t.run := by
  obtain ⟨-, hstep | ⟨job, hadded, -⟩⟩ := reissueRuns_cases h hspared hstep
  · exact hamong.step h.run.deliveries h.run.counts hstep
  · exact hadded ▸ hamong.putJobs _

end

/-- **A cancellation reaches the delivery it was asked against, and no other**, in a run whose ids
are spared.  In every state that such a run reaches, the contract holds; however it goes on, what a
call that has returned still finds had been handed out by then; and of any objects it is given,
`takeCancelled` gives back those whose mark matches when their turn comes, in their order. -/
theorem cancel_contract (driver : Driver) {l : List ReissueEvent} {s : ReissueState driver.Marks}
    (h : (reissueRuns driver).exec (.init driver.marks) l = some s)
    (hspared : (reissueRuns driver).Along (Spared driver.marks) (.init driver.marks) l) :
    CancelContract s.run ∧
    (∀ l' t, (reissueRuns driver).exec s l' = some t →
      (reissueRuns driver).Along (Spared driver.marks) s l' →
      ∀ c cancel, s.run.cancels c = some cancel → cancel.stage.returned = true →
        ∀ find ∈ t.run.finds, find.cancel = c → find.delivery ∈ s.run.handed) ∧
    ∀ {δ : Type} (named : δ → RunningDelivery) (q : QueueName) (running : List δ)
      (m : driver.Marks),
      (driver.marks.take named q.name running m).1 =
        matching named (driver.marks.names q.name m) running ∧
      ((running.map named).Nodup → (driver.marks.take named q.name running m).1 =
        running.filter fun delivery => driver.marks.names q.name m (named delivery)) := by
  have hinv : ReissueInv driver.marks s :=
    Machine.exec_invariant_along (fun _ _ _ hspared hinv hstep => hinv.step hspared hstep) h hspared
      reissueInv_init
  refine ⟨hinv.run.contract, ?_, ?_⟩
  · intro l' t hexec hspared' c cancel hcancel hreturned
    have hamong : ReissueInv driver.marks t ∧ FindsAmong driver.marks s.run.handed c t.run :=
      Machine.exec_invariant_along
        (P := fun t => ReissueInv driver.marks t ∧ FindsAmong driver.marks s.run.handed c t.run)
        (fun _ _ _ hspared hinv hstep =>
          ⟨hinv.1.step hspared hstep, hinv.2.reissue hinv.1 hspared hstep⟩) hexec hspared'
        ⟨hinv, .of_returned hinv.run.marks hcancel hreturned⟩
    exact hamong.2.found
  · intro δ named q running m
    refine ⟨driver.marks.take_fst, fun hnodup => ?_⟩
    rw [driver.marks.take_fst, matching_eq_filter hnodup fun _ _ => driver.marks.names_one]

/-! ### Two runs -/

/-- The job is delivered, cancelled and delivered again; a sweep finds both deliveries running. -/
def overlappingDeliveries : List ReissueEvent :=
  [.happens (.hands cancelledJob 1 "invoice.send"),
    .happens (.enters ⟨cancelledJob.1, "7", 1, "invoice.send", 0⟩ 0),
      .happens (.calls 0 cancelledJob),
    .happens (.readsJob 0), .happens (.readsState 0),
    .happens (.moves cancelledJob (some .waiting)), .happens (.hands cancelledJob 2 "invoice.send"),
    .happens (.enters ⟨cancelledJob.1, "7", 2, "invoice.send", 1⟩ 0), .happens (.marks 0 true),
    .happens (.sweeps 0 0), .happens (.takes 0), .happens (.aborts 0)]

/-- Both end, the job goes, and its id is given to another, whose delivery a sweep asks about. -/
def spareDelivery : List ReissueEvent :=
  [.happens (.hands cancelledJob 1 "invoice.send"),
    .happens (.enters ⟨cancelledJob.1, "7", 1, "invoice.send", 2⟩ 0), .happens (.sweeps 1 0),
    .happens (.takes 1)]

/-- The first delivery is aborted, the one beside it is not, and neither is that of the next job. -/
theorem cancel_contract_overlapping : ∃ s t,
    (reissueRuns .redis).exec (.init Driver.redis.marks)
    (.adds cancelledJob :: overlappingDeliveries) =
        some s ∧
      (reissueRuns .redis).exec s (.happens (.moves cancelledJob none) :: .adds cancelledJob ::
        spareDelivery) = some t ∧
      (t.run.finds.map fun find => find.delivery.controller) = [0] ∧ t.run.reasons 0 ≠ none ∧
      t.run.reasons 1 = none ∧ t.run.reasons 2 = none ∧ CancelContract t.run ∧
      ∀ find ∈ t.run.finds, find.cancel = 0 → find.delivery ∈ s.run.handed := by
  have hevents : ∀ event ∈ overlappingDeliveries ++ spareDelivery, ∀ s,
      Spared Driver.redis.marks s event := by
    simp [overlappingDeliveries, spareDelivery, Spared]
  have hfirst : (reissueRuns .redis).Along (Spared Driver.redis.marks) (.init Driver.redis.marks)
      (.adds cancelledJob :: overlappingDeliveries) :=
    .cons ⟨rfl, fun _ => rfl, fun c cancel h => by cases h⟩ rfl
      (.of_forall (fun event h => hevents event (List.mem_append_left _ h)) _)
  have hnext : ∀ s, (reissueRuns .redis).exec (.init Driver.redis.marks)
      (.adds cancelledJob :: overlappingDeliveries) = some s →
      (reissueRuns .redis).Along (Spared Driver.redis.marks) s
        (.happens (.moves cancelledJob none) :: .adds cancelledJob :: spareDelivery) := by
    rintro s ⟨⟩
    refine .cons trivial rfl (.cons ⟨rfl, fun _ => rfl, ?_⟩ rfl
      (.of_forall (fun event h => hevents event (List.mem_append_right _ h)) _))
    -- the one cancel has returned
    intro c cancel hcancel _
    cases c with
    | zero =>
        obtain rfl := Option.some.inj hcancel
        rfl
    | succ c =>
        change none = some cancel at hcancel
        cases hcancel
  refine ⟨_, _, rfl, rfl, rfl, ?_, rfl, rfl, ?_, ?_⟩
  · exact Option.some_ne_none _
  · exact (cancel_contract .redis rfl (hfirst.append rfl (hnext _ rfl))).1
  · exact (cancel_contract .redis rfl hfirst).2.1 _ _ rfl (hnext _ rfl) 0 _ rfl rfl

/-- The job `1` of the queue `mail`. -/
def firstLine : JobRef := (⟨"mail", by decide, by decide⟩, "1")

/-- The job is cancelled while it runs, fails, is retried and is cancelled again, which removes it;
the next job is given its number. -/
def staleMark : List ReissueEvent :=
  [.adds firstLine, .happens (.hands firstLine 1 "invoice.line"),
    .happens (.enters ⟨firstLine.1, "1", 1, "invoice.line", 0⟩ 0), .happens (.cancels 0 firstLine),
    .happens (.ends 0 0), .happens (.moves firstLine (some .failed)),
    .happens (.moves firstLine (some .waiting)), .happens (.cancels 1 firstLine), .adds firstLine]

/-- That job is delivered, and a sweep asks about it. -/
def nextDelivery : List ReissueEvent :=
  [.happens (.hands firstLine 1 "invoice.line"),
    .happens (.enters ⟨firstLine.1, "1", 1, "invoice.line", 1⟩ 0), .happens (.sweeps 0 0),
    .happens (.takes 0), .happens (.aborts 0)]

/-- The calls on the memory driver that make such a run. -/
def renumberingCalls : List MemoryCall :=
  [.enqueue (lineRequest none), .consume "mail", .runNext, .cancel "mail" "1",
    .settle 0 (.error typeError), .retry "mail" "1", .cancel "mail" "1",
      .enqueue (lineRequest none),
    .runNext]

/-- **A mark that aborts a delivery of another job.**  The call that wrote it returned before the
job it is found on was added: the memory driver numbered that job after the jobs it keeps, and hands
it out with the count the mark names. -/
theorem later_job_aborted :
    (∃ s t, (reissueRuns .memory).exec (.init Driver.memory.marks) staleMark = some s ∧
      (∃ cancel, s.run.cancels 0 = some cancel ∧ cancel.stage = .answered .aborting) ∧
      (reissueRuns .memory).exec s nextDelivery = some t ∧
      ∃ find ∈ t.run.finds, find.cancel = 0 ∧ find.delivery ∉ s.run.handed ∧
        t.run.reasons find.delivery.controller = some (cancelledError "invoice.line" none)) ∧
    ∃ m, memoryRun.exec .start renumberingCalls = some m ∧
      (m.driver.jobs 0).id = "1" ∧ (m.driver.jobs 1).id = "1" ∧
      (m.driver.jobs 1).state = .active ∧ (m.driver.jobs 1).attemptsStarted = 1 ∧
      (m.driver.takeCancelled id "mail" [⟨"1", 1⟩]).1 = [⟨"1", 1⟩] := by
  refine ⟨⟨_, _, rfl, ⟨_, rfl, rfl⟩, rfl, _, List.mem_cons_self, rfl, ?_, rfl⟩, ?_⟩
  · decide
  · exact ⟨_, rfl, rfl, rfl, rfl, rfl, rfl⟩

end Jubs
