/-
**The drains of the memory driver.**

`drain()` runs the line until nothing in it is runnable.  Between two of its runs, and while it
awaits one, anything else may happen on the driver: handlers enqueue, cancel and pause, tests call
`runNext` on their own, and other drains run the same line.

Main definitions:

* `Jubs.rejectionOf` — what a `runNext` rejects with;
* `Jubs.DrainCall`, `Jubs.Drains`, `Jubs.drainsRun` — drains, and everybody else on the driver, as
  one machine that keeps who began which run;
* `Jubs.DrainCall.Lawful`, `Jubs.DrainsContract` — what holds of each drain, and of all of them;
* `Jubs.soloActs`, `Jubs.Drained` — a drain alone on the driver, and what it leaves behind.

Main results:

* `Jubs.drains_contract` — **whatever happens around them, drains share the runs between them, count
  what they completed, and stop on the first failure**;
* `Jubs.drain_idle` — **when a drain resolves, what stands on no paused queue is finished or in
  somebody else's hands**;
* `Jubs.drain_alone` — **a drain alone runs the line in order, up to the first failure**.
-/

import Jubs.MemoryRuns

set_option autoImplicit false

namespace Jubs

/-! ### Drains -/

/-- What a `runNext` rejects with when its run failed.  `String(error)` may throw. -/
def rejectionOf (error : Thrown) : Thrown :=
  if error.cls = some .leaseHeld then
    unsupported "rescheduling a delivery whose idempotency lease is held"
  else
    match error with
    | .inl _ => error
    | .inr value => if value.toText = none then typeError else error

/-- Where a call of `drain()` stands: at the top of its loop, at its `await`, or settled. -/
inductive DrainStage where
  | turning
  | awaiting (ref : ℕ)
  | resolved (ran : ℕ)
  | rejected (error : Thrown)

/-- A call of `drain()`, with the runs it awaited so far and how they ended. -/
structure DrainCall where
  ran : ℕ
  stage : DrainStage
  runs : List (ℕ × Except Thrown Value)

namespace DrainCall

/-- A drain that was just called: `let ran = 0`. -/
def called : DrainCall := ⟨0, .turning, []⟩

/-- `while (runnable())`, up to the `await` in its body. -/
def turn (m : MemoryDriver) (drain : DrainCall) : DrainCall :=
  match m.runnable with
  | none => { drain with stage := .resolved drain.ran }
  | some _ =>
      match m.runNext with
      | .error error => { drain with stage := .rejected error }
      | .ok (ref, _) => { drain with stage := .awaiting ref }

/-- The awaited run has settled: `ran += 1`, or the rejection goes through. -/
def settle (drain : DrainCall) (ref : ℕ) (outcome : Except Thrown Value) : DrainCall :=
  match outcome with
  | .ok _ => ⟨drain.ran + 1, .turning, drain.runs ++ [(ref, outcome)]⟩
  | .error error => ⟨drain.ran, .rejected (rejectionOf error), drain.runs ++ [(ref, outcome)]⟩

/-- The job whose run a drain awaits. -/
def awaited (drain : DrainCall) : List ℕ :=
  match drain.stage with
  | .awaiting ref => [ref]
  | _ => []

end DrainCall

/-! ### Everybody on the driver -/

variable {ι : Type}

/-- A driver, the jobs whose run a direct call of `runNext` awaits, the drains, and who began which
run, a drain or a direct call. -/
structure Drains (ι : Type) where
  line : MemoryRun
  direct : List ℕ
  drains : ι → DrainCall
  began : List (Option ι × ℕ)

/-- A call by somebody else, one turn of the loop of a drain, or the end of a run it awaits. -/
inductive DrainAct (ι : Type) where
  | call (call : MemoryCall)
  | turn (i : ι)
  | settles (i : ι) (outcome : Except Thrown Value)

namespace Drains

/-- The driver. -/
def driver (s : Drains ι) : MemoryDriver := s.line.driver

/-- Nothing has happened on the driver. -/
def start : Drains ι := ⟨.start, [], fun _ => .called, []⟩

/-- The job a `runNext` would run. -/
def next (s : Drains ι) : List ℕ :=
  match s.driver.runNext with
  | .ok (ref, _) => [ref]
  | .error _ => []

/-- A drain has gone on. -/
def set [DecidableEq ι] (s : Drains ι) (i : ι) (drain : DrainCall) : Drains ι :=
  { s with drains := Function.update s.drains i drain }

end Drains

/-- **Drains, and everybody else, on one driver.**  A run that a drain awaits is settled by nobody
else, and a run that a direct call awaits by no drain. -/
def drainsRun [DecidableEq ι] : Machine (Drains ι) (DrainAct ι) := fun s act =>
  match act with
  -- a drain is no call of its own here: its loop takes turns
  | .call .drain => none
  | .call .runNext =>
      (memoryRun s.line .runNext).map fun line =>
        { s with
          line := line
          direct := s.direct ++ s.next
          began := s.began ++ s.next.map fun ref => (none, ref) }
  | .call (.settle ref outcome) =>
      if ref ∈ s.direct then
        (memoryRun s.line (.settle ref outcome)).map fun line =>
          { s with line := line, direct := s.direct.erase ref }
      else none
  | .call call => (memoryRun s.line call).map fun line => { s with line := line }
  | .turn i =>
      match (s.drains i).stage with
      | .turning =>
          (memoryRun s.line .drain).map fun line =>
            { s.set i ((s.drains i).turn s.driver) with
              line := line
              began := s.began ++ s.next.map fun ref => (some i, ref) }
      | _ => none
  | .settles i outcome =>
      match (s.drains i).stage with
      | .awaiting ref =>
          (memoryRun s.line (.settle ref outcome)).map fun line =>
            { s.set i ((s.drains i).settle ref outcome) with line := line }
      | _ => none

/-! ### What a step does -/

/-- The jobs whose runs were begun, in order. -/
def begunIn (log : List MemoryEvent) : List ℕ :=
  log.filterMap fun event => match event with
    | .delivered ref _ => some ref
    | _ => none

theorem begunIn_append (l l' : List MemoryEvent) : begunIn (l ++ l') = begunIn l ++ begunIn l' :=
  List.filterMap_append

namespace MemoryDriver

variable {m : MemoryDriver}

/-- A job that is runnable stands in a driver whose `runNext` runs it, or has no consumer for it. -/
theorem runNext_of_runnable {ref : ℕ} (h : m.runnable = some ref) :
    m.runNext = .ok (ref, m.start ref) ∨
      m.consumers (m.jobs ref).queue = false ∧ ∃ error, m.runNext = .error error := by
  by_cases hconsumer : m.consumers (m.jobs ref).queue = true
  · exact .inl (runNext_eq_ok_iff.2 ⟨h, hconsumer, rfl⟩)
  · refine .inr ⟨by simpa using hconsumer, ?_⟩
    cases hrun : m.runNext with
    | error error => exact ⟨error, rfl⟩
    | ok p =>
        obtain ⟨next, m'⟩ := p
        obtain ⟨hfirst, hyes, -⟩ := runNext_eq_ok_iff.1 hrun
        obtain rfl := Option.some.inj (h.symm.trans hfirst)
        exact absurd hyes hconsumer

/-- A call that neither begins nor ends a run leaves those that are awaited as they are. -/
theorem act_of_aside {call : MemoryCall} {p : MemoryDriver × List MemoryEvent}
    (h : m.act call = some p) (hnext : call ≠ .runNext) (hdrain : call ≠ .drain)
    (hsettle : ∀ ref outcome, call ≠ .settle ref outcome) :
    p.1.running = m.running ∧ begunIn p.2 = [] := by
  cases call with
  | runNext => exact absurd rfl hnext
  | drain => exact absurd rfl hdrain
  | settle ref outcome => exact absurd rfl (hsettle ref outcome)
  | enqueue request =>
      obtain rfl := Option.some.inj h
      unfold actEnqueue enqueue
      cases request.delivery.keys.find? fun key => key ∉ acceptedDelivery with
      | some rejected => exact ⟨rfl, rfl⟩
      | none =>
          cases m.already request with
          | some ref => exact ⟨rfl, by simp [begunIn]⟩
          | none =>
              cases storedData request.envelope with
              | none => exact ⟨rfl, rfl⟩
              | some envelope => exact ⟨rfl, by simp [begunIn, record]⟩
  | retry queue id =>
      obtain rfl := Option.some.inj h
      cases m.jobAt queue id with
      | none => exact ⟨rfl, rfl⟩
      | some ref =>
          by_cases hfailed : (m.jobs ref).state = .failed
          · simp [hfailed, requeue, modify, begunIn]
          · simp [hfailed, begunIn]
  | cancel queue id =>
      obtain rfl := Option.some.inj h
      cases m.jobAt queue id with
      | none => exact ⟨rfl, rfl⟩
      | some ref =>
          by_cases hfinished : (m.jobs ref).state = .completed ∨ (m.jobs ref).state = .failed
          · simp [hfinished, begunIn]
          · by_cases hactive : (m.jobs ref).state = .active
            · simp [hactive, requestCancel, begunIn]
            · simp [hfinished, hactive, remove, begunIn]
  | takeCancelled queue running =>
      obtain rfl := Option.some.inj h
      obtain ⟨marked, hmarked⟩ := takeCancelled_eq id queue running m
      exact ⟨by rw [hmarked], rfl⟩
  | pause queue | resume queue | consume queue | close queue =>
      obtain rfl := Option.some.inj h
      exact ⟨rfl, rfl⟩

/-- A `runNext` that runs a job, and what is seen of it. -/
theorem actRunNext_of_ok {ref : ℕ} (h : m.runNext = .ok (ref, m.start ref)) :
    m.actRunNext = (m.start ref, [.delivered ref (delivery ((m.start ref).jobs ref))]) := by
  unfold actRunNext
  rw [h]

theorem actRunNext_of_error {error : Thrown} (h : m.runNext = .error error) :
    m.actRunNext = (m, []) := by
  unfold actRunNext
  rw [h]

theorem settle_running (ref : ℕ) (outcome : Except Thrown Value) :
    (m.settle ref outcome).running = m.running.erase ref := by
  unfold settle
  cases outcome with
  | ok value => rfl
  | error error =>
      dsimp only
      split_ifs <;> rfl

theorem mem_start_running {ref r : ℕ} : r ∈ (m.start ref).running ↔ r ∈ m.running ∨ r = ref := by
  simp [start, modify]

end MemoryDriver

/-- The end of a run that is awaited. -/
theorem memoryRun_settle {r line : MemoryRun} {ref : ℕ} {outcome : Except Thrown Value}
    (h : memoryRun r (.settle ref outcome) = some line) :
    ref ∈ r.driver.running ∧ line.driver = r.driver.settle ref outcome ∧
      line.driver.running = r.driver.running.erase ref ∧ begunIn line.log = begunIn r.log := by
  obtain ⟨p, hact, rfl⟩ := Option.map_eq_some_iff.1 h
  simp only [MemoryDriver.act] at hact
  split_ifs at hact with href
  obtain rfl := Option.some.inj hact
  refine ⟨href, rfl, MemoryDriver.settle_running ref outcome, ?_⟩
  rw [begunIn_append]
  cases outcome with
  | ok value => exact List.append_nil _
  | error error =>
      dsimp only
      split_ifs <;> exact List.append_nil _

/-- A `runNext`, or the turn of a drain on a line that is runnable: the job that is run, if any. -/
theorem memoryRun_next {r line : MemoryRun} {call : MemoryCall}
    (hact : r.driver.act call = some r.driver.actRunNext) (h : memoryRun r call = some line) :
    (∃ ref, r.driver.runNext = .ok (ref, r.driver.start ref) ∧
        line.driver = r.driver.start ref ∧ begunIn line.log = begunIn r.log ++ [ref]) ∨
      (∃ error, r.driver.runNext = .error error) ∧ line = r := by
  obtain ⟨p, hp, rfl⟩ := Option.map_eq_some_iff.1 h
  obtain rfl := Option.some.inj (hp.symm.trans hact)
  cases hrun : r.driver.runNext with
  | error error =>
      rw [MemoryDriver.actRunNext_of_error hrun]
      exact .inr ⟨⟨error, rfl⟩, by simp⟩
  | ok p =>
      obtain ⟨ref, m'⟩ := p
      obtain ⟨-, -, rfl⟩ := MemoryDriver.runNext_eq_ok_iff.1 hrun
      rw [MemoryDriver.actRunNext_of_ok hrun]
      exact .inl ⟨ref, rfl, rfl, by simp [begunIn]⟩

variable [DecidableEq ι] {s t : Drains ι}

/-- **What a call of somebody else can do**: it begins a run of its own, ends one, or touches
none. -/
theorem call_cases {call : MemoryCall} (h : drainsRun s (.call call) = some t) :
    ∃ line, memoryRun s.line call = some line ∧
      ((∃ ref, s.driver.runNext = .ok (ref, s.driver.start ref) ∧
          line.driver = s.driver.start ref ∧ begunIn line.log = begunIn s.line.log ++ [ref] ∧
          t = { s with
            line := line, direct := s.direct ++ [ref], began := s.began ++ [(none, ref)] }) ∨
        (∃ ref ∈ s.direct, line.driver.running = s.driver.running.erase ref ∧
          begunIn line.log = begunIn s.line.log ∧
          t = { s with line := line, direct := s.direct.erase ref }) ∨
        (line.driver.running = s.driver.running ∧ begunIn line.log = begunIn s.line.log ∧
          t = { s with line := line })) := by
  have haside : ∀ line, memoryRun s.line call = some line → call ≠ .runNext → call ≠ .drain →
      (∀ ref outcome, call ≠ .settle ref outcome) →
      line.driver.running = s.driver.running ∧ begunIn line.log = begunIn s.line.log := by
    intro line hline hnext hdrain hsettle
    obtain ⟨p, hact, rfl⟩ := Option.map_eq_some_iff.1 hline
    obtain ⟨hrunning, hbegun⟩ := MemoryDriver.act_of_aside hact hnext hdrain hsettle
    exact ⟨hrunning, by rw [begunIn_append, hbegun, List.append_nil]⟩
  cases call with
  | drain => cases h
  | runNext =>
      simp only [drainsRun] at h
      obtain ⟨line, hline, rfl⟩ := Option.map_eq_some_iff.1 h
      refine ⟨line, hline, ?_⟩
      rcases memoryRun_next rfl hline with ⟨ref, hrun, hdriver, hbegun⟩ | ⟨⟨error, hrun⟩, rfl⟩
      · have hnext : s.next = [ref] := by
          unfold Drains.next Drains.driver
          rw [hrun]
        exact .inl ⟨ref, hrun, hdriver, hbegun, by simp [hnext]⟩
      · have hnext : s.next = [] := by
          unfold Drains.next Drains.driver
          rw [hrun]
        exact .inr (.inr ⟨rfl, rfl, by simp [hnext]⟩)
  | settle ref outcome =>
      simp only [drainsRun] at h
      split_ifs at h with href
      obtain ⟨line, hline, rfl⟩ := Option.map_eq_some_iff.1 h
      obtain ⟨-, -, hrunning, hbegun⟩ := memoryRun_settle hline
      exact ⟨line, hline, .inr (.inl ⟨ref, href, hrunning, hbegun, rfl⟩)⟩
  | enqueue _ | retry _ _ | cancel _ _ | takeCancelled _ _ | pause _ | resume _ | consume _
  | close _ =>
      simp only [drainsRun] at h
      obtain ⟨line, hline, rfl⟩ := Option.map_eq_some_iff.1 h
      obtain ⟨hrunning, hbegun⟩ := haside line hline (by simp) (by simp) (by simp)
      exact ⟨line, hline, .inr (.inr ⟨hrunning, hbegun, rfl⟩)⟩

/-- **What a turn of a drain can do**: it resolves, it rejects, or it begins a run. -/
theorem turn_cases {i : ι} (h : drainsRun s (.turn i) = some t) :
    (s.drains i).stage = .turning ∧
      ((s.driver.runnable = none ∧
          t = s.set i { s.drains i with stage := .resolved (s.drains i).ran }) ∨
        (∃ ref error, s.driver.runnable = some ref ∧
          s.driver.consumers (s.driver.jobs ref).queue = false ∧ s.driver.runNext = .error error ∧
          t = s.set i { s.drains i with stage := .rejected error }) ∨
        (∃ ref line, s.driver.runNext = .ok (ref, s.driver.start ref) ∧
          memoryRun s.line .drain = some line ∧
          line.driver = s.driver.start ref ∧ begunIn line.log = begunIn s.line.log ++ [ref] ∧
          t = { s.set i { s.drains i with stage := .awaiting ref } with
            line := line, began := s.began ++ [(some i, ref)] })) := by
  simp only [drainsRun] at h
  split at h
  case h_2 => cases h
  case h_1 hstage =>
    refine ⟨hstage, ?_⟩
    obtain ⟨line, hline, rfl⟩ := Option.map_eq_some_iff.1 h
    cases hrunnable : s.driver.runnable with
    | none =>
        have hact : s.line.driver.act .drain = some (s.line.driver, []) := by
          simp only [MemoryDriver.act]
          rw [show s.line.driver.runnable = none from hrunnable]
          rfl
        have hnext : s.next = [] := by
          cases hrun : s.driver.runNext with
          | error error => simp [Drains.next, hrun]
          | ok p =>
              obtain ⟨ref, m'⟩ := p
              cases hrunnable.symm.trans (MemoryDriver.runNext_eq_ok_iff.1 hrun).1
        obtain rfl : line = s.line := by
          obtain ⟨p, hp, rfl⟩ := Option.map_eq_some_iff.1 hline
          obtain rfl := Option.some.inj (hp.symm.trans hact)
          simp
        refine .inl ⟨rfl, ?_⟩
        simp [DrainCall.turn, hrunnable, hnext, Drains.set]
    | some ref =>
        have hact : s.line.driver.act .drain = some s.line.driver.actRunNext := by
          simp only [MemoryDriver.act]
          rw [show s.line.driver.runnable = some ref from hrunnable]
          rfl
        rcases memoryRun_next hact hline with ⟨first, hrun, hdriver, hbegun⟩ | ⟨⟨error, hrun⟩, rfl⟩
        · have hrun : s.driver.runNext = .ok (first, s.driver.start first) := hrun
          refine .inr (.inr ⟨first, line, hrun, hline, hdriver, hbegun, ?_⟩)
          simp [Drains.next, DrainCall.turn, hrunnable, hrun, Drains.set]
        · have hrun : s.driver.runNext = .error error := hrun
          -- a job that can run fails to begin only where nobody consumes its queue
          rcases MemoryDriver.runNext_of_runnable hrunnable with hok | ⟨hconsumer, -⟩
          · rw [hok] at hrun
            cases hrun
          · refine .inr (.inl ⟨ref, error, rfl, hconsumer, hrun, ?_⟩)
            simp [Drains.next, DrainCall.turn, hrunnable, hrun, Drains.set]

/-- **What the end of a run does to the drain that awaits it.** -/
theorem settles_cases {i : ι} {outcome : Except Thrown Value}
    (h : drainsRun s (.settles i outcome) = some t) :
    ∃ ref line, (s.drains i).stage = .awaiting ref ∧
      memoryRun s.line (.settle ref outcome) = some line ∧
      line.driver = s.driver.settle ref outcome ∧
      line.driver.running = s.driver.running.erase ref ∧ begunIn line.log = begunIn s.line.log ∧
      t = { s.set i ((s.drains i).settle ref outcome) with line := line } := by
  simp only [drainsRun] at h
  split at h
  case h_2 => cases h
  case h_1 ref hstage =>
    obtain ⟨line, hline, rfl⟩ := Option.map_eq_some_iff.1 h
    obtain ⟨-, hdriver, hrunning, hbegun⟩ := memoryRun_settle hline
    exact ⟨ref, line, hstage, hline, hdriver, hrunning, hbegun, rfl⟩

/-! ### What holds of drains -/

/-- Whether a run that was awaited completed. -/
def wentWell (run : ℕ × Except Thrown Value) : Bool := run.2.isOk

/-- What a drain has done: it counts the runs that completed, goes on while they do, and stops on
the first that fails, or at a job whose queue nobody consumes. -/
structure DrainCall.Lawful (drain : DrainCall) : Prop where
  ran : drain.ran = drain.runs.countP wentWell
  going : drain.stage = .turning ∨ (∃ ref, drain.stage = .awaiting ref) →
    ∀ run ∈ drain.runs, wentWell run = true
  resolved : ∀ ran, drain.stage = .resolved ran →
    ran = drain.runs.length ∧ ∀ run ∈ drain.runs, wentWell run = true
  rejected : ∀ error, drain.stage = .rejected error →
    (∃ before ref thrown, drain.runs = before ++ [(ref, .error thrown)] ∧
        (∀ run ∈ before, wentWell run = true) ∧ error = rejectionOf thrown) ∨
      ((∀ run ∈ drain.runs, wentWell run = true) ∧
        ∃ m : MemoryDriver, ∃ ref, m.runnable = some ref ∧
          m.consumers (m.jobs ref).queue = false ∧ m.runNext = .error error)

/-- The jobs whose runs a party began, in order. -/
def Drains.begunBy (s : Drains ι) (party : Option ι) : List ℕ :=
  (s.began.filter fun run => run.1 = party).map Prod.snd

theorem DrainCall.awaited_eq_nil {drain : DrainCall} (h : ∀ ref, drain.stage ≠ .awaiting ref) :
    drain.awaited = [] := by
  unfold DrainCall.awaited
  split
  · rename_i ref hstage
    exact absurd hstage (h ref)
  · rfl

theorem drains_set_self (i : ι) (drain : DrainCall) : (s.set i drain).drains i = drain := by
  simp [Drains.set]

theorem drains_set_of_ne {i j : ι} (h : j ≠ i) (drain : DrainCall) :
    (s.set i drain).drains j = s.drains j := by
  simp [Drains.set, h]

/-- What the drains await once one of them has gone on. -/
theorem stage_set {i j : ι} {drain : DrainCall} {stage : DrainStage} :
    ((s.set i drain).drains j).stage = stage ↔
      j = i ∧ drain.stage = stage ∨ j ≠ i ∧ (s.drains j).stage = stage := by
  by_cases h : j = i
  · simp [h, drains_set_self]
  · simp [h, drains_set_of_ne h]

/-- What holds of the drains of a driver. -/
structure DrainsInv (s : Drains ι) : Prop where
  reached : memoryRun.Reaches .start s.line
  direct : s.direct.Nodup
  running : ∀ ref, ref ∈ s.driver.running ↔
    ref ∈ s.direct ∨ ∃ i, (s.drains i).stage = .awaiting ref
  apart : ∀ i ref, (s.drains i).stage = .awaiting ref → ref ∉ s.direct
  alone : ∀ i j ref, (s.drains i).stage = .awaiting ref → (s.drains j).stage = .awaiting ref → i = j
  lawful : ∀ i, (s.drains i).Lawful
  began : begunIn s.line.log = s.began.map Prod.snd
  mine : ∀ i, s.begunBy (some i) = (s.drains i).runs.map Prod.fst ++ (s.drains i).awaited

namespace DrainCall.Lawful

variable {drain : DrainCall}

theorem called : DrainCall.called.Lawful := by
  constructor
  · rfl
  · intro _ run hrun
    cases hrun
  · intro ran h
    cases h
  · intro error h
    cases h

theorem resolve (h : drain.Lawful) (hturning : drain.stage = .turning) :
    DrainCall.Lawful { drain with stage := .resolved drain.ran } := by
  have hall := h.going (.inl hturning)
  constructor
  · exact h.ran
  · exact fun _ => hall
  · intro ran hran
    obtain rfl := DrainStage.resolved.inj hran
    exact ⟨h.ran.trans (List.countP_eq_length.2 hall), hall⟩
  · intro error herror
    cases herror

theorem reject (h : drain.Lawful) (hturning : drain.stage = .turning) {m : MemoryDriver} {ref : ℕ}
    {error : Thrown} (hfirst : m.runnable = some ref)
    (hconsumer : m.consumers (m.jobs ref).queue = false) (hrun : m.runNext = .error error) :
    DrainCall.Lawful { drain with stage := .rejected error } := by
  have hall := h.going (.inl hturning)
  constructor
  · exact h.ran
  · exact fun _ => hall
  · intro ran hran
    cases hran
  · intro error' herror
    obtain rfl := DrainStage.rejected.inj herror
    exact .inr ⟨hall, m, ref, hfirst, hconsumer, hrun⟩

theorem await (h : drain.Lawful) (hturning : drain.stage = .turning) (ref : ℕ) :
    DrainCall.Lawful { drain with stage := .awaiting ref } := by
  constructor
  · exact h.ran
  · exact fun _ => h.going (.inl hturning)
  · intro ran hran
    cases hran
  · intro error herror
    cases herror

theorem settle (h : drain.Lawful) {ref : ℕ} (hawaiting : drain.stage = .awaiting ref)
    (outcome : Except Thrown Value) : (drain.settle ref outcome).Lawful := by
  have hall := h.going (.inr ⟨ref, hawaiting⟩)
  cases outcome with
  | ok value =>
      constructor
      · simp [DrainCall.settle, h.ran, wentWell, Except.isOk, Except.toBool]
      · intro _ run hrun
        rcases List.mem_append.1 hrun with hrun | hrun
        · exact hall run hrun
        · rw [List.mem_singleton.1 hrun]
          rfl
      · intro ran hran
        cases hran
      · intro error herror
        cases herror
  | error thrown =>
      constructor
      · simp [DrainCall.settle, h.ran, wentWell, Except.isOk, Except.toBool]
      · rintro (hstage | ⟨r, hstage⟩)
        · cases hstage
        · cases hstage
      · intro ran hran
        cases hran
      · intro error herror
        obtain rfl := DrainStage.rejected.inj herror
        exact .inl ⟨drain.runs, ref, thrown, rfl, hall, rfl⟩

end DrainCall.Lawful

namespace DrainsInv

theorem start : DrainsInv (Drains.start : Drains ι) where
  reached := .refl _
  direct := List.nodup_nil
  running ref := by simp [Drains.start, Drains.driver, MemoryRun.start, memoryDriver,
    DrainCall.called]
  apart i ref h := by cases h
  alone i j ref h := by cases h
  lawful _ := .called
  began := rfl
  mine _ := rfl

theorem lineInv (h : DrainsInv s) : LineInv s.driver := by
  obtain ⟨calls, hcalls⟩ := h.reached
  exact (memoryRun_inv hcalls).1

/-- A job that a `runNext` would run is in nobody's hands. -/
theorem idle (h : DrainsInv s) {ref : ℕ} {m : MemoryDriver}
    (hrun : s.driver.runNext = .ok (ref, m)) :
    ref ∉ s.driver.running := by
  obtain ⟨hfirst, -, -⟩ := MemoryDriver.runNext_eq_ok_iff.1 hrun
  have hwaiting := (h.lineInv.recorded_of_pending (MemoryDriver.runnable_eq_some hfirst).1).2
  intro hmem
  have hactive := ((h.lineInv.flight ref).1 hmem).2
  rw [hwaiting] at hactive
  cases hactive

/-- The end of a run takes it out of the hand that held it. -/
theorem mem_erase_running (h : DrainsInv s) {ref r : ℕ} :
    r ∈ s.driver.running.erase ref ↔ r ≠ ref ∧ r ∈ s.driver.running :=
  h.lineInv.running.mem_erase_iff

/-- A drain that settles without a run begun or ended. -/
theorem stop (h : DrainsInv s) {i : ι} {drain : DrainCall}
    (hturning : (s.drains i).stage = .turning)
    (hstage : ∀ ref, drain.stage ≠ .awaiting ref) (hruns : drain.runs = (s.drains i).runs)
    (hlawful : drain.Lawful) : DrainsInv (s.set i drain) := by
  have hawaits : ∀ j ref, ((s.set i drain).drains j).stage = .awaiting ref ↔
      (s.drains j).stage = .awaiting ref := by
    intro j ref
    rw [stage_set]
    constructor
    · rintro (⟨-, hbad⟩ | ⟨-, hj⟩)
      · exact absurd hbad (hstage ref)
      · exact hj
    · intro hj
      refine .inr ⟨?_, hj⟩
      rintro rfl
      rw [hturning] at hj
      cases hj
  constructor
  · exact h.reached
  · exact h.direct
  · intro ref
    simp only [hawaits]
    exact h.running ref
  · intro j ref hj
    exact h.apart j ref ((hawaits j ref).1 hj)
  · intro j k ref hj hk
    exact h.alone j k ref ((hawaits j ref).1 hj) ((hawaits k ref).1 hk)
  · intro j
    by_cases hji : j = i
    · rw [hji, drains_set_self]
      exact hlawful
    · rw [drains_set_of_ne hji]
      exact h.lawful j
  · exact h.began
  · intro j
    by_cases hji : j = i
    · have hnone : drain.awaited = [] := DrainCall.awaited_eq_nil hstage
      have hbefore : (s.drains i).awaited = [] := DrainCall.awaited_eq_nil (by simp [hturning])
      have hmine := h.mine i
      rw [hbefore] at hmine
      rw [hji, drains_set_self, hruns, hnone]
      exact hmine
    · rw [drains_set_of_ne hji]
      exact h.mine j

theorem call (h : DrainsInv s) {call : MemoryCall} (hstep : drainsRun s (.call call) = some t) :
    DrainsInv t := by
  obtain ⟨line, hline, hcases⟩ := call_cases hstep
  have hreached := h.reached.step hline
  rcases hcases with ⟨ref, hrun, hdriver, hbegun, rfl⟩ | ⟨ref, href, hrunning, hbegun, rfl⟩ |
    ⟨hrunning, hbegun, rfl⟩
  -- a direct `runNext` begins a run
  · have hidle := h.idle hrun
    have hout : ref ∉ s.direct := fun hmem => hidle ((h.running ref).2 (.inl hmem))
    constructor
    · exact hreached
    · exact List.nodup_append_comm.1 (List.nodup_cons.2 ⟨hout, h.direct⟩)
    · intro r
      change r ∈ line.driver.running ↔ r ∈ s.direct ++ [ref] ∨ _
      rw [hdriver, MemoryDriver.mem_start_running, List.mem_append, List.mem_singleton, h.running r]
      exact or_right_comm
    · intro j r hj hmem
      rcases List.mem_append.1 hmem with hmem | hmem
      · exact h.apart j r hj hmem
      · rw [List.mem_singleton.1 hmem] at hj
        exact hidle ((h.running ref).2 (.inr ⟨j, hj⟩))
    · exact h.alone
    · exact h.lawful
    · simp [hbegun, h.began]
    · intro j
      simpa [Drains.begunBy] using h.mine j
  -- the run of a direct `runNext` ends
  · constructor
    · exact hreached
    · exact h.direct.erase ref
    · intro r
      change r ∈ line.driver.running ↔ r ∈ s.direct.erase ref ∨ _
      rw [hrunning, h.mem_erase_running, h.running r, h.direct.mem_erase_iff]
      constructor
      · rintro ⟨hne, hmem | hj⟩
        · exact .inl ⟨hne, hmem⟩
        · exact .inr hj
      · rintro (⟨hne, hmem⟩ | ⟨j, hj⟩)
        · exact ⟨hne, .inl hmem⟩
        · refine ⟨?_, .inr ⟨j, hj⟩⟩
          rintro rfl
          exact h.apart j r hj href
    · intro j r hj hmem
      exact h.apart j r hj (List.mem_of_mem_erase hmem)
    · exact h.alone
    · exact h.lawful
    · exact hbegun.trans h.began
    · exact h.mine
  · constructor
    · exact hreached
    · exact h.direct
    · intro r
      change r ∈ line.driver.running ↔ _
      rw [hrunning]
      exact h.running r
    · exact h.apart
    · exact h.alone
    · exact h.lawful
    · exact hbegun.trans h.began
    · exact h.mine

theorem turn (h : DrainsInv s) {i : ι} (hstep : drainsRun s (.turn i) = some t) : DrainsInv t := by
  obtain ⟨hturning, hcases⟩ := turn_cases hstep
  rcases hcases with ⟨-, rfl⟩ | ⟨ref, error, hfirst, hconsumer, hrun, rfl⟩ |
    ⟨ref, line, hrun, hline, hdriver, hbegun, rfl⟩
  · exact h.stop hturning (by simp) rfl ((h.lawful i).resolve hturning)
  · exact h.stop hturning (by simp) rfl ((h.lawful i).reject hturning hfirst hconsumer hrun)
  · have hidle := h.idle hrun
    have hfree : ∀ j, (s.drains j).stage ≠ .awaiting ref :=
      fun j hj => hidle ((h.running ref).2 (.inr ⟨j, hj⟩))
    have hout : ref ∉ s.direct := fun hmem => hidle ((h.running ref).2 (.inl hmem))
    constructor
    · exact h.reached.step hline
    · exact h.direct
    · intro r
      change r ∈ line.driver.running ↔ r ∈ s.direct ∨
        ∃ j, ((s.set i { s.drains i with stage := .awaiting ref }).drains j).stage = .awaiting r
      rw [hdriver, MemoryDriver.mem_start_running, h.running r, or_assoc]
      refine or_congr_right ?_
      simp only [stage_set]
      constructor
      · rintro (⟨j, hj⟩ | rfl)
        · refine ⟨j, .inr ⟨?_, hj⟩⟩
          rintro rfl
          rw [hturning] at hj
          cases hj
        · exact ⟨i, .inl ⟨rfl, rfl⟩⟩
      · rintro ⟨j, ⟨-, hj⟩ | ⟨-, hj⟩⟩
        · exact .inr (DrainStage.awaiting.inj hj).symm
        · exact .inl ⟨j, hj⟩
    · intro j r hj
      rcases stage_set.1 hj with ⟨-, hj⟩ | ⟨-, hj⟩
      · rw [← DrainStage.awaiting.inj hj]
        exact hout
      · exact h.apart j r hj
    · intro j k r hj hk
      rcases stage_set.1 hj with ⟨hji, hj'⟩ | ⟨-, hj'⟩ <;>
        rcases stage_set.1 hk with ⟨hki, hk'⟩ | ⟨-, hk'⟩
      · rw [hji, hki]
      · rw [← DrainStage.awaiting.inj hj'] at hk'
        exact absurd hk' (hfree k)
      · rw [← DrainStage.awaiting.inj hk'] at hj'
        exact absurd hj' (hfree j)
      · exact h.alone j k r hj' hk'
    · intro j
      by_cases hji : j = i
      · rw [hji]
        change ((s.set i _).drains i).Lawful
        rw [drains_set_self]
        exact (h.lawful i).await hturning ref
      · change ((s.set i _).drains j).Lawful
        rw [drains_set_of_ne hji]
        exact h.lawful j
    · simp [hbegun, h.began]
    · intro j
      have hmine := h.mine j
      by_cases hji : j = i
      · subst hji
        have hnone : (s.drains j).awaited = [] := DrainCall.awaited_eq_nil (by simp [hturning])
        change Drains.begunBy _ _ = ((s.set j _).drains j).runs.map Prod.fst ++
          ((s.set j _).drains j).awaited
        rw [hnone, List.append_nil] at hmine
        rw [drains_set_self]
        simpa [Drains.begunBy, DrainCall.awaited] using hmine
      · change Drains.begunBy _ _ = ((s.set i _).drains j).runs.map Prod.fst ++
          ((s.set i _).drains j).awaited
        rw [drains_set_of_ne hji]
        simpa [Drains.begunBy, Ne.symm hji] using hmine

theorem settles (h : DrainsInv s) {i : ι} {outcome : Except Thrown Value}
    (hstep : drainsRun s (.settles i outcome) = some t) : DrainsInv t := by
  obtain ⟨ref, line, hawaiting, hline, -, hrunning, hbegun, rfl⟩ := settles_cases hstep
  have hstage : ∀ r, ((s.drains i).settle ref outcome).stage ≠ .awaiting r := by
    intro r
    cases outcome with
    | ok value | error error =>
        intro hbad
        cases hbad
  have hawaits : ∀ j r, ((s.set i ((s.drains i).settle ref outcome)).drains j).stage =
      .awaiting r ↔ j ≠ i ∧ (s.drains j).stage = .awaiting r := by
    intro j r
    rw [stage_set]
    constructor
    · rintro (⟨-, hbad⟩ | hj)
      · exact absurd hbad (hstage r)
      · exact hj
    · exact .inr
  constructor
  · exact h.reached.step hline
  · exact h.direct
  · intro r
    change r ∈ line.driver.running ↔ r ∈ s.direct ∨
      ∃ j, ((s.set i ((s.drains i).settle ref outcome)).drains j).stage = .awaiting r
    rw [hrunning, h.mem_erase_running, h.running r]
    simp only [hawaits]
    constructor
    · rintro ⟨hne, hmem | ⟨j, hj⟩⟩
      · exact .inl hmem
      · refine .inr ⟨j, ?_, hj⟩
        rintro rfl
        exact hne (DrainStage.awaiting.inj (hj.symm.trans hawaiting))
    · rintro (hmem | ⟨j, hji, hj⟩)
      · refine ⟨?_, .inl hmem⟩
        rintro rfl
        exact h.apart i r hawaiting hmem
      · refine ⟨?_, .inr ⟨j, hj⟩⟩
        rintro rfl
        exact hji (h.alone j i r hj hawaiting)
  · intro j r hj
    exact h.apart j r ((hawaits j r).1 hj).2
  · intro j k r hj hk
    exact h.alone j k r ((hawaits j r).1 hj).2 ((hawaits k r).1 hk).2
  · intro j
    by_cases hji : j = i
    · rw [hji]
      change ((s.set i _).drains i).Lawful
      rw [drains_set_self]
      exact (h.lawful i).settle hawaiting outcome
    · change ((s.set i _).drains j).Lawful
      rw [drains_set_of_ne hji]
      exact h.lawful j
  · exact hbegun.trans h.began
  · intro j
    have hmine := h.mine j
    by_cases hji : j = i
    · subst hji
      have hone : (s.drains j).awaited = [ref] := by simp [DrainCall.awaited, hawaiting]
      have hnone := DrainCall.awaited_eq_nil hstage
      have hruns : ((s.drains j).settle ref outcome).runs = (s.drains j).runs ++
          [(ref, outcome)] := by
        cases outcome <;> rfl
      change s.begunBy _ = ((s.set j _).drains j).runs.map Prod.fst ++
        ((s.set j _).drains j).awaited
      rw [drains_set_self, hnone, hruns, hmine, hone]
      simp
    · change s.begunBy _ = ((s.set i _).drains j).runs.map Prod.fst ++
        ((s.set i _).drains j).awaited
      rw [drains_set_of_ne hji]
      exact hmine

/-- **A step keeps the drains in order.** -/
theorem step (h : DrainsInv s) {act : DrainAct ι} (hstep : drainsRun s act = some t) :
    DrainsInv t := by
  cases act with
  | call call => exact h.call hstep
  | turn i => exact h.turn hstep
  | settles i outcome => exact h.settles hstep

end DrainsInv

/-- What can be told of the drains of a driver in every state. -/
structure DrainsContract (s : Drains ι) : Prop where
  /-- Each drain counts the runs that completed, and stops on the first that does not. -/
  lawful : ∀ i, (s.drains i).Lawful
  /-- A run that goes on is awaited by a direct call or by a drain, -/
  hands : ∀ ref, ref ∈ s.driver.running ↔
    ref ∈ s.direct ∨ ∃ i, (s.drains i).stage = .awaiting ref
  /-- never by both, -/
  apart : ∀ i ref, (s.drains i).stage = .awaiting ref → ref ∉ s.direct
  /-- and never by two drains. -/
  alone : ∀ i j ref, (s.drains i).stage = .awaiting ref → (s.drains j).stage = .awaiting ref → i = j
  /-- Every run on the driver was begun by one party, in the order they were begun, -/
  began : begunIn s.line.log = s.began.map Prod.snd
  /-- and those a drain began are the ones it awaited. -/
  mine : ∀ i, s.begunBy (some i) = (s.drains i).runs.map Prod.fst ++ (s.drains i).awaited

theorem drainsRun_inv {acts : List (DrainAct ι)} (h : drainsRun.exec .start acts = some s) :
    DrainsInv s :=
  Machine.exec_invariant (P := DrainsInv) (fun _ _ _ hs hstep => hs.step hstep) h .start

/-- **Drains share the runs of a driver between them**, whatever else happens on it, in whatever
order. -/
theorem drains_contract {acts : List (DrainAct ι)} (h : drainsRun.exec .start acts = some s) :
    DrainsContract s := by
  have hinv := drainsRun_inv h
  exact ⟨hinv.lawful, hinv.running, hinv.apart, hinv.alone, hinv.began, hinv.mine⟩

/-- **When a drain resolves**, it gives the number of the runs it began, and every job on a queue
that is not paused is finished, or in the hands of somebody else. -/
theorem drain_idle {acts : List (DrainAct ι)} {i : ι} {ran : ℕ}
    (h : drainsRun.exec .start acts = some s) (hturn : drainsRun s (.turn i) = some t)
    (hresolved : (t.drains i).stage = .resolved ran) :
    ran = (t.begunBy (some i)).length ∧ ∀ ref ∈ t.driver.recorded,
      t.driver.paused (t.driver.jobs ref).queue = false →
        (t.driver.jobs ref).state.isFinished = true ∨
        (t.driver.jobs ref).state = .active ∧
          (ref ∈ t.direct ∨ ∃ j, j ≠ i ∧ (t.drains j).stage = .awaiting ref) := by
  have hinv := (drainsRun_inv h).step hturn
  have hnone : t.driver.runnable = none := by
    obtain ⟨-, hcases⟩ := turn_cases hturn
    rcases hcases with ⟨hnone, rfl⟩ | ⟨ref, error, -, -, -, rfl⟩ | ⟨ref, line, -, -, -, -, rfl⟩
    · exact hnone
    · rw [drains_set_self] at hresolved
      cases hresolved
    · change ((s.set i _).drains i).stage = _ at hresolved
      rw [drains_set_self] at hresolved
      cases hresolved
  refine ⟨?_, ?_⟩
  · have hawaited : (t.drains i).awaited = [] := DrainCall.awaited_eq_nil (by simp [hresolved])
    rw [hinv.mine i, hawaited, List.append_nil, List.length_map]
    exact ((hinv.lawful i).resolved ran hresolved).1
  · intro ref href hopen
    rcases hinv.lineInv.states ref href with hwaiting | hactive | hfinished
    -- it would be in line, and the drain would have begun it
    · have hpending := (hinv.lineInv.line ref).2 ⟨href, hwaiting⟩
      have hout := List.find?_eq_none.1 hnone ref hpending
      simp [hopen] at hout
    · refine .inr ⟨hactive, ?_⟩
      rcases (hinv.running ref).1 ((hinv.lineInv.flight ref).2 ⟨href, hactive⟩) with hmem | ⟨j, hj⟩
      · exact .inl hmem
      · refine .inr ⟨j, ?_, hj⟩
        rintro rfl
        rw [hresolved] at hj
        cases hj
    · exact .inl hfinished

/-! ### A drain alone -/

/-- The jobs in line on queues that are not paused. -/
def MemoryDriver.unpaused (m : MemoryDriver) : List ℕ :=
  m.pending.filter fun ref => !m.paused (m.jobs ref).queue

/-- Whether the queue of a job has a consumer, so that `runNext` can run it. -/
def MemoryDriver.served (m : MemoryDriver) (ref : ℕ) : Bool := m.consumers (m.jobs ref).queue

/-- What `runNext` throws when the queue of the first job in line has no consumer. -/
def noConsumer (queue : String) : Thrown :=
  plainError ("jubs: memoryDriver has no consumer on queue \"" ++ queue ++
    "\" — call jobs.start(handlers) before running jobs") none

/-- A drain that nothing else happens beside: its turns, and the ends of its runs, up to the first
that fails or the first job that nobody consumes. -/
def soloActs (i : ι) (served : ℕ → Bool) (outcomeOf : ℕ → Except Thrown Value) :
    List ℕ → List (DrainAct ι)
  | [] => [.turn i]
  | ref :: later => .turn i ::
      if served ref then
        .settles i (outcomeOf ref) ::
          if (outcomeOf ref).isOk then soloActs i served outcomeOf later else []
      else []

/-- A job whose run completed. -/
def MemoryJob.ranWell (job : MemoryJob) : MemoryJob :=
  { job with
    state := .completed
    attempts := job.attempts + 1
    attemptsStarted := job.attemptsStarted + 1 }

/-- What is left once some of the jobs in line ran and completed. -/
structure LineRan (m m' : MemoryDriver) (well : List ℕ) : Prop where
  jobs : ∀ ref, m'.jobs ref = if ref ∈ well then (m.jobs ref).ranWell else m.jobs ref
  pending : m'.pending = m.pending.filter fun ref => ref ∉ well
  recorded : m'.recorded = m.recorded
  running : ∀ ref, ref ∈ m'.running ↔ ref ∈ m.running
  paused : m'.paused = m.paused
  consumers : m'.consumers = m.consumers

namespace LineRan

variable {m m' m'' : MemoryDriver}

theorem refl (m : MemoryDriver) : LineRan m m [] := by
  constructor
  · intro ref
    simp
  · simp
  · rfl
  · exact fun _ => Iff.rfl
  · rfl
  · rfl

/-- Runs that completed one after the other. -/
theorem trans {well well' : List ℕ} (h : LineRan m m' well) (h' : LineRan m' m'' well')
    (hapart : ∀ ref ∈ well', ref ∉ well) : LineRan m m'' (well ++ well') := by
  constructor
  · intro ref
    rw [h'.jobs, h.jobs]
    by_cases hlate : ref ∈ well'
    · simp [hlate, hapart ref hlate]
    · simp [hlate]
  · rw [h'.pending, h.pending, List.filter_filter]
    refine List.filter_congr ?_
    intro ref _
    simp [Bool.and_comm]
  · exact h'.recorded.trans h.recorded
  · exact fun ref => (h'.running ref).trans (h.running ref)
  · exact h'.paused.trans h.paused
  · exact h'.consumers.trans h.consumers

/-- The line that is left once some of it ran. -/
theorem unpaused_eq {well : List ℕ} (h : LineRan m m' well) :
    m'.unpaused = m.unpaused.filter fun ref => ref ∉ well := by
  unfold MemoryDriver.unpaused
  rw [h.pending, h.paused, List.filter_filter, List.filter_filter]
  refine List.filter_congr ?_
  intro ref _
  have hqueue : (m'.jobs ref).queue = (m.jobs ref).queue := by
    rw [h.jobs]
    split_ifs <;> rfl
  rw [hqueue, Bool.and_comm]

end LineRan

namespace LineInv

variable {m : MemoryDriver}

/-- The first job in line on a queue that is not paused is the one that is runnable. -/
theorem runnable_of_unpaused {ref : ℕ} {later : List ℕ} (hline : m.unpaused = ref :: later) :
    m.runnable = some ref := by
  have hhead : m.unpaused.head? = m.runnable := List.head?_filter
  rw [← hhead, hline]
  rfl

/-- **One run of the line that completes.** -/
theorem passed (h : LineInv m) {ref : ℕ} (hfirst : m.runnable = some ref) (value : Value) :
    LineRan m ((m.start ref).settle ref (.ok value)) [ref] := by
  have hpending := (MemoryDriver.runnable_eq_some hfirst).1
  have hwaiting := (h.recorded_of_pending hpending).2
  have hidle : ref ∉ m.running := by
    intro hmem
    have hactive := ((h.flight ref).1 hmem).2
    rw [hwaiting] at hactive
    cases hactive
  have hrunning := (h.start_job hpending).running
  constructor
  · intro r
    by_cases hr : r = ref
    · simp [MemoryDriver.settle, MemoryDriver.finish, MemoryDriver.start, MemoryDriver.modify, hr,
        MemoryJob.ranWell]
    · simp [MemoryDriver.settle, MemoryDriver.finish, MemoryDriver.start, MemoryDriver.modify, hr]
  · change spliceOut m.pending ref = _
    rw [spliceOut_of_mem hpending, h.pending.erase_eq_filter]
    exact List.filter_congr fun r _ => by simp [bne, beq_eq_decide]
  · rfl
  · intro r
    rw [MemoryDriver.settle_running, hrunning.mem_erase_iff, MemoryDriver.mem_start_running]
    constructor
    · rintro ⟨hne, hmem | heq⟩
      · exact hmem
      · exact absurd heq hne
    · intro hmem
      exact ⟨fun heq => hidle (heq ▸ hmem), .inl hmem⟩
  · rfl
  · rfl

end LineInv

/-! #### What a drain alone does -/

/-- A job whose run a drain gets behind it: its queue has a consumer, and the run completes. -/
def Drains.GoesWell (s : Drains ι) (outcomeOf : ℕ → Except Thrown Value) (ref : ℕ) : Prop :=
  s.driver.served ref = true ∧ (outcomeOf ref).isOk = true

/-- What a drain that was alone on a driver did: it ran the line in order.  All runs completed, or
one failed, or nobody consumes the queue of a job; and there the drain stopped. -/
structure Drained (s t : Drains ι) (i : ι) (outcomeOf : ℕ → Except Thrown Value) : Prop where
  /-- Every run completed, and the drain gives their number. -/
  resolved : (∀ ref ∈ s.driver.unpaused, s.GoesWell outcomeOf ref) →
    (t.drains i).stage = .resolved ((s.drains i).ran + s.driver.unpaused.length) ∧
    LineRan s.driver t.driver s.driver.unpaused ∧
    begunIn t.line.log = begunIn s.line.log ++ s.driver.unpaused
  /-- The first run that failed is the last that was begun. -/
  rejected : ∀ well ref later thrown, s.driver.unpaused = well ++ ref :: later →
    (∀ r ∈ well, s.GoesWell outcomeOf r) → s.driver.served ref = true →
    outcomeOf ref = .error thrown →
    (t.drains i).stage = .rejected (rejectionOf thrown) ∧
    (∃ m, LineRan s.driver m well ∧ t.driver = (m.start ref).settle ref (.error thrown)) ∧
    begunIn t.line.log = begunIn s.line.log ++ (well ++ [ref])
  /-- A job that nobody consumes is not begun, nor is any behind it. -/
  unserved : ∀ well ref later, s.driver.unpaused = well ++ ref :: later →
    (∀ r ∈ well, s.GoesWell outcomeOf r) → s.driver.served ref = false →
    (t.drains i).stage = .rejected (noConsumer (s.driver.jobs ref).queue) ∧
    LineRan s.driver t.driver well ∧ begunIn t.line.log = begunIn s.line.log ++ well

/-- A drain at the top of its loop takes its turn. -/
theorem exists_turn {i : ι} (hturning : (s.drains i).stage = .turning) :
    ∃ t, drainsRun s (.turn i) = some t := by
  simp [drainsRun, hturning, memoryRun, MemoryDriver.act]

/-- A drain whose run ends is told so. -/
theorem exists_settles (h : DrainsInv s) {i : ι} {ref : ℕ}
    (hawaiting : (s.drains i).stage = .awaiting ref) (outcome : Except Thrown Value) :
    ∃ t, drainsRun s (.settles i outcome) = some t := by
  have hrunning : ref ∈ s.line.driver.running := (h.running ref).2 (.inr ⟨i, hawaiting⟩)
  simp [drainsRun, hawaiting, memoryRun, MemoryDriver.act, hrunning]

/-- **One turn of a drain that is alone**, and the end of the run it begins. -/
theorem solo_turn (h : DrainsInv s) {i : ι} (hturning : (s.drains i).stage = .turning) {ref : ℕ}
    {later : List ℕ} (hline : s.driver.unpaused = ref :: later)
    (hconsumer : s.driver.consumers (s.driver.jobs ref).queue = true)
    (outcome : Except Thrown Value) :
    ∃ u t, drainsRun s (.turn i) = some u ∧ drainsRun u (.settles i outcome) = some t ∧
      DrainsInv t ∧ t.driver = (s.driver.start ref).settle ref outcome ∧
      t.drains i = (s.drains i).settle ref outcome ∧
      begunIn t.line.log = begunIn s.line.log ++ [ref] := by
  have hfirst := LineInv.runnable_of_unpaused hline
  obtain ⟨u, hu⟩ := exists_turn hturning
  have hinv := h.turn hu
  obtain ⟨-, hcases⟩ := turn_cases hu
  rcases hcases with ⟨hnone, -⟩ | ⟨r, error, hr, hno, -, -⟩ | ⟨r, line, hrun, -, hdriver,
    hbegun, heq⟩
  · rw [hfirst] at hnone
    cases hnone
  · obtain rfl := Option.some.inj (hfirst.symm.trans hr)
    rw [hconsumer] at hno
    cases hno
  · obtain rfl := Option.some.inj (hfirst.symm.trans (MemoryDriver.runNext_eq_ok_iff.1 hrun).1)
    have hdrain : u.drains i = { s.drains i with stage := .awaiting ref } := by
      rw [heq]
      exact drains_set_self i _
    have hawaiting : (u.drains i).stage = .awaiting ref := by rw [hdrain]
    have hu' : u.driver = s.driver.start ref := by rw [heq]; exact hdriver
    have hlog : begunIn u.line.log = begunIn s.line.log ++ [ref] := by rw [heq]; exact hbegun
    obtain ⟨t, ht⟩ := exists_settles hinv hawaiting outcome
    obtain ⟨r, line, hr, -, hsettled, -, hlog', rfl⟩ := settles_cases ht
    obtain rfl := DrainStage.awaiting.inj (hawaiting.symm.trans hr)
    refine ⟨u, _, hu, ht, hinv.settles ht, ?_, ?_, hlog'.trans hlog⟩
    · rw [← hu']
      exact hsettled
    · refine (drains_set_self i _).trans ?_
      rw [hdrain]
      cases outcome <;> rfl

/-- A drain that finds nothing to run resolves at once. -/
theorem drained_none {i : ι} (hline : s.driver.unpaused = []) (ht : drainsRun s (.turn i) = some t)
    {outcomeOf : ℕ → Except Thrown Value} : Drained s t i outcomeOf := by
  have hnone : s.driver.runnable = none := by
    have hhead : s.driver.unpaused.head? = s.driver.runnable := List.head?_filter
    rw [← hhead, hline]
    rfl
  obtain ⟨-, hcases⟩ := turn_cases ht
  rcases hcases with ⟨-, rfl⟩ | ⟨ref, error, hfirst, -, -, -⟩ | ⟨ref, line, hrun, -, -, -, -⟩
  · constructor
    · intro _
      rw [drains_set_self, hline, List.append_nil]
      exact ⟨rfl, .refl _, rfl⟩
    · intro well ref later thrown hsplit
      rw [hline] at hsplit
      cases well <;> cases hsplit
    · intro well ref later hsplit
      rw [hline] at hsplit
      cases well <;> cases hsplit
  · rw [hnone] at hfirst
    cases hfirst
  · have hfirst := (MemoryDriver.runNext_eq_ok_iff.1 hrun).1
    rw [hnone] at hfirst
    cases hfirst

omit [DecidableEq ι] in
/-- A line whose first job does not go well goes well up to nowhere else. -/
theorem head_of_ill {outcomeOf : ℕ → Except Thrown Value} {ref r : ℕ} {later well rest : List ℕ}
    (hline : s.driver.unpaused = ref :: later) (hill : ¬ s.GoesWell outcomeOf ref)
    (hsplit : s.driver.unpaused = well ++ r :: rest)
    (hwell : ∀ r' ∈ well, s.GoesWell outcomeOf r') :
    well = [] ∧ r = ref := by
  rw [hline] at hsplit
  cases well with
  | nil => exact ⟨rfl, (List.cons.inj hsplit).1.symm⟩
  | cons first well =>
      obtain ⟨rfl, -⟩ := List.cons.inj hsplit
      exact absurd (hwell ref List.mem_cons_self) hill

omit [DecidableEq ι] in
/-- A line whose first job goes well stops behind it, if it stops. -/
theorem behind_of_well {outcomeOf : ℕ → Except Thrown Value} {ref r : ℕ} {later well rest : List ℕ}
    (hline : s.driver.unpaused = ref :: later) (hwell : s.GoesWell outcomeOf ref)
    (hsplit : s.driver.unpaused = well ++ r :: rest) (hill : ¬ s.GoesWell outcomeOf r) :
    ∃ behind, well = ref :: behind ∧ later = behind ++ r :: rest := by
  rw [hline] at hsplit
  cases well with
  | nil =>
      obtain ⟨rfl, -⟩ := List.cons.inj hsplit
      exact absurd hwell hill
  | cons first behind =>
      obtain ⟨rfl, rfl⟩ := List.cons.inj hsplit
      exact ⟨behind, rfl, rfl⟩

omit [DecidableEq ι] in
/-- A run that fails does not go well. -/
theorem not_goesWell {outcomeOf : ℕ → Except Thrown Value} {r : ℕ} {thrown : Thrown}
    (hfails : outcomeOf r = .error thrown) : ¬ s.GoesWell outcomeOf r := by
  rintro ⟨-, hok⟩
  rw [hfails] at hok
  cases hok

omit [DecidableEq ι] in
/-- Nor does a job on a queue without a consumer. -/
theorem not_goesWell_of_unserved {outcomeOf : ℕ → Except Thrown Value} {r : ℕ}
    (hunserved : s.driver.served r = false) : ¬ s.GoesWell outcomeOf r := by
  rintro ⟨hserved, -⟩
  rw [hunserved] at hserved
  cases hserved

/-- **The first job in line is on a queue without a consumer**: the drain rejects, and begins
nothing. -/
theorem drained_unserved {i : ι} {ref : ℕ} {later : List ℕ}
    (hline : s.driver.unpaused = ref :: later)
    (hunserved : s.driver.served ref = false) (ht : drainsRun s (.turn i) = some t)
    {outcomeOf : ℕ → Except Thrown Value} : Drained s t i outcomeOf := by
  have hfirst := LineInv.runnable_of_unpaused hline
  have hthrows : s.driver.runNext = .error (noConsumer (s.driver.jobs ref).queue) := by
    have hno : s.driver.consumers (s.driver.jobs ref).queue = false := hunserved
    simp [MemoryDriver.runNext, hfirst, hno, noConsumer]
  have hstops : t.driver = s.driver ∧ t.line.log = s.line.log ∧
      (t.drains i).stage = .rejected (noConsumer (s.driver.jobs ref).queue) := by
    obtain ⟨-, hcases⟩ := turn_cases ht
    rcases hcases with ⟨hnone, -⟩ | ⟨r, error, -, -, herror, rfl⟩ | ⟨r, line, hrun, -, -, -, -⟩
    · rw [hfirst] at hnone
      cases hnone
    · obtain rfl := Except.error.inj (hthrows.symm.trans herror)
      exact ⟨rfl, rfl, by rw [drains_set_self]⟩
    · rw [hthrows] at hrun
      cases hrun
  obtain ⟨hdriver, hlog, hstage⟩ := hstops
  have hill : ¬ s.GoesWell outcomeOf ref := not_goesWell_of_unserved hunserved
  constructor
  · intro hall
    exact absurd (hall ref (by simp [hline])) hill
  · intro well r rest thrown hsplit hwell hserved
    obtain ⟨-, rfl⟩ := head_of_ill hline hill hsplit hwell
    rw [hunserved] at hserved
    cases hserved
  · intro well r rest hsplit hwell _
    obtain ⟨rfl, rfl⟩ := head_of_ill hline hill hsplit hwell
    rw [hlog, hdriver, List.append_nil]
    exact ⟨hstage, .refl _, rfl⟩

omit [DecidableEq ι] in
/-- **The run of the first job in line fails**: the drain rejects with what that run is rejected
with. -/
theorem drained_failed {i : ι} {ref : ℕ} {later : List ℕ} {thrown : Thrown}
    (hline : s.driver.unpaused = ref :: later)
    (hdriver : t.driver = (s.driver.start ref).settle ref (.error thrown))
    (hdrain : t.drains i = (s.drains i).settle ref (.error thrown))
    (hlog : begunIn t.line.log = begunIn s.line.log ++ [ref])
    (hserved : s.driver.served ref = true) {outcomeOf : ℕ → Except Thrown Value}
    (houtcome : outcomeOf ref = .error thrown) : Drained s t i outcomeOf := by
  have hill : ¬ s.GoesWell outcomeOf ref := not_goesWell houtcome
  constructor
  · intro hall
    exact absurd (hall ref (by simp [hline])) hill
  · intro well r rest thrown' hsplit hwell _ hr
    obtain ⟨rfl, rfl⟩ := head_of_ill hline hill hsplit hwell
    obtain rfl := Except.error.inj (houtcome.symm.trans hr)
    exact ⟨by rw [hdrain]; rfl, ⟨s.driver, .refl _, hdriver⟩, hlog⟩
  · intro well r rest hsplit hwell hunserved
    obtain ⟨-, rfl⟩ := head_of_ill hline hill hsplit hwell
    rw [hserved] at hunserved
    cases hunserved

omit [DecidableEq ι] in
/-- **The run of the first job in line completes**: the rest of the line is run as by a drain that
found only that. -/
theorem Drained.cons {v : Drains ι} {i : ι} {ref : ℕ} {later : List ℕ}
    {outcomeOf : ℕ → Except Thrown Value} (h : Drained v t i outcomeOf)
    (hline : s.driver.unpaused = ref :: later) (hpassed : LineRan s.driver v.driver [ref])
    (hlater : v.driver.unpaused = later) (hfresh : ∀ r ∈ later, r ≠ ref)
    (hran : (v.drains i).ran = (s.drains i).ran + 1)
    (hlog : begunIn v.line.log = begunIn s.line.log ++ [ref]) (hwell : s.GoesWell outcomeOf ref) :
    Drained s t i outcomeOf := by
  have happart : ∀ r ∈ later, r ∉ [ref] := fun r hr => by simpa using hfresh r hr
  have hjobs : ∀ r ∈ later, v.driver.jobs r = s.driver.jobs r := by
    intro r hr
    rw [hpassed.jobs, if_neg (happart r hr)]
  have hserved : ∀ r ∈ later, v.driver.served r = s.driver.served r := by
    intro r hr
    rw [MemoryDriver.served, hjobs r hr, hpassed.consumers]
    rfl
  have hgoes : ∀ r ∈ later, s.GoesWell outcomeOf r → v.GoesWell outcomeOf r := fun r hr hgo =>
    ⟨(hserved r hr).trans hgo.1, hgo.2⟩
  constructor
  · intro hall
    obtain ⟨hstage, hpass, hbegun⟩ := h.resolved (by
      rw [hlater]
      exact fun r hr => hgoes r hr (hall r (by simp [hline, hr])))
    rw [hlater] at hstage hpass hbegun
    rw [hline]
    refine ⟨?_, hpassed.trans hpass happart, ?_⟩
    · rw [hstage, hran, List.length_cons, Nat.add_assoc, Nat.add_comm 1]
    · rw [hbegun, hlog, List.append_assoc]
      rfl
  · intro well r rest thrown hsplit hall hr hfails
    obtain ⟨behind, rfl, rfl⟩ := behind_of_well hline hwell hsplit (not_goesWell hfails)
    have hmem : r ∈ behind ++ r :: rest := by simp
    obtain ⟨hstage, ⟨m, hpass, hend⟩, hbegun⟩ := h.rejected behind r rest thrown hlater
      (fun r' hr' => hgoes r' (List.mem_append_left _ hr')
        (hall r' (List.mem_cons_of_mem _ hr'))) ((hserved r hmem).trans hr) hfails
    refine ⟨hstage, ⟨m, hpassed.trans hpass ?_, hend⟩, ?_⟩
    · exact fun r' hr' => happart r' (List.mem_append_left _ hr')
    · rw [hbegun, hlog, List.append_assoc]
      rfl
  · intro well r rest hsplit hall hr
    obtain ⟨behind, rfl, rfl⟩ :=
      behind_of_well hline hwell hsplit (not_goesWell_of_unserved hr)
    have hmem : r ∈ behind ++ r :: rest := by simp
    obtain ⟨hstage, hpass, hbegun⟩ := h.unserved behind r rest hlater
      (fun r' hr' => hgoes r' (List.mem_append_left _ hr')
        (hall r' (List.mem_cons_of_mem _ hr'))) ((hserved r hmem).trans hr)
    refine ⟨by rw [hstage, hjobs r hmem], hpassed.trans hpass ?_, ?_⟩
    · exact fun r' hr' => happart r' (List.mem_append_left _ hr')
    · rw [hbegun, hlog, List.append_assoc]
      rfl

/-- A drain that is alone, from any state it stands at the top of its loop in. -/
theorem solo_run {i : ι} {served : ℕ → Bool} {outcomeOf : ℕ → Except Thrown Value} {line : List ℕ}
    (h : DrainsInv s) (hturning : (s.drains i).stage = .turning) (hline : s.driver.unpaused = line)
    (hserved : ∀ ref ∈ line, s.driver.served ref = served ref) :
    ∃ t, drainsRun.exec s (soloActs i served outcomeOf line) = some t ∧
      Drained s t i outcomeOf := by
  induction line generalizing s with
  | nil =>
      obtain ⟨t, ht⟩ := exists_turn hturning
      exact ⟨t, Machine.exec_singleton.2 ht, drained_none hline ht⟩
  | cons ref later ih =>
      have hfirst := hserved ref List.mem_cons_self
      cases hconsumed : served ref with
      | false =>
          rw [hconsumed] at hfirst
          obtain ⟨t, ht⟩ := exists_turn hturning
          refine ⟨t, ?_, drained_unserved hline hfirst ht⟩
          simp only [soloActs, hconsumed]
          exact Machine.exec_singleton.2 ht
      | true =>
          rw [hconsumed] at hfirst
          obtain ⟨u, v, hu, hv, hinv, hdriver, hdrain, hlog⟩ := solo_turn h hturning hline hfirst
            (outcomeOf ref)
          cases houtcome : outcomeOf ref with
          | error thrown =>
              rw [houtcome] at hv hdriver hdrain
              refine ⟨v, ?_, drained_failed hline hdriver hdrain hlog hfirst houtcome⟩
              simp only [soloActs, hconsumed, if_true, houtcome, Except.isOk, Except.toBool]
              exact Machine.exec_cons_iff.2 ⟨u, hu, Machine.exec_singleton.2 hv⟩
          | ok value =>
              rw [houtcome] at hv hdriver hdrain
              have hpassed : LineRan s.driver v.driver [ref] := by
                rw [hdriver]
                exact h.lineInv.passed (LineInv.runnable_of_unpaused hline) value
              have hnodup : (ref :: later).Nodup := by
                rw [← hline]
                exact h.lineInv.pending.filter _
              have hfresh : ∀ r ∈ later, r ≠ ref := by
                rintro r hr rfl
                exact (List.nodup_cons.1 hnodup).1 hr
              have hrest : v.driver.unpaused = later := by
                rw [hpassed.unpaused_eq, hline]
                simp only [List.mem_singleton]
                rw [List.filter_cons_of_neg (by simp)]
                exact List.filter_eq_self.2 fun r hr => by simpa using hfresh r hr
              obtain ⟨t, ht, hdrained⟩ := ih hinv (by rw [hdrain]; rfl) hrest (by
                intro r hr
                rw [MemoryDriver.served, hpassed.jobs, if_neg (by simpa using hfresh r hr),
                  hpassed.consumers]
                exact hserved r (List.mem_cons_of_mem _ hr))
              refine ⟨t, ?_, hdrained.cons hline hpassed hrest hfresh ?_ hlog ⟨hfirst, ?_⟩⟩
              · simp only [soloActs, hconsumed, if_true, houtcome, Except.isOk, Except.toBool]
                exact Machine.exec_cons_iff.2 ⟨u, hu, Machine.exec_cons_iff.2 ⟨v, hv, ht⟩⟩
              · rw [hdrain]
                rfl
              · rw [houtcome]
                rfl

/-- **A drain alone on a driver runs the line in order**, whatever happened on it before: it ends
after one turn and one run for each job on a queue that is not paused, or on the first run that
fails, or on the first job that nobody consumes. -/
theorem drain_alone {acts : List (DrainAct ι)} {i : ι} (h : drainsRun.exec .start acts = some s)
    (hturning : (s.drains i).stage = .turning) (outcomeOf : ℕ → Except Thrown Value) :
    ∃ t, drainsRun.exec s (soloActs i s.driver.served outcomeOf s.driver.unpaused) = some t ∧
      Drained s t i outcomeOf :=
  solo_run (drainsRun_inv h) hturning rfl fun _ _ => rfl

/-! ### Drains that were taken -/

/-- Two jobs are put in line, and one drain begins a run of each while a second drain waits. -/
def twoDrains : List (DrainAct Bool) :=
  [.call (.enqueue (lineRequest none)), .call (.enqueue (lineRequest none)),
    .call (.consume "mail"),
    .turn true, .turn false, .settles true (.ok .null), .settles false (.error typeError)]

/-- The two drains share the runs. -/
theorem drains_contract_example :
    ∃ s, drainsRun.exec (.start : Drains Bool) twoDrains = some s ∧ DrainsContract s :=
  ⟨_, rfl, @drains_contract Bool _ _ twoDrains rfl⟩

/-- One drain resolves while the other still awaits the run of the second job. -/
theorem drain_idle_example :
    ∃ s t : Drains Bool, drainsRun.exec .start (twoDrains.take 6) = some s ∧
      drainsRun s (.turn true) = some t ∧ (t.drains true).stage = .resolved 1 ∧
      ∀ ref ∈ t.driver.recorded, t.driver.paused (t.driver.jobs ref).queue = false →
        (t.driver.jobs ref).state.isFinished = true ∨
        (t.driver.jobs ref).state = .active ∧
          (ref ∈ t.direct ∨ ∃ j, j ≠ true ∧ (t.drains j).stage = .awaiting ref) :=
  ⟨_, _, rfl, rfl, rfl, (@drain_idle Bool _ _ _ (twoDrains.take 6) true 1 rfl rfl rfl).2⟩

/-- The second of two jobs fails, and the drain that is alone stops there. -/
theorem drain_alone_example :
    ∃ s t : Drains Bool, drainsRun.exec .start (twoDrains.take 3) = some s ∧
      drainsRun.exec s (soloActs true s.driver.served
        (fun ref => if ref = 1 then .error typeError else .ok .null) s.driver.unpaused) = some t ∧
      (t.drains true).stage = .rejected (rejectionOf typeError) ∧
      begunIn t.line.log = [0, 1] := by
  obtain ⟨t, ht, hdrained⟩ := @drain_alone Bool _ _ (twoDrains.take 3) true rfl rfl
    fun ref => if ref = 1 then .error typeError else .ok .null
  obtain ⟨hstage, -, hbegun⟩ := hdrained.rejected [0] 1 [] typeError rfl
    (fun r hr => by
      obtain rfl := List.mem_singleton.1 hr
      exact ⟨rfl, rfl⟩) rfl rfl
  exact ⟨_, t, rfl, ht, hstage, hbegun⟩

end Jubs
