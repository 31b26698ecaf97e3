/-
**The loop of a relay.**

`startRelayLoop` runs the cycle claim, deliver, mark on every tick of an interval, and the first one
at once.  A tick that finds a cycle under way does nothing.  `close` clears the interval and waits
for the cycle under way.  Ticks, answers and closes come in any order, so the loop is a machine, and
its notices are what an observer of the outbox, the driver, the hook and the console sees of it.

Main definitions:

* `Jubs.CycleStage`, `Jubs.CycleStage.step` — where a cycle stands, and `runRelayCycle` await by
  await;
* `Jubs.RelayLoop`, `Jubs.relayLoop` — `startRelayLoop` as a machine;
* `Jubs.WholeCycle`, `Jubs.OpenCycle` — what a cycle that ended wrote, and one that is under way;
* `Jubs.LoopInv` — the notices of a loop are one cycle after the other.

Main results:

* `Jubs.relayLoop_inv` — **one cycle at a time**, in every run;
* `Jubs.loop_closed` — **what a closed loop still does**;
* `Jubs.loop_drains` — a loop is never stuck, and its rows bound the turns its cycles take.
-/

import Jubs.RelayCycle
import Jubs.Simulation

set_option autoImplicit false

namespace Jubs

/-! ### One cycle, await by await -/

/-- What is noticed of a loop: it asks the outbox for rows, it is given some, a cycle is noticed, or
a cycle that failed is written to the console. -/
inductive LoopNotice where
  | claim
  | claimed (rows : List ClaimedEnvelope)
  | cycle (notice : RelayNotice)
  | failed (error : Thrown)

/-- Where a cycle stands: it waits for the rows it asked for, for the delivery of a row, for the
hook, or for the mark; or it settled and its `finally` has not run. -/
inductive CycleStage where
  | claiming
  | delivering (row : ClaimedEnvelope) (rows : List ClaimedEnvelope) (delivered : List String)
  | telling (rows : List ClaimedEnvelope) (delivered : List String)
  | marking (delivered : List String)
  | settled (outcome : Except Thrown Unit)

/-- What a cycle waits for settles: the claim, the delivery of a row, the hook, the mark, and the
cycle itself. -/
inductive CycleAct where
  | claimed (answer : Except Thrown (List ClaimedEnvelope))
  | delivered (answer : Except Thrown (Option LeftBehindEvent))
  | told
  | marked (answer : Except Thrown Unit)
  | ended

/-- The head of the loop of `runRelayCycle`: the next row is attempted, or the rows that were
delivered are marked. -/
def CycleStage.next : List ClaimedEnvelope → List String → CycleStage × List LoopNotice
  | row :: rows, delivered => (.delivering row rows delivered, [.cycle (.attempted row)])
  | [], delivered =>
      if delivered.length = 0 then (.settled (.ok ()), [])
      else (.marking delivered, [.cycle (.marked delivered)])

/-- `reportLeftBehind(config, event)`, up to the answer of the hook. -/
def CycleStage.report (hooked : Bool) (rows : List ClaimedEnvelope) (delivered : List String)
    (event : LeftBehindEvent) : CycleStage × List LoopNotice :=
  match leftBehind event with
  | .error error => (.settled (.error error), [])
  | .ok report =>
      if hooked then
        (.telling rows delivered, [.cycle (.reported event report), .cycle (.told event)])
      else
        let (stage, notices) := CycleStage.next rows delivered
        (stage, .cycle (.reported event report) :: notices)

/-- One turn of a cycle: where it stands then, and what it writes.  Nothing is left of it once its
`finally` has run. -/
def CycleStage.step (hooked : Bool) : CycleStage → CycleAct →
    Option (Option CycleStage × List LoopNotice)
  | .claiming, .claimed (.ok rows) =>
      let (stage, notices) := CycleStage.next rows []
      some (some stage, .claimed rows :: notices)
  | .claiming, .claimed (.error error) => some (some (.settled (.error error)), [])
  | .delivering row rows delivered, .delivered answer =>
      let (stage, notices) := match answer with
        | .ok none => CycleStage.next rows (delivered ++ [row.id])
        | .ok (some event) => CycleStage.report hooked rows delivered event
        | .error error => (.settled (.error error), [])
      some (some stage, notices)
  | .telling rows delivered, .told =>
      let (stage, notices) := CycleStage.next rows delivered
      some (some stage, notices)
  | .marking _, .marked answer => some (some (.settled answer), [])
  | .settled (.ok _), .ended => some (none, [])
  | .settled (.error error), .ended => some (none, [.failed error])
  | _, _ => none

/-! ### The loop -/

/-- One call of `close`: the number of the cycle it waits for, if one was under way, and whether it
resolved. -/
structure CloseCall where
  waits : Option ℕ
  resolved : Bool

/-- A relay: whether its interval is set, how many cycles it began, the one that is under way, the
calls of `close`, and what was noticed of it. -/
structure RelayLoop where
  ticking : Bool
  begun : ℕ
  cycle : Option CycleStage
  closes : List CloseCall
  notices : List LoopNotice

/-- The timer fires, what the cycle waits for settles, `close` is called, or a call of it
resolves. -/
inductive LoopAct where
  | tick
  | cycle (act : CycleAct)
  | close
  | resolve (call : ℕ)

namespace RelayLoop

/-- `tick()`. -/
def tick (loop : RelayLoop) : RelayLoop :=
  match loop.cycle with
  | some _ => loop
  | none => { loop with
      begun := loop.begun + 1
      cycle := some .claiming
      notices := loop.notices ++ [.claim] }

/-- `startRelayLoop(config)`: the interval is set, and the first tick runs at once. -/
def start : RelayLoop := RelayLoop.tick ⟨true, 0, none, [], []⟩

/-- Whether the cycle a call of `close` waits for has ended. -/
def settled (loop : RelayLoop) (call : CloseCall) : Bool :=
  match call.waits with
  | none => true
  | some number => number < loop.begun || loop.cycle.isNone

end RelayLoop

/-- **`startRelayLoop(config)`**, where `hooked` says whether `onLeftBehind` is configured. -/
def relayLoop (hooked : Bool) : Machine RelayLoop LoopAct := fun loop act =>
  match act with
  | .tick => if loop.ticking then some loop.tick else none
  | .cycle act =>
      loop.cycle.bind fun stage => (stage.step hooked act).map fun (cycle, notices) =>
        { loop with cycle := cycle, notices := loop.notices ++ notices }
  | .close => some { loop with
      ticking := false
      closes := loop.closes ++ [⟨loop.cycle.map fun _ => loop.begun, false⟩] }
  | .resolve n =>
      loop.closes[n]?.bind fun call =>
        if !call.resolved && loop.settled call then
          some { loop with closes := loop.closes.set n { call with resolved := true } }
        else none

/-! ### What a cycle writes -/

/-- How a row fared: it was delivered, or left behind with an event and the report of it. -/
abbrev FaredRow : Type := ClaimedEnvelope × Option (LeftBehindEvent × Thrown)

/-- What is noticed of a row. -/
def FaredRow.notices (hooked : Bool) : FaredRow → List LoopNotice
  | (row, none) => [.cycle (.attempted row)]
  | (row, some (event, report)) =>
      .cycle (.attempted row) :: .cycle (.reported event report) ::
        if hooked then [.cycle (.told event)] else []

/-- The ids of the rows that were delivered, in order. -/
def faredIds (rows : List FaredRow) : List String :=
  rows.filterMap fun p => if p.2.isNone then some p.1.id else none

/-- What a cycle writes until it has gone through some of its rows. -/
def throughRows (hooked : Bool) (batch : List ClaimedEnvelope) (done : List FaredRow) :
    List LoopNotice :=
  .claim :: .claimed batch :: done.flatMap (FaredRow.notices hooked)

/-- **A cycle that ended**: it was given no rows; it broke on a row that cannot be told of; or it
went through its whole batch in order, and marked the rows it delivered, all in one call, if there
are any. -/
inductive WholeCycle (hooked : Bool) : List LoopNotice → Prop where
  | unclaimed (error : Thrown) : WholeCycle hooked [.claim, .failed error]
  | broken (done : List FaredRow) (row : ClaimedEnvelope) (rows : List ClaimedEnvelope)
      (error : Thrown) :
      WholeCycle hooked (throughRows hooked (done.map Prod.fst ++ row :: rows) done ++
        [.cycle (.attempted row), .failed error])
  | nothing (done : List FaredRow) (none : faredIds done = []) :
      WholeCycle hooked (throughRows hooked (done.map Prod.fst) done)
  | marked (done : List FaredRow) (some : faredIds done ≠ []) :
      WholeCycle hooked (throughRows hooked (done.map Prod.fst) done ++
        [.cycle (.marked (faredIds done))])
  | unmarked (done : List FaredRow) (some : faredIds done ≠ []) (error : Thrown) :
      WholeCycle hooked (throughRows hooked (done.map Prod.fst) done ++
        [.cycle (.marked (faredIds done)), .failed error])

/-- What the cycle under way has written, by where it stands. -/
def OpenCycle (hooked : Bool) (l : List LoopNotice) : Option CycleStage → Prop
  | none => l = []
  | some .claiming => l = [.claim]
  | some (.delivering row rows delivered) => ∃ done, faredIds done = delivered ∧
      l = throughRows hooked (done.map Prod.fst ++ row :: rows) done ++ [.cycle (.attempted row)]
  | some (.telling rows delivered) => ∃ done, faredIds done = delivered ∧
      l = throughRows hooked (done.map Prod.fst ++ rows) done
  | some (.marking delivered) => ∃ done, faredIds done = delivered ∧ delivered ≠ [] ∧
      l = throughRows hooked (done.map Prod.fst) done ++ [.cycle (.marked delivered)]
  | some (.settled (.ok _)) => WholeCycle hooked l
  | some (.settled (.error error)) => WholeCycle hooked (l ++ [.failed error])

/-- **One cycle at a time**: what was noticed of a loop is what its cycles wrote, one after the
other, the cycle under way last. -/
def LoopInv (hooked : Bool) (loop : RelayLoop) : Prop :=
  ∃ cycles current, loop.notices = List.flatten cycles ++ current ∧
    (∀ cycle ∈ cycles, WholeCycle hooked cycle) ∧ OpenCycle hooked current loop.cycle ∧
    loop.begun = cycles.length + if loop.cycle.isSome then 1 else 0

/-! ### One turn of a cycle -/

section

variable {hooked : Bool}

theorem throughRows_append (batch : List ClaimedEnvelope) (done : List FaredRow) (p : FaredRow) :
    throughRows hooked batch (done ++ [p]) =
      throughRows hooked batch done ++ FaredRow.notices hooked p := by
  simp [throughRows]

@[simp] theorem faredIds_append (done done' : List FaredRow) :
    faredIds (done ++ done') = faredIds done ++ faredIds done' := List.filterMap_append

/-- The head of the loop: what a cycle wrote goes on with its next row, or its mark. -/
theorem openCycle_next {done : List FaredRow} {rows : List ClaimedEnvelope} {l : List LoopNotice}
    (hl : l = throughRows hooked (done.map Prod.fst ++ rows) done) :
    OpenCycle hooked (l ++ (CycleStage.next rows (faredIds done)).2)
      (some (CycleStage.next rows (faredIds done)).1) := by
  subst hl
  cases rows with
  | cons row rows => exact ⟨done, rfl, rfl⟩
  | nil =>
      simp only [CycleStage.next, List.append_nil]
      split_ifs with hnone
      · rw [List.append_nil]
        exact .nothing done (List.length_eq_zero_iff.1 hnone)
      · have hsome : faredIds done ≠ [] := fun h => hnone (List.length_eq_zero_iff.2 h)
        exact ⟨done, rfl, hsome, rfl⟩

/-- The report of a row: the row is done, unless its report cannot be written. -/
theorem openCycle_report {done : List FaredRow} {row : ClaimedEnvelope}
    {rows : List ClaimedEnvelope} {l : List LoopNotice} (event : LeftBehindEvent)
    (hl : l = throughRows hooked (done.map Prod.fst ++ row :: rows) done ++
      [.cycle (.attempted row)]) :
    OpenCycle hooked (l ++ (CycleStage.report hooked rows (faredIds done) event).2)
      (some (CycleStage.report hooked rows (faredIds done) event).1) := by
  subst hl
  unfold CycleStage.report
  cases hreport : leftBehind event with
  | error error =>
      simp only [List.append_nil]
      have hbroken := @WholeCycle.broken hooked done row rows error
      simpa [OpenCycle] using hbroken
  | ok report =>
      have hids : faredIds (done ++ [(row, some (event, report))]) = faredIds done := by
        simp [faredIds]
      have hbatch : done.map Prod.fst ++ row :: rows =
          (done ++ [(row, some (event, report))]).map Prod.fst ++ rows := by simp
      cases hooked with
      | true =>
          refine ⟨done ++ [(row, some (event, report))], hids, ?_⟩
          rw [hbatch, throughRows_append]
          simp [FaredRow.notices]
      | false =>
          have hnext := @openCycle_next false (done ++ [(row, some (event, report))]) rows _ rfl
          rw [hids, throughRows_append, ← hbatch] at hnext
          simpa [FaredRow.notices] using hnext

/-- **One turn of a cycle**: what it wrote goes on, and is a whole cycle once its `finally` has
run. -/
theorem openCycle_step {stage : CycleStage} {act : CycleAct} {cycle : Option CycleStage}
    {l notices : List LoopNotice} (h : OpenCycle hooked l (some stage))
    (hstep : stage.step hooked act = some (cycle, notices)) :
    (cycle.isSome ∧ OpenCycle hooked (l ++ notices) cycle) ∨
      (cycle = none ∧ WholeCycle hooked (l ++ notices)) := by
  unfold CycleStage.step at hstep
  split at hstep
  · rename_i rows
    obtain ⟨rfl, rfl⟩ := hstep
    obtain rfl : l = [.claim] := h
    exact .inl ⟨rfl, @openCycle_next hooked [] rows _ rfl⟩
  · rename_i error
    obtain ⟨rfl, rfl⟩ := hstep
    obtain rfl : l = [.claim] := h
    exact .inl ⟨rfl, .unclaimed error⟩
  · rename_i row rows delivered answer
    obtain ⟨rfl, rfl⟩ := hstep
    obtain ⟨done, rfl, hl⟩ := h
    refine .inl ⟨rfl, ?_⟩
    rcases answer with error | _ | event
    -- not even an event can be made of the row: the rows behind it are never attempted
    · subst hl
      have hbroken := @WholeCycle.broken hooked done row rows error
      simpa [OpenCycle] using hbroken
    · have hids : faredIds (done ++ [(row, none)]) = faredIds done ++ [row.id] := by
        simp [faredIds]
      have hnext := @openCycle_next hooked (done ++ [(row, none)]) rows l
        (by rw [hl, throughRows_append]; simp [FaredRow.notices])
      rwa [hids] at hnext
    · exact openCycle_report event hl
  · rename_i rows delivered
    obtain ⟨rfl, rfl⟩ := hstep
    obtain ⟨done, rfl, hl⟩ := h
    exact .inl ⟨rfl, openCycle_next hl⟩
  · rename_i delivered answer
    obtain ⟨rfl, rfl⟩ := hstep
    obtain ⟨done, rfl, hsome, rfl⟩ := h
    refine .inl ⟨rfl, ?_⟩
    cases answer with
    | ok _ =>
        have hmarked := @WholeCycle.marked hooked done hsome
        simpa [OpenCycle] using hmarked
    -- the rows stay delivered and unmarked, and the next cycle claims them again
    | error error =>
        have hunmarked := @WholeCycle.unmarked hooked done hsome error
        simpa [OpenCycle] using hunmarked
  · obtain ⟨rfl, rfl⟩ := hstep
    refine .inr ⟨rfl, ?_⟩
    rw [List.append_nil]
    exact h
  · obtain ⟨rfl, rfl⟩ := hstep
    exact .inr ⟨rfl, h⟩
  · cases hstep

/-! ### What a step of a loop does -/

/-- What a step of a loop does to its cycle: nothing, or it begins one, or takes the one that is
under way a turn further. -/
inductive LoopMove (hooked : Bool) (s t : RelayLoop) : Prop where
  | waits (cycle : t.cycle = s.cycle) (begun : t.begun = s.begun) (notices : t.notices = s.notices)
  | begins (ticking : s.ticking = true) (idle : s.cycle = none) (cycle : t.cycle = some .claiming)
      (begun : t.begun = s.begun + 1) (notices : t.notices = s.notices ++ [.claim])
  | turns {stage : CycleStage} {act : CycleAct} {notices : List LoopNotice}
      (cycle : s.cycle = some stage) (turn : stage.step hooked act = some (t.cycle, notices))
      (begun : t.begun = s.begun) (notices : t.notices = s.notices ++ notices)

theorem relayLoop_cases {s t : RelayLoop} {act : LoopAct} (h : relayLoop hooked s act = some t) :
    LoopMove hooked s t := by
  cases act with
  | tick =>
      simp only [relayLoop] at h
      split_ifs at h with hticking
      obtain rfl := Option.some.inj h
      unfold RelayLoop.tick
      cases hcycle : s.cycle with
      | some stage => exact .waits rfl rfl rfl
      | none => exact .begins hticking hcycle rfl rfl rfl
  | cycle act =>
      obtain ⟨stage, hstage, h⟩ := Option.bind_eq_some_iff.1 h
      obtain ⟨⟨cycle, notices⟩, hturn, rfl⟩ := Option.map_eq_some_iff.1 h
      exact .turns hstage hturn rfl rfl
  | close =>
      obtain rfl := Option.some.inj h
      exact .waits rfl rfl rfl
  | resolve n =>
      obtain ⟨call, -, h⟩ := Option.bind_eq_some_iff.1 h
      split_ifs at h
      obtain rfl := Option.some.inj h
      exact .waits rfl rfl rfl

/-- **One step of a loop** writes on in its cycle, or begins the next one behind it. -/
theorem LoopInv.step {s t : RelayLoop} (h : LoopInv hooked s) (hmove : LoopMove hooked s t) :
    LoopInv hooked t := by
  obtain ⟨cycles, current, hnotices, hcycles, hcurrent, hbegun⟩ := h
  cases hmove with
  | waits hcycle hbegun' hnotices' =>
      refine ⟨cycles, current, hnotices'.trans hnotices, hcycles, ?_, ?_⟩
      · rw [hcycle]
        exact hcurrent
      · rw [hcycle, hbegun']
        exact hbegun
  | begins hticking hidle hcycle hbegun' hnotices' =>
      rw [hidle] at hcurrent hbegun
      obtain rfl : current = [] := hcurrent
      refine ⟨cycles, [.claim], ?_, hcycles, ?_, ?_⟩
      · rw [hnotices', hnotices, List.append_nil]
      · rw [hcycle]
        rfl
      · rw [hbegun', hbegun, hcycle]
        rfl
  | @turns stage act notices hcycle hturn hbegun' hnotices' =>
      rw [hcycle] at hcurrent hbegun
      rw [Option.isSome_some, if_pos rfl] at hbegun
      rcases openCycle_step hcurrent hturn with ⟨hsome, hopen⟩ | ⟨hnone, hwhole⟩
      · refine ⟨cycles, current ++ notices, ?_, hcycles, hopen, ?_⟩
        · rw [hnotices', hnotices, List.append_assoc]
        · rw [hbegun', hbegun, hsome, if_pos rfl]
      · refine ⟨cycles ++ [current ++ notices], [], ?_, ?_, ?_, ?_⟩
        · rw [hnotices', hnotices, List.flatten_append, List.flatten_singleton, List.append_nil,
            List.append_assoc]
        · intro cycle hmem
          rcases List.mem_append.1 hmem with hmem | hmem
          · exact hcycles cycle hmem
          · exact List.mem_singleton.1 hmem ▸ hwhole
        · rw [hnone]
          rfl
        · rw [hbegun', hbegun, hnone, List.length_append]
          rfl

theorem LoopInv.start : LoopInv hooked RelayLoop.start := by
  refine ⟨[], [.claim], rfl, ?_, rfl, rfl⟩
  intro cycle hmem
  cases hmem

/-- **One cycle at a time**: in every run of a loop, what was noticed of it is what its cycles
wrote, one after the other. -/
theorem relayLoop_inv {s : RelayLoop} {acts : List LoopAct}
    (h : (relayLoop hooked).exec .start acts = some s) : LoopInv hooked s :=
  Machine.exec_invariant (fun _ _ _ hinv hstep => LoopInv.step hinv (relayLoop_cases hstep)) h
    LoopInv.start

/-! ### A loop that is closed -/

/-- What holds of the calls of `close` in every run: the interval is set until the first of them,
the cycle one waits for is the last, and one that resolved did not leave a cycle behind. -/
structure ClosesInv (s : RelayLoop) : Prop where
  ticking : s.ticking = s.closes.isEmpty
  waits : ∀ call ∈ s.closes, call.waits = none ∧ s.cycle = none ∨ call.waits = some s.begun
  resolved : ∀ call ∈ s.closes, call.resolved = true → s.cycle = none

theorem ClosesInv.start : ClosesInv RelayLoop.start := by
  constructor
  · rfl
  · intro call hcall
    cases hcall
  · intro call hcall
    cases hcall

/-- A cycle that has ended has ended for every call that waits for it. -/
theorem ClosesInv.over_iff {s : RelayLoop} (h : ClosesInv s) {call : CloseCall}
    (hcall : call ∈ s.closes) : s.settled call = true ↔ s.cycle = none := by
  unfold RelayLoop.settled
  rcases h.waits call hcall with ⟨hwaits, hidle⟩ | hwaits
  · simp [hwaits, hidle]
  · simp [hwaits]

theorem ClosesInv.step {s t : RelayLoop} {act : LoopAct} (h : ClosesInv s)
    (hstep : relayLoop hooked s act = some t) : ClosesInv t := by
  cases act with
  | tick =>
      simp only [relayLoop] at hstep
      split_ifs at hstep with hticking
      obtain rfl := Option.some.inj hstep
      unfold RelayLoop.tick
      cases hcycle : s.cycle with
      | some stage => exact h
      | none =>
          -- the interval is set, so nobody has called `close`
          have hnone : s.closes = [] := List.isEmpty_iff.1 (h.ticking.symm.trans hticking)
          refine ⟨h.ticking, ?_, ?_⟩ <;> simp [hnone]
  | cycle act =>
      obtain ⟨stage, hstage, hstep⟩ := Option.bind_eq_some_iff.1 hstep
      obtain ⟨⟨cycle, notices⟩, -, rfl⟩ := Option.map_eq_some_iff.1 hstep
      refine ⟨h.ticking, ?_, ?_⟩
      · intro call hcall
        rcases h.waits call hcall with ⟨-, hidle⟩ | hwaits
        · rw [hstage] at hidle
          cases hidle
        · exact .inr hwaits
      · intro call hcall hresolved
        have hidle := h.resolved call hcall hresolved
        rw [hstage] at hidle
        cases hidle
  | close =>
      obtain rfl := Option.some.inj hstep
      refine ⟨by simp, ?_, ?_⟩
      · intro call hcall
        rcases List.mem_append.1 hcall with hcall | hcall
        · exact h.waits call hcall
        · rw [List.mem_singleton.1 hcall]
          cases s.cycle with
          | none => exact .inl ⟨rfl, rfl⟩
          | some stage => exact .inr rfl
      · intro call hcall hresolved
        rcases List.mem_append.1 hcall with hcall | hcall
        · exact h.resolved call hcall hresolved
        · rw [List.mem_singleton.1 hcall] at hresolved
          cases hresolved
  | resolve n =>
      obtain ⟨call, hcall, hstep⟩ := Option.bind_eq_some_iff.1 hstep
      split_ifs at hstep with hover
      obtain rfl := Option.some.inj hstep
      have hmem : call ∈ s.closes := List.mem_of_getElem? hcall
      have hidle : s.cycle = none := (h.over_iff hmem).1 (by simp at hover; exact hover.2)
      refine ⟨?_, ?_, fun _ _ _ => hidle⟩
      · rw [h.ticking, Bool.eq_iff_iff]
        simp
      · intro call' hcall'
        rcases List.mem_or_eq_of_mem_set hcall' with hcall' | rfl
        · exact h.waits call' hcall'
        · exact h.waits call hmem

theorem closesInv {s : RelayLoop} {acts : List LoopAct}
    (h : (relayLoop hooked).exec .start acts = some s) : ClosesInv s :=
  Machine.exec_invariant (fun _ _ _ hinv hstep => ClosesInv.step hinv hstep) h ClosesInv.start

/-- How often the outbox was asked for rows. -/
def claimsIn (l : List LoopNotice) : ℕ := l.countP fun | .claim => true | _ => false

/-- A cycle asks the outbox for rows once, when it begins. -/
theorem claimsIn_step {stage : CycleStage} {act : CycleAct} {cycle : Option CycleStage}
    {notices : List LoopNotice} (h : stage.step hooked act = some (cycle, notices)) :
    claimsIn notices = 0 := by
  have hnext : ∀ rows delivered, claimsIn (CycleStage.next rows delivered).2 = 0 := by
    intro rows delivered
    cases rows with
    | cons row rows => rfl
    | nil =>
        simp only [CycleStage.next]
        split_ifs <;> rfl
  unfold CycleStage.step at h
  split at h
  · obtain ⟨rfl, rfl⟩ := h
    exact hnext _ _
  · obtain ⟨rfl, rfl⟩ := h
    rfl
  · obtain ⟨rfl, rfl⟩ := h
    split
    · exact hnext _ _
    · unfold CycleStage.report
      split
      · rfl
      · split_ifs
        · rfl
        · exact hnext _ _
    · rfl
  · obtain ⟨rfl, rfl⟩ := h
    exact hnext _ _
  · obtain ⟨rfl, rfl⟩ := h
    rfl
  · obtain ⟨rfl, rfl⟩ := h
    rfl
  · obtain ⟨rfl, rfl⟩ := h
    rfl
  · cases h

/-- **What a closed loop still does**: it ends the cycle under way and begins no other; once that
cycle has ended nothing is noticed of it any more; and no `close` resolves before. -/
structure StaysClosed (s t : RelayLoop) : Prop where
  begun : t.begun = s.begun
  claims : claimsIn t.notices = claimsIn s.notices
  silent : s.cycle = none → t.cycle = none ∧ t.notices = s.notices
  resolved : ∀ call ∈ t.closes, call.resolved = true → t.cycle = none

/-- **A loop that is closed**, in every run from there on. -/
theorem loop_closed {s t : RelayLoop} {acts acts' : List LoopAct}
    (h : (relayLoop hooked).exec .start acts = some s) (hclosed : s.closes ≠ [])
    (h' : (relayLoop hooked).exec s acts' = some t) : StaysClosed s t := by
  have hticking : ∀ u : RelayLoop, ClosesInv u → u.closes ≠ [] → u.ticking = false := by
    intro u hu hne
    rw [hu.ticking]
    cases hcloses : u.closes with
    | nil => exact absurd hcloses hne
    | cons call calls => rfl
  have hcloses : ∀ u act v, relayLoop hooked u act = some v → u.closes ≠ [] → v.closes ≠ [] := by
    intro u act v hstep hne
    cases act with
    | tick =>
        simp only [relayLoop] at hstep
        split_ifs at hstep
        obtain rfl := Option.some.inj hstep
        unfold RelayLoop.tick
        split <;> exact hne
    | cycle act =>
        obtain ⟨stage, -, hstep⟩ := Option.bind_eq_some_iff.1 hstep
        obtain ⟨p, -, rfl⟩ := Option.map_eq_some_iff.1 hstep
        exact hne
    | close =>
        obtain rfl := Option.some.inj hstep
        simp
    | resolve n =>
        obtain ⟨call, -, hstep⟩ := Option.bind_eq_some_iff.1 hstep
        split_ifs at hstep
        obtain rfl := Option.some.inj hstep
        simpa using hne
  -- what holds from there on: the loop is closed, and stands to `s` as it should
  have hrun := Machine.exec_invariant
    (P := fun u => ClosesInv u ∧ u.closes ≠ [] ∧ u.begun = s.begun ∧
      claimsIn u.notices = claimsIn s.notices ∧
      (s.cycle = none → u.cycle = none ∧ u.notices = s.notices)) (m := relayLoop hooked) ?_ h'
    ⟨closesInv h, hclosed, rfl, rfl, fun hidle => ⟨hidle, rfl⟩⟩
  · obtain ⟨hinv, -, hbegun, hclaims, hsilent⟩ := hrun
    exact ⟨hbegun, hclaims, hsilent, hinv.resolved⟩
  · rintro u act v ⟨hinv, hne, hbegun, hclaims, hsilent⟩ hstep
    refine ⟨hinv.step hstep, hcloses u act v hstep hne, ?_⟩
    cases relayLoop_cases hstep with
    | waits hcycle hbegun' hnotices =>
        rw [hcycle, hbegun', hnotices]
        exact ⟨hbegun, hclaims, hsilent⟩
    -- a tick needs the interval, which the first `close` cleared
    | begins hticks =>
        rw [hticking u hinv hne] at hticks
        cases hticks
    | @turns stage act notices hcycle hturn hbegun' hnotices =>
        refine ⟨hbegun'.trans hbegun, ?_, ?_⟩
        · have hzero := claimsIn_step hturn
          unfold claimsIn at hzero hclaims ⊢
          rw [hnotices, List.countP_append, hzero, hclaims, Nat.add_zero]
        · intro hidle
          rw [(hsilent hidle).1] at hcycle
          cases hcycle

/-! ### A cycle ends -/

/-- How many more turns a cycle takes, beside those its rows bring in once they are claimed. -/
def CycleStage.work : CycleStage → ℕ
  | .claiming => 3
  | .delivering _ rows _ => 2 * rows.length + 4
  | .telling rows _ => 2 * rows.length + 3
  | .marking _ => 2
  | .settled _ => 1

/-- How many more turns a loop takes with its cycle. -/
def RelayLoop.work (loop : RelayLoop) : ℕ := (loop.cycle.map CycleStage.work).getD 0

/-- Whether an act takes the cycle a turn further. -/
def LoopAct.turn : LoopAct → ℕ
  | .cycle _ => 1
  | _ => 0

/-- How many rows an act brings in. -/
def LoopAct.rows : LoopAct → ℕ
  | .cycle (.claimed (.ok rows)) => rows.length
  | _ => 0

/-- Whether an act is a tick, which may begin another cycle. -/
def LoopAct.ticks : LoopAct → ℕ
  | .tick => 1
  | _ => 0

theorem work_next (rows : List ClaimedEnvelope) (delivered : List String) :
    (CycleStage.next rows delivered).1.work ≤ 2 * rows.length + 2 := by
  cases rows with
  | cons row rows =>
      simp only [CycleStage.next, CycleStage.work, List.length_cons]
      omega
  | nil =>
      simp only [CycleStage.next]
      split_ifs <;> simp [CycleStage.work]

theorem work_report (rows : List ClaimedEnvelope) (delivered : List String)
    (event : LeftBehindEvent) :
    (CycleStage.report hooked rows delivered event).1.work ≤ 2 * rows.length + 3 := by
  have hnext := work_next rows delivered
  unfold CycleStage.report
  split
  · simp only [CycleStage.work]
    omega
  · split_ifs
    · exact le_refl _
    · exact hnext.trans (by omega)

/-- A turn of a cycle is one turn less to take, and the rows it is given are two turns each. -/
theorem work_step {stage : CycleStage} {act : CycleAct} {cycle : Option CycleStage}
    {notices : List LoopNotice} (h : stage.step hooked act = some (cycle, notices)) :
    1 + (cycle.map CycleStage.work).getD 0 ≤ stage.work + 2 * (LoopAct.cycle act).rows := by
  unfold CycleStage.step at h
  split at h
  · rename_i rows
    obtain ⟨rfl, rfl⟩ := h
    have hnext := work_next rows []
    show 1 + (CycleStage.next rows []).1.work ≤ 3 + 2 * rows.length
    omega
  · obtain ⟨rfl, rfl⟩ := h
    exact Nat.le_add_right 2 1
  · rename_i row rows delivered answer
    obtain ⟨rfl, rfl⟩ := h
    rcases answer with error | _ | event
    · show 1 + 1 ≤ 2 * rows.length + 4 + 0
      omega
    · have hnext := work_next rows (delivered ++ [row.id])
      show 1 + (CycleStage.next rows (delivered ++ [row.id])).1.work ≤ 2 * rows.length + 4 + 0
      omega
    · have hreport := @work_report hooked rows delivered event
      show 1 + (CycleStage.report hooked rows delivered event).1.work ≤ 2 * rows.length + 4 + 0
      omega
  · rename_i rows delivered
    obtain ⟨rfl, rfl⟩ := h
    have hnext := work_next rows delivered
    show 1 + (CycleStage.next rows delivered).1.work ≤ 2 * rows.length + 3 + 0
    omega
  · obtain ⟨rfl, rfl⟩ := h
    exact le_refl 2
  · obtain ⟨rfl, rfl⟩ := h
    exact le_refl 1
  · obtain ⟨rfl, rfl⟩ := h
    exact le_refl 1
  · cases h

/-- A cycle that is under way waits for something, and goes on when it settles. -/
theorem exists_step (stage : CycleStage) : ∃ act p, stage.step hooked act = some p := by
  rcases stage with _ | ⟨row, rows, delivered⟩ | ⟨rows, delivered⟩ | delivered | outcome
  · exact ⟨.claimed (.ok []), _, rfl⟩
  · exact ⟨.delivered (.ok none), _, rfl⟩
  · exact ⟨.told, _, rfl⟩
  · exact ⟨.marked (.ok ()), _, rfl⟩
  · cases outcome with
    | ok _ => exact ⟨.ended, _, rfl⟩
    | error error => exact ⟨.ended, _, rfl⟩

/-- What a cycle takes is paid for by the work that is left, by the rows that are claimed and by the
ticks. -/
theorem work_relayLoop {s t : RelayLoop} {act : LoopAct} (h : relayLoop hooked s act = some t) :
    act.turn + t.work ≤ s.work + (2 * act.rows + 3 * act.ticks) := by
  cases act with
  | tick =>
      simp only [relayLoop] at h
      split_ifs at h
      obtain rfl := Option.some.inj h
      unfold RelayLoop.tick RelayLoop.work
      cases hcycle : s.cycle <;> simp [hcycle, CycleStage.work, LoopAct.turn, LoopAct.ticks]
  | cycle act =>
      obtain ⟨stage, hstage, h⟩ := Option.bind_eq_some_iff.1 h
      obtain ⟨⟨cycle, notices⟩, hturn, rfl⟩ := Option.map_eq_some_iff.1 h
      have hwork := work_step hturn
      simp only [RelayLoop.work, hstage, LoopAct.turn, LoopAct.ticks, Option.map_some,
        Option.getD_some]
      omega
  | close =>
      obtain rfl := Option.some.inj h
      simp [RelayLoop.work, LoopAct.turn]
  | resolve n =>
      obtain ⟨call, -, h⟩ := Option.bind_eq_some_iff.1 h
      split_ifs at h
      obtain rfl := Option.some.inj h
      simp [RelayLoop.work, LoopAct.turn]

/-- **A loop is never stuck, and takes no more turns than its rows are worth**: over every run the
turns of its cycles are bounded by the work that was left, the rows that were claimed and the ticks;
and from where the run leads, either the cycle goes on as soon as what it waits for settles, or
every call of `close` that is pending can resolve. -/
theorem loop_drains {s t : RelayLoop} {acts acts' : List LoopAct}
    (h : (relayLoop hooked).exec .start acts = some s)
    (h' : (relayLoop hooked).exec s acts' = some t) :
    (acts'.map LoopAct.turn).sum + t.work ≤
        s.work + (acts'.map fun act => 2 * act.rows + 3 * act.ticks).sum ∧
      ((∃ act u, relayLoop hooked t (.cycle act) = some u) ∨
        ∀ n call, t.closes[n]? = some call → call.resolved = false →
          ∃ u, relayLoop hooked t (.resolve n) = some u) := by
  have hinv := closesInv (Machine.exec_append_iff.2 ⟨s, h, h'⟩)
  have hpaid : ∀ u act v, relayLoop hooked u act = some v →
      act.turn + v.work ≤ u.work + (2 * act.rows + 3 * act.ticks) := fun _ _ _ => work_relayLoop
  refine ⟨Machine.cost_le_of_potential hpaid h', ?_⟩
  cases hcycle : t.cycle with
  | some stage =>
      obtain ⟨act, p, hstep⟩ := @exists_step hooked stage
      exact .inl ⟨act, _, by simp only [relayLoop, hcycle, Option.bind_some, hstep]; rfl⟩
  | none =>
      refine .inr ?_
      intro n call hcall hpending
      have hover := (hinv.over_iff (List.mem_of_getElem? hcall)).2 hcycle
      exact ⟨_, by simp only [relayLoop, hcall, Option.bind_some, hpending, hover]; rfl⟩

end

/-! ### A close that comes while the loop waits for rows -/

/-- A loop that was closed while it waited for rows. -/
def closedLoop : RelayLoop := ⟨false, 1, some .claiming, [⟨some 1, false⟩], [.claim]⟩

/-- It is given none, and its cycle ends. -/
def givenNone : List LoopAct :=
  [.cycle (.claimed (.ok [])), .cycle .ended, .resolve 0]

/-- And there is nothing more to notice of it. -/
def drainedLoop : RelayLoop := ⟨false, 1, none, [⟨some 1, true⟩], [.claim, .claimed []]⟩

theorem loop_closed_example : StaysClosed closedLoop drainedLoop :=
  @loop_closed false closedLoop drainedLoop [.close] givenNone rfl (List.cons_ne_nil _ _) rfl

/-! ### Two cycles over two rows -/

/-- The driver did not take the call for the second of two rows. -/
def secondRow : LeftBehindEvent :=
  eventFor (rowOf lineJob "2") (.driverFailed, plainError "no connection" none)

/-- The first cycle of a loop delivers one row, leaves the other behind, tells the hook and marks
the first.  A tick that comes before that does nothing; one that comes after begins another
cycle. -/
def firstCycle : List LoopAct :=
  [.cycle (.claimed (.ok [rowOf lineJob "1", rowOf lineJob "2"])), .cycle (.delivered (.ok none)),
    .cycle (.delivered (.ok (some secondRow))), .tick, .cycle .told, .cycle (.marked (.ok ())),
    .cycle .ended, .tick]

/-- The second cycle delivers the row that was left behind, and fails to mark it; `close` was called
in between. -/
def secondCycle : List LoopAct :=
  [.cycle (.claimed (.ok [rowOf lineJob "2"])), .close, .cycle (.delivered (.ok none)),
    .cycle (.marked (.error typeError)), .cycle .ended]

/-- Both cycles. -/
def twoCycles : List LoopAct := firstCycle ++ secondCycle

theorem exec_twoCycles : ∃ t report, leftBehind secondRow = .ok report ∧
    (relayLoop true).exec .start twoCycles = some t ∧ t.begun = 2 ∧ t.cycle = none ∧
    t.closes = [⟨some 2, false⟩] ∧
    t.notices = [.claim, .claimed [rowOf lineJob "1", rowOf lineJob "2"],
      .cycle (.attempted (rowOf lineJob "1")), .cycle (.attempted (rowOf lineJob "2")),
      .cycle (.reported secondRow report), .cycle (.told secondRow), .cycle (.marked ["1"]),
      .claim, .claimed [rowOf lineJob "2"], .cycle (.attempted (rowOf lineJob "2")),
      .cycle (.marked ["2"]), .failed typeError] :=
  ⟨_, _, rfl, rfl, rfl, rfl, rfl, rfl⟩

theorem relayLoop_inv_example : ∃ t, (relayLoop true).exec .start twoCycles = some t ∧
    t.begun = 2 ∧ (.cycle (.told secondRow)) ∈ t.notices ∧ (.cycle (.marked ["1"])) ∈ t.notices ∧
    (.failed typeError) ∈ t.notices ∧ LoopInv true t := by
  obtain ⟨t, report, -, hrun, hbegun, -, -, hnotices⟩ := exec_twoCycles
  refine ⟨t, hrun, hbegun, ?_, ?_, ?_, relayLoop_inv hrun⟩ <;> simp [hnotices]

/-- Ten turns of the fifteen that two rows claimed, one of them twice, and two ticks allow; and the
call of `close` can resolve. -/
theorem loop_drains_example : ∃ t, (relayLoop true).exec .start twoCycles = some t ∧
    (twoCycles.map LoopAct.turn).sum = 10 ∧ 10 + t.work ≤ 15 ∧
    ∃ u, relayLoop true t (.resolve 0) = some u := by
  obtain ⟨t, -, -, hrun, -, hcycle, hcloses, -⟩ := exec_twoCycles
  obtain ⟨hturns, ⟨act, u, hstep⟩ | hresolve⟩ :=
    @loop_drains true .start t [] twoCycles rfl hrun
  · simp [relayLoop, hcycle] at hstep
  · exact ⟨t, hrun, rfl, hturns, hresolve 0 ⟨some 2, false⟩ (by rw [hcloses]; rfl) rfl⟩

end Jubs
