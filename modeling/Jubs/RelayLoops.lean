/-
**Loops of relays over one driver.**

Each process runs the loop of `startRelayLoop` over its outbox, and all of them hand their rows to
one driver.  Between two awaits of one loop the others go on.  Seen from the driver and the tables,
such a run is a run of relays that claim, deliver and mark, so what holds of those holds of the
loops.

Main definitions:

* `Jubs.RelayLoops`, `Jubs.LoopsStep`, `Jubs.loopsRun` — the loops, the driver and the marks as one
  machine;
* `Jubs.LoopOf`, `Jubs.Follows` — where a relay stands when its loop stands somewhere;
* `Jubs.LoopsContract` — what is promised of the loops of one outbox;
* `Jubs.StandsAt`, `Jubs.LoopsStep.turnOf` — a cycle that stands somewhere, and the turns it takes;
* `Jubs.KeepingDriver.enqueueEach`, `Jubs.callFates` — a driver that was told the fates of its
  calls.

Main results:

* `Jubs.follows_step` — relays follow every step of the loops;
* `Jubs.loops_contract` — **one outbox, any number of loops: one job for a row, and no mark before
  it**;
* `Jubs.cycle_of_effect` — **a cycle that runs alone is `runRelayCycle`**, notice by notice.
-/

import Jubs.OutboxRuns
import Jubs.RelayLoop

set_option autoImplicit false

namespace Jubs

/-! ### The machine -/

/-- The driver, the loop of each process that runs one, and the rows that are marked. -/
structure RelayLoops (δ ι ρ : Type) where
  driver : δ
  loops : ρ → Option RelayLoop
  marked : List (ι × String)

/-- One step: a process calls `startRelay`, or dies; a loop is handed rows of its outbox, learns how
the delivery of a row fared, or hears of its mark, where the outbox may have marked some rows though
it failed; and everything else a loop does on its own. -/
inductive LoopsStep (ρ φ : Type) where
  | start (relay : ρ)
  | crash (relay : ρ)
  | claimed (relay : ρ) (ids : List String)
  | delivered (relay : ρ) (fate : φ)
  | marked (relay : ρ) (marks : List String) (answer : Except Thrown Unit)
  | own (relay : ρ) (act : LoopAct)

/-- Whether a loop does something without rows, the driver or a mark. -/
def LoopAct.own : LoopAct → Bool
  | .cycle (.claimed (.ok _)) | .cycle (.delivered _) | .cycle (.marked _) => false
  | _ => true

section

variable {δ φ ι ρ : Type} [DecidableEq ρ]

/-- One loop moves to another state. -/
def RelayLoops.put (s : RelayLoops δ ι ρ) (relay : ρ) (loop : Option RelayLoop) :
    RelayLoops δ ι ρ :=
  { s with loops := Function.update s.loops relay loop }

/-- The loop of a process takes a step. -/
def RelayLoops.act (hooked : ρ → Bool) (s : RelayLoops δ ι ρ) (relay : ρ) (act : LoopAct) :
    Option (RelayLoops δ ι ρ) :=
  (s.loops relay).bind fun loop => (relayLoop (hooked relay) loop act).map fun loop' =>
    s.put relay (some loop')

/-- **`startRelayLoop` in every process**, where `hooked` says which relays have an
`onLeftBehind`. -/
def loopsRun (K : KeepingDriver δ φ) (R : Relaying ι ρ) (hooked : ρ → Bool) :
    Machine (RelayLoops δ ι ρ) (LoopsStep ρ φ) := fun s step =>
  match step with
  | .start relay =>
      match s.loops relay with
      | none => some (s.put relay (some .start))
      | some _ => none
  | .crash relay => some (s.put relay none)
  | .claimed relay ids =>
      (R.claim relay ids).bind fun rows => s.act hooked relay (.cycle (.claimed (.ok rows)))
  | .delivered relay fate =>
      match (s.loops relay).bind RelayLoop.cycle with
      | some (.delivering row _ _) =>
          (deliver (K.enqueue fate) (R.config relay) row s.driver).bind fun (answer, d) =>
            (s.act hooked relay (.cycle (.delivered answer))).map fun t => { t with driver := d }
      | _ => none
  | .marked relay marks answer =>
      match (s.loops relay).bind RelayLoop.cycle with
      | some (.marking delivered) =>
          -- a mark that rejects may have marked some of the rows before
          if ∀ id ∈ marks, id ∈ delivered then
            (s.act hooked relay (.cycle (.marked answer))).map fun t =>
              { t with marked := t.marked ++ marks.map fun id => (R.outbox relay, id) }
          else none
      | _ => none
  | .own relay act => if act.own then s.act hooked relay act else none

/-- No process runs a loop. -/
def RelayLoops.start (d : δ) : RelayLoops δ ι ρ := ⟨d, fun _ => none, []⟩

/-! ### Relays follow loops -/

/-- Where a relay stands when its cycle stands somewhere. -/
def CycleStage.relay : CycleStage → RelayState
  | .claiming | .settled _ => .idle
  | .delivering row rows delivered => .working (row :: rows) delivered
  | .telling rows delivered => .working rows delivered
  | .marking delivered => .working [] delivered

/-- Where a relay stands when its loop stands somewhere. -/
def LoopOf (loop : Option RelayLoop) : RelayState :=
  ((loop.bind RelayLoop.cycle).map CycleStage.relay).getD .idle

/-- The relays stand where the loops do, over one driver and with the same marks. -/
structure Follows (s : RelayLoops δ ι ρ) (t : RelayRun δ ι ρ) : Prop where
  driver : t.driver = s.driver
  marked : t.marked = s.marked
  relays : ∀ relay, t.relays relay = LoopOf (s.loops relay)

section

variable {K : KeepingDriver δ φ} {R : Relaying ι ρ} {hooked : ρ → Bool} {s s' : RelayLoops δ ι ρ}
variable {t t' : RelayRun δ ι ρ} {relay : ρ}

theorem act_eq_some_iff {act : LoopAct} : s.act hooked relay act = some s' ↔
    ∃ loop loop', s.loops relay = some loop ∧ relayLoop (hooked relay) loop act = some loop' ∧
      s.put relay (some loop') = s' := by
  simp [RelayLoops.act, Option.bind_eq_some_iff, Option.map_eq_some_iff]

/-- The cycle of a loop takes a turn. -/
theorem act_cycle_eq_some {act : CycleAct} (h : s.act hooked relay (.cycle act) = some s') :
    ∃ loop stage cycle notices, s.loops relay = some loop ∧ loop.cycle = some stage ∧
      stage.step (hooked relay) act = some (cycle, notices) ∧
      s' = s.put relay (some { loop with cycle := cycle, notices := loop.notices ++ notices }) := by
  obtain ⟨loop, loop', hloop, hloop', hs'⟩ := act_eq_some_iff.1 h
  obtain ⟨stage, hstage, hloop'⟩ := Option.bind_eq_some_iff.1 hloop'
  obtain ⟨⟨cycle, notices⟩, hturn, hsame⟩ := Option.map_eq_some_iff.1 hloop'
  subst hsame
  exact ⟨loop, stage, cycle, notices, hloop, hstage, hturn, hs'.symm⟩

/-- One relay moved, and nothing else. -/
structure Moved (relay : ρ) (state : RelayState) (t t' : RelayRun δ ι ρ) : Prop where
  driver : t'.driver = t.driver
  marked : t'.marked = t.marked
  relays : t'.relays = Function.update t.relays relay state

/-- A relay that is to move nowhere. -/
theorem Moved.refl {state : RelayState} (h : t.relays relay = state) : Moved relay state t t :=
  ⟨rfl, rfl, by rw [← h, Function.update_eq_self]⟩

/-- The relays stand where the loops do after one of each moved. -/
theorem Follows.relays_put (h : Follows s t) {loop : Option RelayLoop} {relays : ρ → RelayState}
    (hrelays : relays = Function.update t.relays relay (LoopOf loop)) (relay' : ρ) :
    relays relay' = LoopOf ((s.put relay loop).loops relay') := by
  subst hrelays
  show _ = LoopOf (Function.update s.loops relay loop relay')
  by_cases heq : relay' = relay
  · rw [heq, Function.update_self, Function.update_self]
  · rw [Function.update_of_ne heq, Function.update_of_ne heq]
    exact h.relays relay'

theorem Moved.follows {loop : Option RelayLoop} (h : Follows s t)
    (hmoved : Moved relay (LoopOf loop) t t') : Follows (s.put relay loop) t' :=
  ⟨hmoved.driver.trans h.driver, hmoved.marked.trans h.marked, h.relays_put hmoved.relays⟩

/-- A relay whose process dies. -/
theorem moved_crash : ∃ l t', (relayRun K R).exec t l = some t' ∧ Moved relay .idle t t' :=
  ⟨[.crash relay], _, rfl, rfl, rfl, rfl⟩

/-- A relay goes where the head of the loop takes a cycle: a batch that is through and delivered
nothing is over, as if no row were marked. -/
theorem moved_next {rows : List ClaimedEnvelope} {delivered : List String}
    (h : t.relays relay = .working rows delivered) :
    ∃ l t', (relayRun K R).exec t l = some t' ∧
      Moved relay (CycleStage.next rows delivered).1.relay t t' := by
  cases rows with
  | cons row rows => exact ⟨[], t, rfl, Moved.refl h⟩
  | nil =>
      simp only [CycleStage.next]
      split_ifs with hnone
      · refine ⟨[.mark relay []], { t.moves relay .idle with marked := t.marked ++ [] },
          ?_, rfl, ?_, rfl⟩
        · rw [Machine.exec_singleton]
          simp [relayRun, h]
        · exact List.append_nil _
      · exact ⟨[], t, rfl, Moved.refl h⟩

/-- And where the report of a row takes it. -/
theorem moved_report {hook : Bool} {rows : List ClaimedEnvelope} {delivered : List String}
    (event : LeftBehindEvent) (h : t.relays relay = .working rows delivered) :
    ∃ l t', (relayRun K R).exec t l = some t' ∧
      Moved relay (CycleStage.report hook rows delivered event).1.relay t t' := by
  unfold CycleStage.report
  split
  -- a cycle that broke off leaves its rows to the next one, as a process that died does
  · exact moved_crash
  · split_ifs
    · exact ⟨[], t, rfl, Moved.refl h⟩
    · exact moved_next h

omit [DecidableEq ρ] in
theorem Follows.of_cycle (h : Follows s t) {loop : RelayLoop} {stage : CycleStage}
    (hloop : s.loops relay = some loop) (hstage : loop.cycle = some stage) :
    t.relays relay = stage.relay := by
  simp [h.relays, LoopOf, hloop, hstage]

/-- What a relay does when its loop does something on its own: it finishes a batch that has nothing
to mark, or nothing. -/
theorem moved_own (h : Follows s t) {loop loop' : RelayLoop} {act : LoopAct} (hown : act.own = true)
    (hloop : s.loops relay = some loop) (hstep : relayLoop (hooked relay) loop act = some loop') :
    ∃ l t', (relayRun K R).exec t l = some t' ∧ Moved relay (LoopOf (some loop')) t t' := by
  have hstays : LoopOf (some loop') = LoopOf (some loop) →
      ∃ l t', (relayRun K R).exec t l = some t' ∧ Moved relay (LoopOf (some loop')) t t' := by
    intro hsame
    refine ⟨[], t, rfl, Moved.refl ?_⟩
    rw [h.relays, hloop, hsame]
  cases act with
  | tick =>
      simp only [relayLoop] at hstep
      split_ifs at hstep
      obtain rfl := Option.some.inj hstep
      refine hstays ?_
      unfold RelayLoop.tick
      cases hcycle : loop.cycle <;> simp [LoopOf, hcycle, CycleStage.relay]
  | close =>
      obtain rfl := Option.some.inj hstep
      exact hstays rfl
  | resolve n =>
      obtain ⟨call, -, hstep⟩ := Option.bind_eq_some_iff.1 hstep
      split_ifs at hstep
      obtain rfl := Option.some.inj hstep
      exact hstays rfl
  | cycle act =>
      obtain ⟨stage, hstage, hstep⟩ := Option.bind_eq_some_iff.1 hstep
      obtain ⟨⟨cycle, notices⟩, hturn, rfl⟩ := Option.map_eq_some_iff.1 hstep
      have hrelay := h.of_cycle hloop hstage
      unfold CycleStage.step at hturn
      split at hturn
      -- what a claim, a delivery or a mark settles into is not for the loop to choose
      · cases hown
      · obtain ⟨rfl, rfl⟩ := hturn
        exact ⟨[], t, rfl, Moved.refl hrelay⟩
      · cases hown
      · obtain ⟨rfl, rfl⟩ := hturn
        exact moved_next hrelay
      · cases hown
      · obtain ⟨rfl, rfl⟩ := hturn
        exact ⟨[], t, rfl, Moved.refl hrelay⟩
      · obtain ⟨rfl, rfl⟩ := hturn
        exact ⟨[], t, rfl, Moved.refl hrelay⟩
      · cases hturn

/-- A relay delivers the row its loop delivers, and goes where the answer takes the cycle. -/
theorem follows_delivered (h : Follows s t) {loop : RelayLoop} {row : ClaimedEnvelope}
    {rows : List ClaimedEnvelope} {delivered : List String} {fate : φ}
    {answer : Except Thrown (Option LeftBehindEvent)} {d : δ} {cycle : Option CycleStage}
    {notices : List LoopNotice} (hrelay : t.relays relay = .working (row :: rows) delivered)
    (hdeliver : deliver (K.enqueue fate) (R.config relay) row s.driver = some (answer, d))
    (hturn : (CycleStage.delivering row rows delivered).step (hooked relay) (.delivered answer) =
      some (cycle, notices)) :
    ∃ l t', (relayRun K R).exec t l = some t' ∧ Follows
      { s.put relay (some { loop with cycle := cycle, notices := loop.notices ++ notices }) with
        driver := d } t' := by
  let u : RelayRun δ ι ρ := { t.moves relay (.next rows delivered row.id answer) with
    driver := d
    stored := t.stored ++ ((K.jobs d).drop (K.jobs s.driver).length).map fun job =>
      ((R.outbox relay, row.id), job) }
  have hstep : relayRun K R t (.deliver relay fate) = some u := by
    simp only [relayRun, hrelay, h.driver, hdeliver]
    rfl
  have hself : u.relays relay = .next rows delivered row.id answer := Function.update_self _ _ _
  have hgoes : ∃ l t', (relayRun K R).exec u l = some t' ∧
      Moved relay ((cycle.map CycleStage.relay).getD .idle) u t' := by
    rcases answer with error | _ | event
    · obtain ⟨rfl, rfl⟩ := hturn
      exact ⟨[], u, rfl, Moved.refl hself⟩
    · obtain ⟨rfl, rfl⟩ := hturn
      exact moved_next hself
    · obtain ⟨rfl, rfl⟩ := hturn
      exact moved_report event hself
  obtain ⟨l, t', hrun, hmoved⟩ := hgoes
  refine ⟨.deliver relay fate :: l, t', Machine.exec_cons_iff.2 ⟨u, hstep, hrun⟩, hmoved.driver,
    hmoved.marked.trans h.marked, ?_⟩
  have hrelays := hmoved.relays
  rw [show u.relays = Function.update t.relays relay (.next rows delivered row.id answer) from rfl,
    Function.update_idem] at hrelays
  exact h.relays_put hrelays

/-- **Relays follow every step of the loops.** -/
theorem follows_step : (relayRun K R).Simulates (loopsRun K R hooked) Follows := by
  intro s t step s' h hstep
  cases step with
  | start relay =>
      simp only [loopsRun] at hstep
      split at hstep
      · rename_i hnone
        obtain rfl := Option.some.inj hstep
        refine ⟨[], t, rfl, Moved.follows h (Moved.refl ?_)⟩
        rw [h.relays, hnone]
        rfl
      · cases hstep
  | crash relay =>
      obtain rfl := Option.some.inj hstep
      obtain ⟨l, t', hrun, hmoved⟩ := @moved_crash δ φ ι ρ _ K R t relay
      exact ⟨l, t', hrun, Moved.follows h hmoved⟩
  | claimed relay ids =>
      obtain ⟨rows, hrows, hact⟩ := Option.bind_eq_some_iff.1 hstep
      obtain ⟨loop, stage, cycle, notices, hloop, hstage, hturn, rfl⟩ := act_cycle_eq_some hact
      have hrelay := h.of_cycle hloop hstage
      cases stage with
      | claiming =>
          obtain ⟨rfl, rfl⟩ := hturn
          have hclaim : relayRun K R t (.claim relay ids) =
              some (t.moves relay (.working rows [])) := by
            simp only [relayRun, hrelay, CycleStage.relay, hrows, Option.map_some]
          obtain ⟨l, t', hrun, hmoved⟩ := @moved_next δ φ ι ρ _ K R
            (t.moves relay (.working rows [])) relay rows [] (Function.update_self _ _ _)
          refine ⟨.claim relay ids :: l, t', Machine.exec_cons_iff.2 ⟨_, hclaim, hrun⟩,
            Moved.follows h ⟨hmoved.driver, hmoved.marked, ?_⟩⟩
          rw [hmoved.relays]
          exact Function.update_idem _ _ _
      | settled outcome => cases outcome <;> cases hturn
      | _ => cases hturn
  | delivered relay fate =>
      simp only [loopsRun] at hstep
      split at hstep
      · rename_i row rows delivered hcycle
        obtain ⟨loop, hloop, hstage⟩ := Option.bind_eq_some_iff.1 hcycle
        have hrelay := h.of_cycle hloop hstage
        obtain ⟨⟨answer, d⟩, hdeliver, hstep⟩ := Option.bind_eq_some_iff.1 hstep
        obtain ⟨u, hact, rfl⟩ := Option.map_eq_some_iff.1 hstep
        obtain ⟨loop', stage, cycle, notices, hloop', hstage', hturn, rfl⟩ := act_cycle_eq_some hact
        obtain rfl := Option.some.inj (hloop.symm.trans hloop')
        obtain rfl := Option.some.inj (hstage.symm.trans hstage')
        exact follows_delivered h hrelay hdeliver hturn
      · cases hstep
  | marked relay marks answer =>
      simp only [loopsRun] at hstep
      split at hstep
      · rename_i delivered hcycle
        obtain ⟨loop, hloop, hstage⟩ := Option.bind_eq_some_iff.1 hcycle
        have hrelay := h.of_cycle hloop hstage
        split_ifs at hstep with hamong
        obtain ⟨u, hact, rfl⟩ := Option.map_eq_some_iff.1 hstep
        obtain ⟨loop', stage, cycle, notices, hloop', hstage', hturn, rfl⟩ := act_cycle_eq_some hact
        obtain rfl := Option.some.inj
          (hstage.symm.trans (Option.some.inj (hloop.symm.trans hloop') ▸
          hstage'))
        obtain ⟨rfl, rfl⟩ := hturn
        have hmark : relayRun K R t (.mark relay marks) = some { t.moves relay .idle with
            marked := t.marked ++ marks.map fun id => (R.outbox relay, id) } := by
          simp only [relayRun, hrelay, CycleStage.relay]
          rw [if_pos hamong]
        refine ⟨[.mark relay marks], _, Machine.exec_singleton.2 hmark, h.driver, ?_, ?_⟩
        · exact congrArg (· ++ marks.map fun id => (R.outbox relay, id)) h.marked
        · exact h.relays_put rfl
      · cases hstep
  | own relay act =>
      simp only [loopsRun] at hstep
      split_ifs at hstep with hown
      obtain ⟨loop, loop', hloop, hloop', rfl⟩ := act_eq_some_iff.1 hstep
      obtain ⟨l, t', hrun, hmoved⟩ := @moved_own δ φ ι ρ _ K R hooked s t relay h loop
        loop' act hown
        hloop hloop'
      exact ⟨l, t', hrun, Moved.follows h hmoved⟩

/-! ### The loops of one outbox -/

/-- What a step does to the loop of a process. -/
inductive LoopChange (hook : Bool) (old : Option RelayLoop) : Option RelayLoop → Prop where
  | starts : LoopChange hook old (some .start)
  | dies : LoopChange hook old none
  | acts {loop loop' : RelayLoop} {act : LoopAct} (was : old = some loop)
      (did : relayLoop hook loop act = some loop') : LoopChange hook old (some loop')

theorem loopChange_of_act {act : LoopAct} (h : s.act hooked relay act = some s') :
    ∃ loop, s'.loops = Function.update s.loops relay loop ∧
      LoopChange (hooked relay) (s.loops relay) loop := by
  obtain ⟨loop, loop', hloop, hloop', rfl⟩ := act_eq_some_iff.1 h
  exact ⟨some loop', rfl, .acts hloop hloop'⟩

/-- A step is about one loop. -/
theorem loopsRun_loops {step : LoopsStep ρ φ} (h : loopsRun K R hooked s step = some s') :
    ∃ relay loop, s'.loops = Function.update s.loops relay loop ∧
      LoopChange (hooked relay) (s.loops relay) loop := by
  cases step with
  | start relay =>
      simp only [loopsRun] at h
      split at h
      · obtain rfl := Option.some.inj h
        exact ⟨relay, _, rfl, .starts⟩
      · cases h
  | crash relay =>
      obtain rfl := Option.some.inj h
      exact ⟨relay, _, rfl, .dies⟩
  | claimed relay ids =>
      obtain ⟨rows, -, hact⟩ := Option.bind_eq_some_iff.1 h
      exact ⟨relay, loopChange_of_act hact⟩
  | delivered relay fate =>
      simp only [loopsRun] at h
      split at h
      · obtain ⟨⟨answer, d⟩, -, h⟩ := Option.bind_eq_some_iff.1 h
        obtain ⟨u, hact, rfl⟩ := Option.map_eq_some_iff.1 h
        obtain ⟨loop, hloops, hchange⟩ := loopChange_of_act hact
        exact ⟨relay, loop, hloops, hchange⟩
      · cases h
  | marked relay marks answer =>
      simp only [loopsRun] at h
      split at h
      · split_ifs at h
        obtain ⟨u, hact, rfl⟩ := Option.map_eq_some_iff.1 h
        obtain ⟨loop, hloops, hchange⟩ := loopChange_of_act hact
        exact ⟨relay, loop, hloops, hchange⟩
      · cases h
  | own relay act =>
      simp only [loopsRun] at h
      split_ifs at h
      exact ⟨relay, loopChange_of_act h⟩

/-- Every loop is one that took its own steps only. -/
theorem loops_reach {d : δ} {steps : List (LoopsStep ρ φ)}
    (h : (loopsRun K R hooked).exec (.start d) steps = some s) :
    ∀ relay loop, s.loops relay = some loop → (relayLoop (hooked relay)).Reaches .start loop := by
  refine Machine.exec_invariant (P := fun s : RelayLoops δ ι ρ => ∀ relay loop,
    s.loops relay = some loop → (relayLoop (hooked relay)).Reaches .start loop) ?_ h ?_
  · intro s step t hs hstep relay loop hloop
    obtain ⟨relay', loop', hloops, hchange⟩ := loopsRun_loops hstep
    rw [hloops] at hloop
    by_cases heq : relay = relay'
    · subst heq
      rw [Function.update_self] at hloop
      subst hloop
      cases hchange with
      | starts => exact .refl _
      | acts hwas hdid => exact (hs relay _ hwas).step hdid
    · rw [Function.update_of_ne heq] at hloop
      exact hs relay loop hloop
  · intro relay loop hloop
    cases hloop

end

omit [DecidableEq ρ] in
/-- One outbox is apart from itself, over a driver that held no job under the id of a row. -/
theorem apart_of_fresh {K : KeepingDriver δ φ} {R : Relaying Unit ρ} {d₀ : δ}
    (hfresh : ∀ job ∈ K.jobs d₀, ∀ rowId, job.id ≠ "outbox-" ++ rowId) : Apart K R d₀ := by
  refine ⟨?_, fun _ _ _ _ _ _ _ _ _ _ => rfl⟩
  intro relay id request jobId _ _ hjobId job hjob hat
  exact hfresh job hjob id (hat.2.trans (outboxJobId_eq_ok hjobId))

/-- The relays of an outbox that held nothing under the ids of its rows keep what backs their
marks. -/
theorem backedInv_of_fresh {K : KeepingDriver δ φ} {R : Relaying Unit ρ} {d₀ : δ}
    {s : RelayRun δ Unit ρ} (hfresh : ∀ job ∈ K.jobs d₀, ∀ rowId, job.id ≠ "outbox-" ++ rowId)
    {steps : List (RelayStep ρ φ)} (h : (relayRun K R).exec (.start d₀) steps = some s) :
    BackedInv K R d₀ s :=
  Machine.exec_invariant (fun _ _ _ hinv hstep =>
    BackedInv.step (apart_of_fresh hfresh) hinv (relayRun_cases hstep)) h BackedInv.start

/-- **What is promised of the loops of one outbox.** -/
structure LoopsContract (K : KeepingDriver δ φ) (R : Relaying Unit ρ) (hooked : ρ → Bool) (d₀ : δ)
    (s : RelayLoops δ Unit ρ) (stored : List ((Unit × String) × KeptJob)) : Prop where
  /-- A row yields at most one job. -/
  once : (stored.map Prod.fst).Nodup
  /-- The driver holds what it held and the jobs of the rows. -/
  jobs : K.jobs s.driver = K.jobs d₀ ++ stored.map Prod.snd
  /-- A job carries the envelope of its row. -/
  carries : ∀ row job, (row, job) ∈ stored →
    ∃ envelope, R.rows row.1 row.2 = some envelope ∧ storedData envelope = some job.envelope
  /-- A row is marked once its job was stored. -/
  marked : ∀ row ∈ s.marked, ∃ job, (row, job) ∈ stored
  /-- And its mark is asked for once its job was stored. -/
  asked : ∀ relay loop delivered, s.loops relay = some loop →
    loop.cycle = some (.marking delivered) → ∀ id ∈ delivered, ∃ job, (((), id), job) ∈ stored
  /-- The cycles of a loop come one after the other. -/
  cycles : ∀ relay loop, s.loops relay = some loop → LoopInv (hooked relay) loop

/-- **One outbox, any number of loops**: over a driver that keeps its jobs, and that held none under
the id of a row, loops with the same definitions store one job for a row, and mark no row before its
job was stored, in every interleaving, with processes that die and are started again. -/
theorem loops_contract {K : KeepingDriver δ φ} {R : Relaying Unit ρ} {hooked : ρ → Bool} {d₀ : δ}
    {s : RelayLoops δ Unit ρ} (hconfig : ∀ relay relay', R.config relay = R.config relay')
    (hfresh : ∀ job ∈ K.jobs d₀, ∀ rowId, job.id ≠ "outbox-" ++ rowId)
    {steps : List (LoopsStep ρ φ)}
    (h : (loopsRun K R hooked).exec (.start d₀) steps = some s) :
    ∃ stored, LoopsContract K R hooked d₀ s stored := by
  have hstart : Follows (RelayLoops.start d₀ : RelayLoops δ Unit ρ) (RelayRun.start d₀) :=
    ⟨rfl, rfl, fun _ => rfl⟩
  obtain ⟨steps', t, hrun, hfollows⟩ := follows_step.exec hstart h
  have hbacked := backedInv_of_fresh hfresh hrun
  refine ⟨t.stored, hbacked.inv.once (fun _ _ => rfl) hconfig, ?_, ?_, ?_, ?_, ?_⟩
  · rw [← hfollows.driver]
    exact hbacked.inv.jobs
  · exact fun row job hmem => (hbacked.inv.origin row job hmem).envelope
  · rw [← hfollows.marked]
    exact hbacked.marked
  · intro relay loop delivered hloop hcycle id hid
    have hstored := hbacked.delivered relay
    rw [hfollows.of_cycle hloop hcycle] at hstored
    exact hstored id hid
  · intro relay loop hloop
    obtain ⟨acts, hacts⟩ := loops_reach h relay loop hloop
    exact Machine.exec_invariant (fun _ _ _ hinv hstep => LoopInv.step hinv (relayLoop_cases hstep))
      hacts LoopInv.start

/-! ### A cycle that runs alone -/

/-- What `relayRows` does with a row whose delivery settled. -/
theorem relayRows_of_deliver {enqueue : δ → EnqueueRequest → Except Thrown String × δ}
    {config : RelayConfig} {hook : LeftBehindHook} {row : ClaimedEnvelope} {d d' : δ}
    {answer : Except Thrown (Option LeftBehindEvent)}
    (h : deliver enqueue config row d = some (answer, d')) (rows : List ClaimedEnvelope)
    (ids : List String) : relayRows enqueue config hook (row :: rows) d ids =
      (Effect.ofExcept answer >>= relayRest enqueue config hook rows ids row.id d').map fun p =>
        (.attempted row :: p.1, p.2) := by
  rw [relayRows, h]
  refine congrArg (Option.map _) ((Effect.ofExcept_ok_bind _ _).trans ?_)
  refine congrArg (Effect.bind (Effect.ofExcept _)) (funext fun event => ?_)
  cases event <;> rfl

/-- What `relayRows` does with a row it leaves behind, when the hook settles. -/
theorem relayRest_of_settles {enqueue : δ → EnqueueRequest → Except Thrown String × δ}
    {config : RelayConfig} {hook : LeftBehindHook} {rows : List ClaimedEnvelope} {ids : List String}
    {id : String} {d : δ} {event : LeftBehindEvent} (hhook : HookSettles hook event) :
    relayRest enqueue config hook rows ids id d (some event) =
      match leftBehind event with
      | .error error => some ([], .error error)
      | .ok report => (relayRows enqueue config hook rows d ids).map fun p =>
          (.reported event report :: (if hook.isSome then [.told event] else []) ++ p.1, p.2) := by
  cases hreport : leftBehind event with
  | error error =>
      simp only [relayRest, reportLeftBehind, hreport]
      rfl
  | ok report =>
      simp only [relayRest, reportLeftBehind_of_settles hreport hhook]
      rfl

/-- A turn of the cycle of one loop: something it waits for settles. -/
def LoopsStep.turnOf (relay : ρ) : LoopsStep ρ φ → Prop
  | .claimed relay' _ | .delivered relay' _ | .marked relay' _ _ => relay' = relay
  | .own relay' (.cycle _) => relay' = relay
  | _ => False

/-- The fates of the deliveries of a run, in order. -/
def fatesOf (steps : List (LoopsStep ρ φ)) : List φ :=
  steps.filterMap fun | .delivered _ fate => some fate | _ => none

/-- What the mark of a run was answered. -/
def markAnswer (steps : List (LoopsStep ρ φ)) : Except Thrown Unit :=
  (steps.findSome? fun | .marked _ _ answer => some answer | _ => none).getD (.ok ())

/-- A driver whose calls meet one fate after the other.  A call that is left none is lost. -/
def KeepingDriver.enqueueEach (K : KeepingDriver δ φ) :
    δ × List φ → EnqueueRequest → Except Thrown String × (δ × List φ)
  | (d, []), _ => (.error lostError, (d, []))
  | (d, fate :: fates), request =>
      ((K.enqueue fate d request).1, ((K.enqueue fate d request).2, fates))

/-- The fates that calls to the driver met: a row whose request cannot be prepared makes none. -/
def callFates (config : RelayConfig) : List ClaimedEnvelope → List φ → List φ
  | row :: rows, fate :: fates =>
      match prepare config row with
      | some (.ok _) => fate :: callFates config rows fates
      | _ => callFates config rows fates
  | _, _ => []

section

variable {K : KeepingDriver δ φ} {R : Relaying ι ρ} {hooked : ρ → Bool} {s t : RelayLoops δ ι ρ}
variable {relay : ρ} {loop : RelayLoop} {stage stage' : CycleStage} {l l' : List LoopNotice}

omit [DecidableEq ρ] in
/-- A delivery is the same to a driver that was told its fates beforehand. -/
theorem deliver_enqueueEach {config : RelayConfig} {row : ClaimedEnvelope} {fate : φ} {d : δ}
    (rows : List ClaimedEnvelope) (fates : List φ) :
    deliver K.enqueueEach config row (d, callFates config (row :: rows) (fate :: fates)) =
      (deliver (K.enqueue fate) config row d).map fun p =>
        (p.1, (p.2, callFates config rows fates)) := by
  unfold deliver
  rw [callFates]
  rcases prepare config row with _ | failure | request
  · rfl
  · rfl
  · rcases hcall : K.enqueue fate d request with ⟨failure | id, d'⟩
    · simp [KeepingDriver.enqueueEach, hcall]
    · simp [KeepingDriver.enqueueEach, hcall]

/-- The cycle of a loop stands at a stage, and wrote something since. -/
def StandsAt (s : RelayLoops δ ι ρ) (relay : ρ) (loop : RelayLoop) (stage : CycleStage)
    (l : List LoopNotice) : Prop :=
  s.loops relay = some { loop with cycle := some stage, notices := loop.notices ++ l }

/-- What a turn is to the cycle, and the driver behind it. -/
inductive TurnActs (K : KeepingDriver δ φ) (R : Relaying ι ρ) (s : RelayLoops δ ι ρ) (relay : ρ) :
    CycleStage → LoopsStep ρ φ → CycleAct → δ → Prop where
  | claimed {stage : CycleStage} {ids : List String} {rows : List ClaimedEnvelope}
      (claimed : R.claim relay ids = some rows) :
      TurnActs K R s relay stage (.claimed relay ids) (.claimed (.ok rows)) s.driver
  | delivered {row : ClaimedEnvelope} {rows : List ClaimedEnvelope} {ids : List String} {fate : φ}
      {answer : Except Thrown (Option LeftBehindEvent)} {d : δ}
      (delivers : deliver (K.enqueue fate) (R.config relay) row s.driver = some (answer, d)) :
      TurnActs K R s relay (.delivering row rows ids) (.delivered relay fate) (.delivered answer) d
  | marked {stage : CycleStage} {marks : List String} {answer : Except Thrown Unit} :
      TurnActs K R s relay stage (.marked relay marks answer) (.marked answer) s.driver
  | own {stage : CycleStage} {act : CycleAct} (own : (LoopAct.cycle act).own = true) :
      TurnActs K R s relay stage (.own relay (.cycle act)) act s.driver

/-- A turn of a cycle takes it from one stage to another. -/
theorem turn_of_step {step : LoopsStep ρ φ} (hturn : step.turnOf relay)
    (h : loopsRun K R hooked s step = some t) :
    ∃ loop stage act cycle notices, s.loops relay = some loop ∧ loop.cycle = some stage ∧
      TurnActs K R s relay stage step act t.driver ∧
      stage.step (hooked relay) act = some (cycle, notices) ∧
      t.loops relay = some { loop with cycle := cycle, notices := loop.notices ++ notices } := by
  cases step with
  | start relay' => cases hturn
  | crash relay' => cases hturn
  | claimed relay' ids =>
      obtain rfl : relay' = relay := hturn
      obtain ⟨rows, hrows, hact⟩ := Option.bind_eq_some_iff.1 h
      obtain ⟨loop, stage, cycle, notices, hloop, hstage, hstep, rfl⟩ := act_cycle_eq_some hact
      exact ⟨loop, stage, _, cycle, notices, hloop, hstage, .claimed hrows, hstep,
        Function.update_self _ _ _⟩
  | delivered relay' fate =>
      obtain rfl : relay' = relay := hturn
      simp only [loopsRun] at h
      split at h
      · rename_i row rows delivered hcycle
        obtain ⟨⟨answer, d⟩, hdeliver, h⟩ := Option.bind_eq_some_iff.1 h
        obtain ⟨u, hact, rfl⟩ := Option.map_eq_some_iff.1 h
        obtain ⟨loop, stage, cycle, notices, hloop, hstage, hstep, rfl⟩ := act_cycle_eq_some hact
        rw [hloop, Option.bind_some, hstage] at hcycle
        obtain rfl := Option.some.inj hcycle
        exact ⟨loop, _, _, cycle, notices, hloop, hstage, .delivered hdeliver, hstep,
          Function.update_self _ _ _⟩
      · cases h
  | marked relay' marks answer =>
      obtain rfl : relay' = relay := hturn
      simp only [loopsRun] at h
      split at h
      · split_ifs at h
        obtain ⟨u, hact, rfl⟩ := Option.map_eq_some_iff.1 h
        obtain ⟨loop, stage, cycle, notices, hloop, hstage, hstep, rfl⟩ := act_cycle_eq_some hact
        exact ⟨loop, stage, _, cycle, notices, hloop, hstage, .marked, hstep,
          Function.update_self _ _ _⟩
      · cases h
  | own relay' act =>
      cases act with
      | cycle act =>
          obtain rfl : relay' = relay := hturn
          simp only [loopsRun] at h
          split_ifs at h with hown
          obtain ⟨loop, stage, cycle, notices, hloop, hstage, hstep, rfl⟩ := act_cycle_eq_some h
          exact ⟨loop, stage, act, cycle, notices, hloop, hstage, .own hown, hstep,
            Function.update_self _ _ _⟩
      | _ => cases hturn

theorem StandsAt.turned (hs : StandsAt s relay loop stage l) {step : LoopsStep ρ φ}
    (hturn : step.turnOf relay) (h : loopsRun K R hooked s step = some t) :
    ∃ act cycle notices, TurnActs K R s relay stage step act t.driver ∧
      stage.step (hooked relay) act = some (cycle, notices) ∧
      t.loops relay =
        some { loop with cycle := cycle, notices := loop.notices ++ (l ++ notices) } := by
  obtain ⟨loop', stage', act, cycle, notices, hloop, hstage, hacts, hstep, ht⟩ :=
    turn_of_step hturn h
  obtain rfl := Option.some.inj (hloop.symm.trans hs)
  obtain rfl := Option.some.inj hstage
  refine ⟨act, cycle, notices, hacts, hstep, ?_⟩
  rw [ht, List.append_assoc]

omit [DecidableEq ρ] in
theorem StandsAt.unique (hs : StandsAt s relay loop stage l) (h : StandsAt s relay loop stage' l') :
    stage = stage' ∧ l = l' := by
  have heq := Option.some.inj ((show s.loops relay = _ from hs).symm.trans h)
  exact ⟨Option.some.inj (congrArg RelayLoop.cycle heq),
    List.append_cancel_left (congrArg RelayLoop.notices heq)⟩

/-- A cycle that goes on to settle takes its next turn first. -/
theorem StandsAt.taken {outcome : Except Thrown Unit} (hs : StandsAt s relay loop stage l)
    (hstage : stage ≠ .settled outcome) {steps : List (LoopsStep ρ φ)}
    (hturns : ∀ step ∈ steps, step.turnOf relay)
    (hrun : (loopsRun K R hooked).exec s steps = some t)
    (ht : StandsAt t relay loop (.settled outcome) l') :
    ∃ step rest u act cycle notices, steps = step :: rest ∧
      TurnActs K R s relay stage step act u.driver ∧
      stage.step (hooked relay) act = some (cycle, notices) ∧
      u.loops relay =
        some { loop with cycle := cycle, notices := loop.notices ++ (l ++ notices) } ∧
      (∀ step ∈ rest, step.turnOf relay) ∧ (loopsRun K R hooked).exec u rest = some t := by
  cases steps with
  | nil =>
      obtain rfl := Option.some.inj hrun
      exact absurd (hs.unique ht).1 hstage
  | cons step rest =>
      obtain ⟨hturn, htail⟩ := List.forall_mem_cons.1 hturns
      obtain ⟨u, hstep, hlater⟩ := Machine.exec_cons_iff.1 hrun
      obtain ⟨act, cycle, notices, hacts, hgoes, hu⟩ := hs.turned hturn hstep
      exact ⟨step, rest, u, act, cycle, notices, rfl, hacts, hgoes, hu, htail, hlater⟩

/-- A cycle that settled takes one turn more, and is over. -/
theorem StandsAt.settled {r outcome : Except Thrown Unit}
    (hs : StandsAt s relay loop (.settled r) l)
    {steps : List (LoopsStep ρ φ)} (hturns : ∀ step ∈ steps, step.turnOf relay)
    (hrun : (loopsRun K R hooked).exec s steps = some t)
    (ht : StandsAt t relay loop (.settled outcome) l') : steps = [] ∧ r = outcome ∧ l = l' := by
  cases steps with
  | nil =>
      obtain rfl := Option.some.inj hrun
      obtain ⟨hstage, hl⟩ := hs.unique ht
      exact ⟨rfl, by injection hstage, hl⟩
  | cons step steps =>
      obtain ⟨hturn, hturns⟩ := List.forall_mem_cons.1 hturns
      obtain ⟨u, hstep, hrun⟩ := Machine.exec_cons_iff.1 hrun
      obtain ⟨act, cycle, notices, -, hgoes, hu⟩ := hs.turned hturn hstep
      have hnone : cycle = none := by
        cases act with
        | ended =>
            cases r with
            | ok value =>
                obtain ⟨rfl, -⟩ := hgoes
                rfl
            | error error =>
                obtain ⟨rfl, -⟩ := hgoes
                rfl
        | _ => cases r <;> cases hgoes
      subst hnone
      cases steps with
      | nil =>
          obtain rfl := Option.some.inj hrun
          cases hu.symm.trans (show u.loops relay = _ from ht)
      | cons step' steps =>
          obtain ⟨hturn', -⟩ := List.forall_mem_cons.1 hturns
          obtain ⟨v, hstep', -⟩ := Machine.exec_cons_iff.1 hrun
          obtain ⟨loop', stage', _, _, _, hloop, hstage, -⟩ := turn_of_step hturn' hstep'
          obtain rfl := Option.some.inj (hu.symm.trans hloop)
          cases hstage

/-- A cycle that waits for the hook goes on with its next row. -/
theorem StandsAt.told {rows : List ClaimedEnvelope} {ids : List String}
    {outcome : Except Thrown Unit}
    (hs : StandsAt s relay loop (.telling rows ids) l) {steps : List (LoopsStep ρ φ)}
    (hturns : ∀ step ∈ steps, step.turnOf relay)
    (hrun : (loopsRun K R hooked).exec s steps = some t)
    (ht : StandsAt t relay loop (.settled outcome) l') :
    ∃ u rest, steps = .own relay (.cycle .told) :: rest ∧
      StandsAt u relay loop (CycleStage.next rows ids).1 (l ++ (CycleStage.next rows ids).2) ∧
      u.driver = s.driver ∧ (∀ step ∈ rest, step.turnOf relay) ∧
      (loopsRun K R hooked).exec u rest = some t := by
  obtain ⟨step, rest, u, act, cycle, notices, rfl, hacts, hgoes, hu, htail, hlater⟩ :=
    hs.taken (by rintro ⟨⟩) hturns hrun ht
  generalize hdriver : u.driver = d at hacts
  cases hacts with
  | claimed => cases hgoes
  | marked => cases hgoes
  | own hown =>
      cases act with
      | told =>
          obtain ⟨rfl, rfl⟩ := hgoes
          exact ⟨u, rest, rfl, hu, hdriver, htail, hlater⟩
      | _ => cases hgoes

/-- A cycle that waits for its mark ends as the mark did. -/
theorem StandsAt.marks {ids : List String} {outcome : Except Thrown Unit}
    (hs : StandsAt s relay loop (.marking ids) l) {steps : List (LoopsStep ρ φ)}
    (hturns : ∀ step ∈ steps, step.turnOf relay)
    (hrun : (loopsRun K R hooked).exec s steps = some t)
    (ht : StandsAt t relay loop (.settled outcome) l') :
    outcome = markAnswer steps ∧ l' = l := by
  obtain ⟨step, rest, u, act, cycle, notices, rfl, hacts, hgoes, hu, htail, hlater⟩ :=
    hs.taken (by rintro ⟨⟩) hturns hrun ht
  generalize u.driver = d at hacts
  cases hacts with
  | marked =>
      obtain ⟨rfl, rfl⟩ := hgoes
      rw [List.append_nil] at hu
      obtain ⟨-, rfl, rfl⟩ := StandsAt.settled hu htail hlater ht
      exact ⟨rfl, rfl⟩
  | claimed => cases hgoes
  | own hown =>
      cases act with
      | marked => cases hown
      | _ => cases hgoes

/-- A cycle that waits for the driver is answered for its row. -/
theorem StandsAt.answered {row : ClaimedEnvelope} {rows : List ClaimedEnvelope} {ids : List String}
    {outcome : Except Thrown Unit} (hs : StandsAt s relay loop (.delivering row rows ids) l)
    {steps : List (LoopsStep ρ φ)} (hturns : ∀ step ∈ steps, step.turnOf relay)
    (hrun : (loopsRun K R hooked).exec s steps = some t)
    (ht : StandsAt t relay loop (.settled outcome) l') :
    ∃ fate rest u answer cycle notices, steps = .delivered relay fate :: rest ∧
      deliver (K.enqueue fate) (R.config relay) row s.driver = some (answer, u.driver) ∧
      (CycleStage.delivering row rows ids).step (hooked relay) (.delivered answer) =
        some (cycle, notices) ∧
      u.loops relay =
        some { loop with cycle := cycle, notices := loop.notices ++ (l ++ notices) } ∧
      (∀ step ∈ rest, step.turnOf relay) ∧ (loopsRun K R hooked).exec u rest = some t := by
  obtain ⟨step, rest, u, act, cycle, notices, rfl, hacts, hgoes, hu, htail, hlater⟩ :=
    hs.taken (by rintro ⟨⟩) hturns hrun ht
  generalize hdriver : u.driver = d at hacts
  cases hacts with
  | claimed => cases hgoes
  | marked => cases hgoes
  | own hown =>
      cases act with
      | delivered => cases hown
      | _ => cases hgoes
  | @delivered _ _ _ fate answer _ hdeliver =>
      exact ⟨fate, rest, u, answer, cycle, notices, rfl, hdriver ▸ hdeliver, hgoes, hu, htail,
        hlater⟩

/-- How a cycle ends whose loop over the rows settled, when it had written so much by then. -/
def CycleEnds (steps : List (LoopsStep ρ φ)) (written : List LoopNotice)
    (outcome : Except Thrown Unit) (l : List LoopNotice) :
    Except Thrown (List String × (δ × List φ)) → Prop
  | .error error => outcome = .error error ∧ l = written
  | .ok (ids, _) => (ids = [] ∧ outcome = .ok () ∧ l = written) ∨
      (ids ≠ [] ∧ outcome = markAnswer steps ∧ l = written ++ [.cycle (.marked ids)])

/-- **The rows of a cycle that runs alone**: what the loop writes, and where its cycle goes, is what
`relayRows` writes and returns, over a driver whose calls meet the fates they met. -/
theorem relayRows_of_turns {hook : LeftBehindHook} (hhook : hooked relay = hook.isSome)
    (hsettles : ∀ event, HookSettles hook event) {rows : List ClaimedEnvelope} {ids : List String}
    {written : List LoopNotice} {steps : List (LoopsStep ρ φ)} {outcome : Except Thrown Unit}
    (hs : StandsAt s relay loop (CycleStage.next rows ids).1
      (written ++ (CycleStage.next rows ids).2))
    (hturns : ∀ step ∈ steps, step.turnOf relay)
    (hrun : (loopsRun K R hooked).exec s steps = some t)
    (ht : StandsAt t relay loop (.settled outcome) l) :
    ∃ notices r, relayRows K.enqueueEach (R.config relay) hook rows
        (s.driver, callFates (R.config relay) rows (fatesOf steps)) ids = some (notices, r) ∧
      CycleEnds steps (written ++ notices.map .cycle) outcome l r := by
  -- along the rows: the loop has written `written` so far, and stands before the first that is left
  induction rows generalizing s ids written steps with
  | nil =>
      refine ⟨[], .ok (ids, _), rfl, ?_⟩
      rw [List.map_nil, List.append_nil]
      simp only [CycleStage.next] at hs
      split_ifs at hs with hnone
      · rw [List.append_nil] at hs
        obtain ⟨-, rfl, rfl⟩ := hs.settled hturns hrun ht
        exact .inl ⟨List.length_eq_zero_iff.1 hnone, rfl, rfl⟩
      · exact .inr ⟨fun h => hnone (List.length_eq_zero_iff.2 h), hs.marks hturns hrun ht⟩
  | cons row rows ih =>
      obtain ⟨fate, steps, u, answer, cycle, turned, rfl, hdeliver, hgoes, hu, htail, hlater⟩ :=
        StandsAt.answered hs hturns hrun ht
      have hdeliver' := (deliver_enqueueEach rows (fatesOf steps)).trans
        (congrArg (Option.map _) hdeliver)
      rw [show fatesOf (.delivered relay fate :: steps) = fate :: fatesOf steps from rfl,
        relayRows_of_deliver hdeliver' rows ids]
      rcases answer with error | _ | event
      · obtain ⟨rfl, rfl⟩ := hgoes
        obtain ⟨-, rfl, rfl⟩ := StandsAt.settled hu htail hlater ht
        exact ⟨_, _, rfl, rfl, List.append_nil _⟩
      · obtain ⟨rfl, rfl⟩ := hgoes
        obtain ⟨notices, r, hrest, hends⟩ := ih hu htail hlater
        refine ⟨.attempted row :: notices, r, ?_, ?_⟩
        · rw [Effect.ofExcept_ok_bind]
          exact congrArg (Option.map _) hrest
        · rw [List.map_cons, List.append_cons]
          exact hends
      · rw [Effect.ofExcept_ok_bind, relayRest_of_settles (hsettles event)]
        obtain ⟨rfl, rfl⟩ := hgoes
        cases hreport : leftBehind event with
        | error error =>
            simp only [hreport] at hu
            obtain ⟨-, rfl, rfl⟩ := StandsAt.settled hu htail hlater ht
            exact ⟨_, _, rfl, rfl, List.append_nil _⟩
        | ok report =>
            simp only [hreport, hhook] at hu
            cases hsome : hook.isSome with
            | false =>
                rw [if_neg (by simp [hsome])] at hu
                obtain ⟨notices, r, hrest, hends⟩ := @ih u ids
                  (written ++ [.cycle (.attempted row)] ++ [.cycle (.reported event report)]) _
                  (by rw [List.append_assoc _ [_]]; exact hu) htail hlater
                refine ⟨.attempted row :: .reported event report :: notices, r, ?_, ?_⟩
                · show Option.map _ (Option.map _ (relayRows _ _ _ _ (u.driver, _) _)) = _
                  rw [hrest]
                  rfl
                · exact show CycleEnds steps _ outcome l r by simpa using hends
            -- the hook is awaited, so the loop takes a turn of its own before the next row
            | true =>
                rw [if_pos hsome] at hu
                obtain ⟨v, rest, rfl, hv, hdriver, htail, hlater⟩ :=
                  StandsAt.told hu htail hlater ht
                obtain ⟨notices, r, hrest, hends⟩ := @ih v ids
                  (written ++ [.cycle (.attempted row)] ++
                    [.cycle (.reported event report), .cycle (.told event)]) rest hv htail hlater
                refine ⟨.attempted row :: .reported event report :: .told event :: notices,
                  r, ?_, ?_⟩
                · rw [hdriver] at hrest
                  show Option.map _ (Option.map _ (relayRows _ _ _ _ (u.driver, _) _)) = _
                  rw [show fatesOf (.own relay (.cycle .told) :: rest) =
                    fatesOf rest from rfl, hrest]
                  rfl
                · exact show CycleEnds rest _ outcome l r by simpa using hends

/-- **A cycle that runs alone is `runRelayCycle`**: of every run of a cycle whose turns come one
after the other, what the loop writes is what `runRelayCycle` writes over the rows it claimed, with
the driver and the mark answering as they did, and it settles the same way.  The claim itself may
fail. -/
theorem cycle_of_effect {hook : LeftBehindHook} (hhook : hooked relay = hook.isSome)
    (hsettles : ∀ event, HookSettles hook event) {steps : List (LoopsStep ρ φ)}
    {outcome : Except Thrown Unit} (hs : StandsAt s relay loop .claiming l)
    (hturns : ∀ step ∈ steps, step.turnOf relay)
    (hrun : (loopsRun K R hooked).exec s steps = some t)
    (ht : StandsAt t relay loop (.settled outcome) l') :
    (∃ error, steps = [.own relay (.cycle (.claimed (.error error)))] ∧ outcome = .error error ∧
      l' = l) ∨
    ∃ ids claimed notices, steps.head? = some (.claimed relay ids) ∧
      R.claim relay ids = some claimed ∧
      runRelayCycle K.enqueueEach (R.config relay) hook (fun _ => markAnswer steps) claimed
        (s.driver, callFates (R.config relay) claimed (fatesOf steps)) = some (notices, outcome) ∧
      l' = l ++ .claimed claimed :: notices.map .cycle := by
  obtain ⟨step, rest, u, act, cycle, written, rfl, hacts, hgoes, hu, htail, hlater⟩ :=
    hs.taken (by rintro ⟨⟩) hturns hrun ht
  generalize hdriver : u.driver = d at hacts
  cases hacts with
  | marked => cases hgoes
  | own hown =>
      cases act with
      | claimed answer =>
          cases answer with
          | ok rows => cases hown
          | error error =>
              obtain ⟨rfl, rfl⟩ := hgoes
              obtain ⟨rfl, rfl, rfl⟩ := StandsAt.settled hu htail hlater ht
              exact .inl ⟨error, rfl, rfl, List.append_nil _⟩
      | _ => cases hgoes
  | @claimed _ ids claimed hclaimed =>
      obtain ⟨rfl, rfl⟩ := hgoes
      have hrows : StandsAt u relay loop (CycleStage.next claimed []).1
          (l ++ [.claimed claimed] ++ (CycleStage.next claimed []).2) := by
        rw [List.append_assoc]
        exact hu
      obtain ⟨notices, r, hrelay, hends⟩ :=
        relayRows_of_turns hhook hsettles hrows htail hlater ht
      rw [hdriver] at hrelay
      refine .inr ⟨ids, claimed, ?_⟩
      have hcycle : runRelayCycle K.enqueueEach (R.config relay) hook (fun _ => markAnswer rest)
          claimed (s.driver, callFates (R.config relay) claimed (fatesOf rest)) =
          Effect.bind (some (notices, r)) fun p =>
            if p.1.length = 0 then pure ()
            else Effect.emit (.marked p.1) >>= fun _ => Effect.ofExcept (markAnswer rest) := by
        rw [← hrelay]
        rfl
      rcases r with error | ⟨delivered, d'⟩
      · obtain ⟨rfl, rfl⟩ := hends
        exact ⟨notices, rfl, hclaimed, hcycle, by simp⟩
      · rcases hends with ⟨rfl, rfl, rfl⟩ | ⟨hsome, rfl, rfl⟩
        · refine ⟨notices, rfl, hclaimed, hcycle.trans ?_, by simp⟩
          exact congrArg (fun l => some (l, Except.ok ())) (List.append_nil notices)
        · refine ⟨notices ++ [.marked delivered], rfl, hclaimed, hcycle.trans ?_, by simp⟩
          have hlength : ¬ delivered.length = 0 := fun h => hsome (List.length_eq_zero_iff.1 h)
          simp only [Effect.bind, if_neg hlength]
          rfl

end

/-! ### A loop over a memory driver -/

section

variable {K : KeepingDriver δ φ} {R : Relaying ι ρ} {s : RelayLoops δ ι ρ}
variable {relay : ρ} {loop : RelayLoop} {stage stage' : CycleStage} {l l' : List LoopNotice}

/-- A cycle takes a turn. -/
theorem StandsAt.turn (hooked : ρ → Bool) (h : StandsAt s relay loop stage l) (act : CycleAct)
    (hturn : stage.step (hooked relay) act = some (some stage', l')) :
    ∃ t, s.act hooked relay (.cycle act) = some t ∧ t.driver = s.driver ∧ t.marked = s.marked ∧
      StandsAt t relay loop stage' (l ++ l') := by
  let turned : RelayLoop := { loop with cycle := some stage', notices := loop.notices ++ (l ++ l') }
  refine ⟨s.put relay (some turned), act_eq_some_iff.2 ⟨_, turned, h, ?_, rfl⟩, rfl, rfl, ?_⟩
  · simp [relayLoop, hturn, turned]
  · exact Function.update_self _ _ _

/-- The delivery of a row settles. -/
theorem StandsAt.delivered (hooked : ρ → Bool) {row : ClaimedEnvelope}
    {rows : List ClaimedEnvelope} {ids : List String}
    (h : StandsAt s relay loop (.delivering row rows ids) l) {fate : φ}
    {answer : Except Thrown (Option LeftBehindEvent)} {d : δ}
    (hdeliver : deliver (K.enqueue fate) (R.config relay) row s.driver = some (answer, d))
    (hturn : (CycleStage.delivering row rows ids).step (hooked relay) (.delivered answer) =
      some (some stage', l')) :
    ∃ t, loopsRun K R hooked s (.delivered relay fate) = some t ∧ t.driver = d ∧
      StandsAt t relay loop stage' (l ++ l') := by
  obtain ⟨t, hact, -, -, hstands⟩ := h.turn hooked _ hturn
  have hcycle : (s.loops relay).bind RelayLoop.cycle = some (.delivering row rows ids) := by
    rw [show s.loops relay = _ from h]
    rfl
  exact ⟨{ t with driver := d }, by simp [loopsRun, hcycle, hdeliver, hact], rfl, hstands⟩

end

end

/-- The row `1` of one outbox. -/
def firstRow : ClaimedEnvelope := ⟨"1", rowEnvelope "first"⟩

theorem prepare_firstRow :
    prepare (oneOutbox.config false) firstRow = some (.ok (rowRequest "first")) :=
      prepare_row "first"

theorem deliver_firstRow (d : {m : MemoryDriver // LineInv m}) : ∃ d',
    deliver (memoryKeeper.enqueue .answered) (oneOutbox.config false) firstRow d =
      some (.ok none, d') := by
  obtain ⟨id, hid⟩ := memoryKeeper.answers d (rowRequest "first") (takes_row "first") rfl
  rcases hcall : memoryKeeper.enqueue .answered d (rowRequest "first") with ⟨answer, d'⟩
  have hanswer : (memoryKeeper.enqueue .answered d (rowRequest "first")).1 = .ok id := hid
  rw [hcall] at hanswer
  obtain rfl : answer = .ok id := hanswer
  exact ⟨d', by simp only [deliver, prepare_firstRow, hcall, Option.map_some]⟩

/-- The event of the row when its call is lost. -/
def lostEvent : LeftBehindEvent := ⟨"1", "invoice.line", .driverFailed, lostError⟩

theorem deliver_lostRow (d : {m : MemoryDriver // LineInv m}) :
    deliver (memoryKeeper.enqueue .lostBefore) (oneOutbox.config false) firstRow d =
      some (.ok (some lostEvent), d) := by
  simp only [deliver, prepare_firstRow]
  rfl

/-- The loop of a process that has just started, over a driver nothing was enqueued on. -/
def startedLoop : RelayLoops {m : MemoryDriver // LineInv m} Unit Bool :=
  (RelayLoops.start emptyKeeper).put false (some .start)

/-- A cycle is given one row twice: the first call for it is lost, and the hook is told; the second
is answered, and the row is marked. -/
def loneCycle : List (LoopsStep Bool Fate) :=
  [.claimed false ["1", "1"], .delivered false .lostBefore, .own false (.cycle .told),
    .delivered false .answered, .marked false ["1"] (.ok ())]

/-- A hook that settles. -/
def settlingHook : LeftBehindHook := some fun _ => some (.ok ())

theorem exec_loneCycle : ∃ t l,
    (loopsRun memoryKeeper.toKeepingDriver oneOutbox fun _ => true).exec startedLoop loneCycle =
      some t ∧ StandsAt t false .start (.settled (.ok ())) l ∧
      (.cycle (.marked ["1"])) ∈ l := by
  obtain ⟨s₁, h₁, hd₁, hs₁⟩ : ∃ s₁ : RelayLoops {m : MemoryDriver // LineInv m} Unit Bool,
      loopsRun memoryKeeper.toKeepingDriver oneOutbox (fun _ => true) startedLoop
        (.claimed false ["1", "1"]) = some s₁ ∧ s₁.driver = emptyKeeper ∧
      StandsAt s₁ false .start (.delivering firstRow [firstRow] [])
        [.claimed [firstRow, firstRow], .cycle (.attempted firstRow)] := ⟨_, rfl, rfl, rfl⟩
  obtain ⟨report, hreport⟩ : ∃ report, leftBehind lostEvent = .ok report := ⟨_, rfl⟩
  have htelling : (CycleStage.delivering firstRow [firstRow] []).step true
      (.delivered (.ok (some lostEvent))) = some (some (.telling [firstRow] []),
        [.cycle (.reported lostEvent report), .cycle (.told lostEvent)]) := by
    simp [CycleStage.step, CycleStage.report, hreport]
  obtain ⟨s₂, h₂, -, hs₂⟩ := hs₁.delivered (fun _ => true) (deliver_lostRow _) htelling
  obtain ⟨s₃, h₃, -, -, hs₃⟩ := hs₂.turn (fun _ => true) .told rfl
  have htold : loopsRun memoryKeeper.toKeepingDriver oneOutbox (fun _ => true) s₂
      (.own false (.cycle .told)) = some s₃ := h₃
  obtain ⟨d, hdeliver⟩ := deliver_firstRow s₃.driver
  obtain ⟨s₄, h₄, -, hs₄⟩ := hs₃.delivered (fun _ => true) hdeliver rfl
  obtain ⟨s₅, h₅, -, -, hs₅⟩ := hs₄.turn (fun _ => true) (.marked (.ok ())) rfl
  have hmarking : (s₄.loops false).bind RelayLoop.cycle = some (.marking ["1"]) := by
    rw [show s₄.loops false = _ from hs₄]
    rfl
  have hmark : loopsRun memoryKeeper.toKeepingDriver oneOutbox (fun _ => true) s₄
      (.marked false ["1"] (.ok ())) =
        some { s₅ with marked := s₅.marked ++ [((), "1")] } := by
    simp only [loopsRun, hmarking, h₅]
    rfl
  have hrun := Machine.exec_cons_iff.2 ⟨s₁, h₁, Machine.exec_cons_iff.2 ⟨s₂, h₂,
    Machine.exec_cons_iff.2 ⟨s₃, htold, Machine.exec_cons_iff.2 ⟨s₄, h₄,
      Machine.exec_singleton.2 hmark⟩⟩⟩⟩
  exact ⟨_, _, hrun, hs₅, by simp [firstRow]⟩

/-- That cycle is `runRelayCycle` over a driver that loses the first call and answers the second. -/
theorem cycle_of_effect_example : ∃ notices,
    runRelayCycle memoryKeeper.toKeepingDriver.enqueueEach (oneOutbox.config false) settlingHook
      (fun _ => .ok ()) [firstRow, firstRow] (emptyKeeper, [.lostBefore, .answered]) =
        some (notices, .ok ()) ∧ .marked ["1"] ∈ notices := by
  obtain ⟨t, l, hrun, hstands, hmarked⟩ := exec_loneCycle
  have hturns : ∀ step ∈ loneCycle, step.turnOf false := by
    intro step hmem
    simp only [loneCycle, List.mem_cons, List.not_mem_nil, or_false] at hmem
    rcases hmem with rfl | rfl | rfl | rfl | rfl <;> rfl
  have hsettles : ∀ event, HookSettles settlingHook event := by
    intro event hook hhook
    obtain rfl := Option.some.inj hhook
    exact Option.some_ne_none _
  have hcalls : callFates (oneOutbox.config false) [firstRow, firstRow]
      [Fate.lostBefore, .answered] = [.lostBefore, .answered] := by
    simp only [callFates, prepare_firstRow]
  have hstarts : StandsAt startedLoop false .start .claiming [] := rfl
  rcases @cycle_of_effect _ _ _ _ _ memoryKeeper.toKeepingDriver oneOutbox
    (fun _ => true) startedLoop
    t false .start [] l settlingHook rfl hsettles loneCycle _ hstarts hturns hrun hstands with
    ⟨error, heq, -⟩ | ⟨ids, claimed, notices, hhead, hclaim, hcycle, rfl⟩
  · cases heq
  · obtain ⟨-, rfl⟩ := LoopsStep.claimed.inj (Option.some.inj hhead)
    obtain rfl := Option.some.inj hclaim
    refine ⟨notices, ?_, ?_⟩
    · rw [← hcalls]
      exact hcycle
    · simpa using hmarked

/-- A process is given no rows and dies; another is given a row, delivers it and marks it. -/
def deliverFirst : List (LoopsStep Bool Fate) :=
  [.start true, .claimed true [], .crash true, .start false, .claimed false ["1"],
    .delivered false .answered, .marked false ["1"] (.ok ())]

theorem loops_contract_example : ∃ s stored,
    (loopsRun memoryKeeper.toKeepingDriver oneOutbox fun _ => false).exec (.start emptyKeeper)
      deliverFirst = some s ∧ ((), "1") ∈ s.marked ∧
    LoopsContract memoryKeeper.toKeepingDriver oneOutbox (fun _ => false) emptyKeeper s stored := by
  obtain ⟨t, ht, hstands⟩ : ∃ t : RelayLoops {m : MemoryDriver // LineInv m} Unit Bool,
      (loopsRun memoryKeeper.toKeepingDriver oneOutbox fun _ => false).exec (.start emptyKeeper)
        (deliverFirst.take 5) = some t ∧
      StandsAt t false .start (.delivering firstRow [] []) [.claimed [firstRow],
        .cycle (.attempted firstRow)] := ⟨_, rfl, rfl⟩
  obtain ⟨d, hdeliver⟩ := deliver_firstRow t.driver
  obtain ⟨u, hu, -, hmarks⟩ := hstands.delivered (fun _ => false) hdeliver rfl
  obtain ⟨v, hv, -, -, -⟩ := hmarks.turn (fun _ => false) (.marked (.ok ())) rfl
  have hmarking : (u.loops false).bind RelayLoop.cycle = some (.marking ["1"]) := by
    rw [show u.loops false = _ from hmarks]
    rfl
  have hmark : loopsRun memoryKeeper.toKeepingDriver oneOutbox (fun _ => false) u
      (.marked false ["1"] (.ok ())) = some { v with marked := v.marked ++ [((), "1")] } := by
    simp only [loopsRun, hmarking, hv]
    rfl
  have hrun := Machine.exec_append_iff.2 ⟨t, ht, Machine.exec_cons_iff.2 ⟨u, hu,
    Machine.exec_singleton.2 hmark⟩⟩
  obtain ⟨stored, hcontract⟩ := loops_contract (fun _ _ => rfl) (fun job hjob => by cases hjob) hrun
  refine ⟨_, stored, hrun, ?_, hcontract⟩
  exact List.mem_append_right _ (List.mem_singleton.2 rfl)

end Jubs
