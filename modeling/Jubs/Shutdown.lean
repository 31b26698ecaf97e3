/-
**A close that runs out of time, and the deliveries it finds in flight.**

A delivery goes through awaits on a hook, on migrations, on validation, on the flow store and on the
idempotency store before its handler runs, and a signal that `close` can abort exists only from then
on.  `close({ timeoutMs })` stops the consumers, waits for what they took, and when the timeout
expires first it aborts the signal of every delivery that is running its handler and resolves.

Main definitions:

* `Jubs.DispatchStage`, `Jubs.HandedDelivery` — one delivery and where its `dispatch` stands;
* `Jubs.deliveryStep` — what `dispatch`, its timer and a sweep do to one delivery;
* `Jubs.runtimeRun` — the deliveries of a runtime and its `close` as one machine;
* `Jubs.Stopped` — that a running handler body has an aborted signal.

Main results:

* `Jubs.deliveryStep_sound` — a running body is one that `close` can see, or its signal is aborted;
* `Jubs.exists_enters` — a delivery that has not reached its handler still can;
* `Jubs.close_stops_iff` — **an expired close stops every body, from then on, exactly when it finds
  no delivery before its handler**;
* `Jubs.close_misses_starting` — a body that starts after such a close, with no abort in its signal.
-/

import Jubs.Abort
import Jubs.Machine
import Mathlib.Logic.Function.Basic

set_option autoImplicit false

namespace Jubs

/-! ### One delivery -/

/-- Where a delivery stands.  `taken` is held by the consumer and not handed to the runtime yet; the
stages up to `acquiring` are named after what `dispatch` awaits in them. -/
inductive DispatchStage where
  | taken
  | starting
  | migrating
  | validating
  | readingChildren
  | acquiring
  | running
  /-- What follows the handler, or a refusal: the store, the hooks and the dead queue. -/
  | concluding
  | settled
deriving DecidableEq

/-- Whether the handler of a delivery may still start. -/
def DispatchStage.beforeHandler : DispatchStage → Bool
  | .taken | .starting | .migrating | .validating | .readingChildren | .acquiring => true
  | .running | .concluding | .settled => false

/-- The function a handler runs. -/
inductive HandlerBody where
  | idle
  | running
  | ended
deriving DecidableEq

/-- One delivery: its stage, its body, `signal.reason` of its controller, whether its entry is in
the `live` set, and whether its run settled on its timer. -/
structure HandedDelivery where
  definition : JobDefinition
  stage : DispatchStage
  body : HandlerBody
  reason : Option Thrown
  live : Bool
  timedOut : Bool

/-- A delivery the consumer has just taken. -/
def HandedDelivery.fresh (definition : JobDefinition) : HandedDelivery :=
  ⟨definition, .taken, .idle, none, false, false⟩

/-- The await after the one a delivery stands in.  Only a definition with an idempotency key reaches
the store of keys. -/
def DispatchStage.next (definition : JobDefinition) : DispatchStage → Option DispatchStage
  | .taken => some .starting
  | .starting => some .migrating
  | .migrating => some .validating
  | .validating => some .readingChildren
  | .readingChildren => if definition.idempotencyKey.isSome then some .acquiring else none
  | .acquiring | .running | .concluding | .settled => none

/-- The await that `run()` follows. -/
def DispatchStage.last (definition : JobDefinition) : DispatchStage :=
  if definition.idempotencyKey.isSome then .acquiring else .readingChildren

/-- What happens to one delivery. -/
inductive DeliveryStep where
  /-- The await a delivery stands in is answered, and the next one begins. -/
  | passes
  /-- An await before the handler refuses the delivery, or answers it with a kept result. -/
  | leaves
  /-- `run()`: the entry joins `live`, and the handler starts under a signal of its own. -/
  | enters
  | bodyEnds
  /-- The timer of `timeoutMs` fires. -/
  | timeout
  /-- The run settles, and its entry leaves `live`. -/
  | concludes
  | settles
  /-- A cancellation that a sweep found. -/
  | cancelled

/-- `dispatch`, the timer of its handler and the sweeps, for one delivery. -/
def deliveryStep : Machine HandedDelivery DeliveryStep := fun d step =>
  match step with
  | .passes => (d.stage.next d.definition).map fun stage => { d with stage := stage }
  | .leaves => if d.stage.beforeHandler then some { d with stage := .concluding } else none
  | .enters =>
      if d.stage = .last d.definition then
        some { d with stage := .running, body := .running, live := true }
      else none
  | .bodyEnds => if d.body = .running then some { d with body := .ended } else none
  | .timeout =>
      if d.stage = .running then
        d.definition.timeoutMs.map fun timeoutMs =>
          { d with
            reason := abort (handlerTimeoutError d.definition.name timeoutMs) d.reason
            timedOut := true }
      else none
  | .concludes =>
      -- the run settles with its body, or before it on the timer
      if d.stage = .running ∧ (d.body = .ended ∨ d.timedOut = true) then
        some { d with stage := .concluding, live := false }
      else none
  | .settles => if d.stage = .concluding then some { d with stage := .settled } else none
  | .cancelled =>
      if d.body = .idle then none
      else some { d with reason := abort (cancelledError d.definition.name none) d.reason }

/-! ### The runtime -/

/-- The deliveries of a runtime, by the order the consumers took them in, and whether `close` was
called. -/
structure RuntimeState where
  deliveries : ℕ → Option HandedDelivery
  closing : Bool

/-- A runtime that has taken no delivery. -/
def RuntimeState.init : RuntimeState := ⟨fun _ => none, false⟩

/-- One step of a runtime. -/
inductive RuntimeAct where
  | takes (i : ℕ) (definition : JobDefinition)
  | delivery (i : ℕ) (step : DeliveryStep)
  | close
  /-- The timeout of a `close({ timeoutMs })` expires before the consumers have drained. -/
  | expires

/-- The loop of `drainConsumers` over `live`. -/
def HandedDelivery.abortLive (d : HandedDelivery) : HandedDelivery :=
  if d.live then { d with reason := abort (shutdownAbortError d.definition.name none) d.reason }
  else d

/-- **A runtime and its `close`.**  A consumer that is closed takes nothing more. -/
def runtimeRun : Machine RuntimeState RuntimeAct := fun s act =>
  match act with
  | .takes i definition =>
      if s.closing ∨ (s.deliveries i).isSome then none
      else some { s with deliveries := Function.update s.deliveries i (some (.fresh definition)) }
  | .delivery i step =>
      (s.deliveries i).bind fun d => (deliveryStep d step).map fun d' =>
        { s with deliveries := Function.update s.deliveries i (some d') }
  | .close => some { s with closing := true }
  | .expires =>
      if s.closing then some { s with deliveries := fun i => (s.deliveries i).map .abortLive }
      else none

/-- `signal.reason` of a delivery, when its controller was aborted. -/
def RuntimeState.reasonOf (s : RuntimeState) (i : ℕ) : Option Thrown :=
  (s.deliveries i).bind HandedDelivery.reason

/-- A running body has a signal aborted by a shutdown, or for the reason `earlier`. -/
def HandedDelivery.Stopped (earlier : Option Thrown) (d : HandedDelivery) : Prop :=
  d.body = .running →
    ∃ reason, d.reason = some reason ∧
      (reason = shutdownAbortError d.definition.name none ∨ earlier = some reason)

/-- Every running body of a runtime has a signal aborted by a shutdown, or for the reason it had in
`s` already. -/
def Stopped (s t : RuntimeState) : Prop :=
  ∀ i d, t.deliveries i = some d → d.Stopped (s.reasonOf i)

/-! ### What one delivery can do -/

/-- **What a delivery keeps**: before its handler it has neither a body nor an entry, and a body
that runs has an entry or an aborted signal. -/
structure HandedDelivery.Sound (d : HandedDelivery) : Prop where
  before : d.stage.beforeHandler = true → d.body = .idle ∧ d.reason = none ∧ d.live = false
  running : d.body = .running → d.live = true ∨ d.reason.isSome = true
  lost : d.timedOut = true → d.reason.isSome = true
  keyed : d.stage = .acquiring → d.definition.idempotencyKey.isSome = true

theorem HandedDelivery.fresh_sound (definition : JobDefinition) : (fresh definition).Sound where
  before _ := ⟨rfl, rfl, rfl⟩
  running h := by cases h
  lost h := by cases h
  keyed h := by cases h

@[simp] theorem isSome_abort (reason : Thrown) (first : Option Thrown) :
    (abort reason first).isSome = true := by
  cases first <;> rfl

/-- An aborted signal keeps its reason. -/
theorem abort_of_some {reason first : Thrown} {signal : Option Thrown} (h : signal = some first) :
    abort reason signal = some first := by
  rw [h]
  rfl

theorem beforeHandler_last (definition : JobDefinition) :
    (DispatchStage.last definition).beforeHandler = true := by
  unfold DispatchStage.last
  split <;> rfl

/-- An await is passed before the handler only. -/
theorem beforeHandler_of_next {definition : JobDefinition} {stage stage' : DispatchStage}
    (h : stage.next definition = some stage') : stage.beforeHandler = true := by
  cases stage with
  | running => cases h
  | concluding => cases h
  | settled => cases h
  | _ => rfl

/-- Only a definition with an idempotency key reaches the store of keys. -/
theorem keyed_of_next {definition : JobDefinition} {stage : DispatchStage}
    (h : stage.next definition = some .acquiring) : definition.idempotencyKey.isSome = true := by
  cases stage with
  | readingChildren =>
      simp only [DispatchStage.next] at h
      split at h
      · assumption
      · cases h
  | _ => cases h

/-- **A running body is one that `close` can see, or its signal is aborted.** -/
theorem deliveryStep_sound {d d' : HandedDelivery} {step : DeliveryStep} (h : d.Sound)
    (hstep : deliveryStep d step = some d') : d'.Sound := by
  cases step with
  | passes =>
      obtain ⟨stage, hstage, rfl⟩ := Option.map_eq_some_iff.1 hstep
      have hbefore : d.stage.beforeHandler = true := beforeHandler_of_next hstage
      refine ⟨fun _ => h.before hbefore, h.running, h.lost, fun hacquiring => ?_⟩
      obtain rfl : stage = .acquiring := hacquiring
      exact keyed_of_next hstage
  | leaves =>
      simp only [deliveryStep] at hstep
      split at hstep
      · cases hstep
        exact ⟨fun h => (by cases h), h.running, h.lost, fun h => (by cases h)⟩
      · cases hstep
  | enters =>
      simp only [deliveryStep] at hstep
      split at hstep
      · cases hstep
        exact ⟨fun h => (by cases h), fun _ => Or.inl rfl, h.lost, fun h => (by cases h)⟩
      · cases hstep
  | bodyEnds =>
      simp only [deliveryStep] at hstep
      split at hstep
      · rename_i hbody
        cases hstep
        refine ⟨fun hbefore => ?_, fun h => (by cases h), h.lost, h.keyed⟩
        have hidle : d.body = .idle := (h.before hbefore).1
        rw [hbody] at hidle
        cases hidle
      · cases hstep
  | timeout =>
      simp only [deliveryStep] at hstep
      split at hstep
      · rename_i hstage
        obtain ⟨timeoutMs, -, rfl⟩ := Option.map_eq_some_iff.1 hstep
        refine ⟨fun hbefore => ?_, fun _ => Or.inr ?_, fun _ => ?_, h.keyed⟩
        · rw [show d.stage = .running from hstage] at hbefore
          cases hbefore
        · exact isSome_abort _ _
        · exact isSome_abort _ _
      · cases hstep
  | concludes =>
      simp only [deliveryStep] at hstep
      split at hstep
      · rename_i hopen
        cases hstep
        refine ⟨fun h => (by cases h), fun hbody => Or.inr ?_, h.lost, fun h => (by cases h)⟩
        -- a body that outlives its run lost it to the timer, which aborted the signal
        rcases hopen.2 with hended | htimedOut
        · rw [show d.body = .running from hbody] at hended
          cases hended
        · exact h.lost htimedOut
      · cases hstep
  | settles =>
      simp only [deliveryStep] at hstep
      split at hstep
      · cases hstep
        exact ⟨fun h => (by cases h), h.running, h.lost, fun h => (by cases h)⟩
      · cases hstep
  | cancelled =>
      simp only [deliveryStep] at hstep
      split at hstep
      · cases hstep
      · rename_i hbody
        cases hstep
        refine ⟨fun hbefore => absurd (h.before hbefore).1 hbody, fun _ => Or.inr ?_, fun _ => ?_,
          h.keyed⟩
        · exact isSome_abort _ _
        · exact isSome_abort _ _

/-- A delivery past its handler's start, whose running body is stopped. -/
def HandedDelivery.Covered (earlier : Option Thrown) (d : HandedDelivery) : Prop :=
  d.stage.beforeHandler = false ∧ d.Stopped earlier

/-- A stopped body stays stopped: a signal keeps its reason, and nothing starts a body again. -/
theorem deliveryStep_covered {d d' : HandedDelivery} {step : DeliveryStep} {earlier : Option Thrown}
    (h : d.Covered earlier) (hstep : deliveryStep d step = some d') : d'.Covered earlier := by
  obtain ⟨hstage, hstopped⟩ := h
  cases step with
  | passes =>
      obtain ⟨stage, hnext, -⟩ := Option.map_eq_some_iff.1 hstep
      rw [beforeHandler_of_next hnext] at hstage
      cases hstage
  | leaves => simp [deliveryStep, hstage] at hstep
  | enters =>
      simp only [deliveryStep] at hstep
      split at hstep
      · rename_i hlast
        rw [hlast, beforeHandler_last] at hstage
        cases hstage
      · cases hstep
  | bodyEnds =>
      simp only [deliveryStep] at hstep
      split at hstep
      · cases hstep
        exact ⟨hstage, fun h => (by cases h)⟩
      · cases hstep
  | timeout =>
      simp only [deliveryStep] at hstep
      split at hstep
      · obtain ⟨timeoutMs, -, rfl⟩ := Option.map_eq_some_iff.1 hstep
        refine ⟨hstage, fun hbody => ?_⟩
        obtain ⟨reason, hreason, horigin⟩ := hstopped hbody
        exact ⟨reason, abort_of_some hreason, horigin⟩
      · cases hstep
  | concludes =>
      simp only [deliveryStep] at hstep
      split at hstep
      · cases hstep
        exact ⟨rfl, hstopped⟩
      · cases hstep
  | settles =>
      simp only [deliveryStep] at hstep
      split at hstep
      · cases hstep
        exact ⟨rfl, hstopped⟩
      · cases hstep
  | cancelled =>
      simp only [deliveryStep] at hstep
      split at hstep
      · cases hstep
      · cases hstep
        refine ⟨hstage, fun hbody => ?_⟩
        obtain ⟨reason, hreason, horigin⟩ := hstopped hbody
        exact ⟨reason, abort_of_some hreason, horigin⟩

/-- The loop of `close` leaves a stopped body stopped. -/
theorem HandedDelivery.Covered.abortLive {d : HandedDelivery} {earlier : Option Thrown}
    (h : d.Covered earlier) : d.abortLive.Covered earlier := by
  unfold HandedDelivery.abortLive
  split
  · refine ⟨h.1, fun hbody => ?_⟩
    obtain ⟨reason, hreason, horigin⟩ := h.2 hbody
    exact ⟨reason, abort_of_some hreason, horigin⟩
  · exact h

/-- **The loop of `close` stops every body it can find.** -/
theorem HandedDelivery.Sound.covered_abortLive {d : HandedDelivery} (h : d.Sound)
    (hstage : d.stage.beforeHandler = false) : d.abortLive.Covered d.reason := by
  unfold HandedDelivery.abortLive
  split
  · refine ⟨hstage, fun _ => ?_⟩
    cases hreason : d.reason with
    | none => exact ⟨_, rfl, Or.inl rfl⟩
    | some reason => exact ⟨reason, rfl, Or.inr rfl⟩
  · rename_i hlive
    refine ⟨hstage, fun hbody => ?_⟩
    obtain ⟨reason, hreason⟩ : ∃ reason, d.reason = some reason :=
      Option.isSome_iff_exists.1 ((h.running hbody).resolve_left hlive)
    exact ⟨reason, hreason, Or.inr hreason⟩

theorem HandedDelivery.Sound.abortLive {d : HandedDelivery} (h : d.Sound) : d.abortLive.Sound := by
  unfold HandedDelivery.abortLive
  split
  · rename_i hlive
    refine ⟨fun hbefore => ?_, fun _ => Or.inl hlive, fun _ => isSome_abort _ _, h.keyed⟩
    have hnone : d.live = false := (h.before hbefore).2.2
    rw [hlive] at hnone
    cases hnone
  · exact h

/-! ### A delivery that has not reached its handler still can -/

/-- Some answers lead a delivery from the await `stage` to the last one before its handler. -/
def LeadsToLast (d : HandedDelivery) (stage : DispatchStage) : Prop :=
  ∃ l, deliveryStep.exec { d with stage := stage } l = some { d with stage := .last d.definition }

theorem LeadsToLast.of_next {d : HandedDelivery} {stage stage' : DispatchStage}
    (hnext : stage.next d.definition = some stage') (h : LeadsToLast d stage') :
    LeadsToLast d stage := by
  obtain ⟨l, hl⟩ := h
  refine ⟨.passes :: l, Machine.exec_cons_iff.2 ⟨_, ?_, hl⟩⟩
  simp [deliveryStep, hnext]

/-- The await a delivery stands in leads to the last one before its handler. -/
theorem HandedDelivery.Sound.leadsToLast {d : HandedDelivery} (h : d.Sound)
    (hbefore : d.stage.beforeHandler = true) : LeadsToLast d d.stage := by
  have hreading : LeadsToLast d .readingChildren := by
    by_cases hkey : d.definition.idempotencyKey.isSome = true
    · have hnext : DispatchStage.readingChildren.next d.definition = some .acquiring := by
        simp [DispatchStage.next, hkey]
      exact .of_next hnext ⟨[], by simp [DispatchStage.last, hkey]⟩
    · exact ⟨[], by simp [DispatchStage.last, hkey]⟩
  have hvalidating : LeadsToLast d .validating := .of_next rfl hreading
  have hmigrating : LeadsToLast d .migrating := .of_next rfl hvalidating
  have hstarting : LeadsToLast d .starting := .of_next rfl hmigrating
  cases hstage : d.stage with
  | taken => exact .of_next rfl hstarting
  | starting => exact hstarting
  | migrating => exact hmigrating
  | validating => exact hvalidating
  | readingChildren => exact hreading
  | acquiring => exact ⟨[], by simp [DispatchStage.last, h.keyed hstage]⟩
  | _ =>
      rw [hstage] at hbefore
      cases hbefore

/-- **A delivery that has not reached its handler still can**, under a signal nothing aborted. -/
theorem HandedDelivery.Sound.exists_enters {d : HandedDelivery} (h : d.Sound)
    (hbefore : d.stage.beforeHandler = true) :
    ∃ l d', deliveryStep.exec d l = some d' ∧ d'.body = .running ∧ d'.reason = none := by
  obtain ⟨l, hl⟩ := h.leadsToLast hbefore
  refine ⟨l ++ [.enters], { d with stage := .running, body := .running, live := true }, ?_, rfl,
    (h.before hbefore).2.1⟩
  exact Machine.exec_append_iff.2 ⟨_, hl, Machine.exec_singleton.2 (if_pos rfl)⟩

/-! ### The runtime -/

/-- Every delivery of a runtime is sound. -/
def RuntimeState.Sound (s : RuntimeState) : Prop := ∀ i d, s.deliveries i = some d → d.Sound

/-- A closed runtime, whose deliveries have all started their handlers, each running body
stopped. -/
structure RuntimeState.Covered (earlier : ℕ → Option Thrown) (s : RuntimeState) : Prop where
  closing : s.closing = true
  deliveries : ∀ i d, s.deliveries i = some d → d.Covered (earlier i)

/-- What a property of every delivery needs of a step on one of them. -/
theorem forall_update {P : ℕ → HandedDelivery → Prop} {deliveries : ℕ → Option HandedDelivery}
    (h : ∀ i d, deliveries i = some d → P i d) {i : ℕ} {d' : HandedDelivery} (hd' : P i d') :
    ∀ j d, Function.update deliveries i (some d') j = some d → P j d := by
  intro j d hj
  by_cases hji : j = i
  · subst hji
    rw [Function.update_self] at hj
    cases hj
    exact hd'
  · rw [Function.update_of_ne hji] at hj
    exact h j d hj

theorem runtimeRun_sound {s t : RuntimeState} {a : RuntimeAct} (h : s.Sound)
    (hstep : runtimeRun s a = some t) : t.Sound := by
  cases a with
  | takes i definition =>
      simp only [runtimeRun] at hstep
      split at hstep
      · cases hstep
      · cases hstep
        exact forall_update h (HandedDelivery.fresh_sound definition)
  | delivery i step =>
      obtain ⟨d, hd, hstep⟩ := Option.bind_eq_some_iff.1 hstep
      obtain ⟨d', hd', rfl⟩ := Option.map_eq_some_iff.1 hstep
      exact forall_update h (deliveryStep_sound (h i d hd) hd')
  | close =>
      cases hstep
      exact h
  | expires =>
      simp only [runtimeRun] at hstep
      split at hstep
      · cases hstep
        intro i d hi
        obtain ⟨d, hd, rfl⟩ := Option.map_eq_some_iff.1 hi
        exact (h i d hd).abortLive
      · cases hstep

/-- **A runtime that is stopped stays stopped**, also through another expired close. -/
theorem runtimeRun_covered {s t : RuntimeState} {a : RuntimeAct} {earlier : ℕ → Option Thrown}
    (h : s.Covered earlier) (hstep : runtimeRun s a = some t) : t.Covered earlier := by
  cases a with
  | takes i definition => simp [runtimeRun, h.closing] at hstep
  | delivery i step =>
      obtain ⟨d, hd, hstep⟩ := Option.bind_eq_some_iff.1 hstep
      obtain ⟨d', hd', rfl⟩ := Option.map_eq_some_iff.1 hstep
      refine ⟨h.closing, ?_⟩
      exact forall_update (P := fun i d => d.Covered (earlier i)) h.deliveries
        (deliveryStep_covered (h.deliveries i d hd) hd')
  | close =>
      cases hstep
      exact ⟨rfl, h.deliveries⟩
  | expires =>
      simp only [runtimeRun] at hstep
      split at hstep
      · cases hstep
        refine ⟨h.closing, fun i d hi => ?_⟩
        obtain ⟨d, hd, rfl⟩ := Option.map_eq_some_iff.1 hi
        exact (h.deliveries i d hd).abortLive
      · cases hstep

/-- The steps of one delivery, as steps of the runtime. -/
theorem exec_delivery {i : ℕ} {l : List DeliveryStep} {s : RuntimeState} {d d' : HandedDelivery}
    (hd : s.deliveries i = some d) (h : deliveryStep.exec d l = some d') :
    ∃ t, runtimeRun.exec s (l.map (RuntimeAct.delivery i)) = some t ∧ t.deliveries i = some d' := by
  induction l generalizing s d with
  | nil =>
      obtain rfl := Option.some_inj.1 h
      exact ⟨s, rfl, hd⟩
  | cons step l ih =>
      obtain ⟨e, he, hrest⟩ := Machine.exec_cons_iff.1 h
      have hstep : runtimeRun s (.delivery i step) =
          some { s with deliveries := Function.update s.deliveries i (some e) } := by
        simp [runtimeRun, hd, he]
      have hi : Function.update s.deliveries i (some e) i = some e := Function.update_self ..
      obtain ⟨t, ht, hti⟩ :=
        ih (s := { s with deliveries := Function.update s.deliveries i (some e) }) hi hrest
      exact ⟨t, Machine.exec_cons_iff.2 ⟨_, hstep, ht⟩, hti⟩

/-- What an expired close leaves of a delivery. -/
theorem deliveries_of_expires {s t : RuntimeState} (h : runtimeRun s .expires = some t) :
    s.closing = true ∧ t.closing = true ∧ ∀ i, t.deliveries i =
      (s.deliveries i).map .abortLive := by
  simp only [runtimeRun] at h
  split at h
  · rename_i hclosing
    cases h
    exact ⟨hclosing, hclosing, fun i => rfl⟩
  · cases h

/-- **When an expired close stops the runtime.**  From the moment a `close({ timeoutMs })` resolves
by expiry, every body that runs has a signal aborted by a shutdown or for an earlier reason, exactly
when that close found no delivery before its handler. -/
theorem close_stops_iff {l : List RuntimeAct} {s t : RuntimeState}
    (h : runtimeRun.exec .init l = some s) (hexpires : runtimeRun s .expires = some t) :
    (∀ l' u, runtimeRun.exec t l' = some u → Stopped s u) ↔
      ∀ i d, s.deliveries i = some d → d.stage.beforeHandler = false := by
  have hsound : s.Sound :=
    Machine.exec_invariant (fun _ _ _ => runtimeRun_sound) h (fun _ _ hi => by cases hi)
  obtain ⟨-, hclosing, hdeliveries⟩ := deliveries_of_expires hexpires
  constructor
  · intro hstopped i d hi
    by_contra hbefore
    have hbefore : d.stage.beforeHandler = true := by simpa using hbefore
    -- the loop of `close` has no entry to abort, and the delivery goes on to its handler
    have hunseen : d.abortLive = d := if_neg (by simp [((hsound i d hi).before hbefore).2.2])
    have ht : t.deliveries i = some d := by rw [hdeliveries, hi, Option.map_some, hunseen]
    obtain ⟨steps, d', hd', hbody, hreason⟩ := (hsound i d hi).exists_enters hbefore
    obtain ⟨u, hu, hui⟩ := exec_delivery ht hd'
    obtain ⟨reason, hsome, -⟩ := hstopped _ u hu i d' hui hbody
    rw [hreason] at hsome
    cases hsome
  · intro hstarted l' u hu i d hi
    have hcovered : t.Covered s.reasonOf := by
      refine ⟨hclosing, fun j e hj => ?_⟩
      rw [hdeliveries] at hj
      obtain ⟨e, he, rfl⟩ := Option.map_eq_some_iff.1 hj
      have hreason : s.reasonOf j = e.reason := by simp [RuntimeState.reasonOf, he]
      rw [hreason]
      exact (hsound j e he).covered_abortLive (hstarted j e he)
    exact ((Machine.exec_invariant (fun _ _ _ => runtimeRun_covered) hu hcovered).deliveries i d
      hi).2

/-- A job guarded by an idempotency key, whose handler is given no deadline. -/
def chargeDefinition : JobDefinition where
  name := "invoice.charge"
  queue := "billing"
  payload := ⟨fun v => .ok (.value v)⟩
  result := none
  awaits := []
  version := none
  migrations := []
  delivery := none
  schedule := false
  idempotencyKey := some fun _ => .ok "7"
  timeoutMs := none

/-- The steps of a delivery up to its await on the store of keys. -/
def upToStore (i : ℕ) : List RuntimeAct :=
  .takes i chargeDefinition :: List.replicate 5 (.delivery i .passes)

/-- A delivery is running its handler when `close` is called. -/
def closedOverHandler : List RuntimeAct := upToStore 0 ++ [.delivery 0 .enters, .close]

/-- Another delivery waits on the store of keys when `close` is called. -/
def closedOverStore : List RuntimeAct := upToStore 0 ++ upToStore 1 ++ [.delivery 0 .enters, .close]

/-- An expired close stops the handler it finds running, whatever follows. -/
theorem close_stops_running :
    ∃ s t, runtimeRun.exec .init closedOverHandler = some s ∧ runtimeRun s .expires = some t ∧
      (∃ d, t.deliveries 0 = some d ∧ d.body = .running) ∧
      ∀ l' u, runtimeRun.exec t l' = some u → Stopped s u := by
  refine ⟨_, _, rfl, rfl, ⟨_, rfl, rfl⟩, ?_⟩
  refine (close_stops_iff (l := closedOverHandler) rfl rfl).2 fun i d hi => ?_
  match i with
  | 0 =>
      cases hi
      rfl
  | i + 1 => cases hi

/-- **A body starts after the close**: the delivery that waited on the store of keys when the
timeout expired runs its handler once the store answers, and nothing ever aborted its signal. -/
theorem close_misses_starting :
    ∃ s t u, runtimeRun.exec .init closedOverStore = some s ∧ runtimeRun s .expires = some t ∧
      runtimeRun.exec t [.delivery 1 .enters] = some u ∧
      (∃ d, u.deliveries 1 = some d ∧ d.body = .running ∧ d.reason = none) ∧ ¬ Stopped s u := by
  refine ⟨_, _, _, rfl, rfl, rfl, ⟨_, rfl, rfl, rfl⟩, fun hstopped => ?_⟩
  obtain ⟨reason, hreason, -⟩ := hstopped 1 _ rfl rfl
  cases hreason

end Jubs
