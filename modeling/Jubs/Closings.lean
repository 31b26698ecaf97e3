/-
**The closes of a runtime.**

`close()` closes every consumer and waits until all of them have drained; `close({ timeoutMs })`
waits no longer than its timeout, and aborts what still runs when it expires.  A runtime may be
closed many times, with a timeout or without, while deliveries go on and the sweeps look for
cancellations.

Main definitions:

* `Jubs.ConsumerStage`, `Jubs.RuntimeClose` — a consumer and its `close`, and one close of the
  runtime;
* `Jubs.Closing`, `Jubs.closingRun` — the deliveries, the consumers, the sweeps and the closes as
  one machine;
* `Jubs.ClosingContract` — what holds of them in every state.

Main results:

* `Jubs.closing_contract` — **what a close has done when it settles, and that one with a timeout is
  never stuck**;
* `Jubs.closing_drains` — **a close can drain from every state**, unless a consumer cannot be
  closed.
-/

import Jubs.Shutdown

set_option autoImplicit false

namespace Jubs

/-! ### Closes -/

/-- Where a consumer stands.  Its `close` gives every caller one promise: it takes nothing more, and
has closed once what it took has settled. -/
inductive ConsumerStage where
  | consuming
  | closing
  | closed
  | failed (error : Thrown)

/-- `consumer.close()`. -/
def ConsumerStage.close : ConsumerStage → ConsumerStage
  | .consuming => .closing
  | stage => stage

/-- What the promise of a consumer that could not be closed rejects with. -/
def ConsumerStage.failure : ConsumerStage → Option Thrown
  | .failed error => some error
  | _ => none

/-- Whether a consumer has closed. -/
def ConsumerStage.isClosed : ConsumerStage → Bool
  | .closed => true
  | _ => false

/-- Where a close stands: it waits, or it settled, and one that expired may have reported a consumer
that failed later. -/
inductive CloseStage where
  | draining
  | drained
  | expired (reported : Bool)
  | rejected (error : Thrown)

/-- A close of the runtime, with the first rejection among its consumers. -/
structure RuntimeClose where
  timeoutMs : Option Number
  failure : Option Thrown
  stage : CloseStage

/-- A consumer fails while a close looks on. -/
def RuntimeClose.fail (close : RuntimeClose) (error : Thrown) : RuntimeClose :=
  { close with failure := close.failure.or (some error) }

/-- A runtime with its consumers: the deliveries that have not settled, each with its consumer, the
closes, whether the interval of the sweeps is set, the sweeps in flight, and what was written to the
console. -/
structure Closing where
  runtime : RuntimeState
  handed : List (ℕ × ℕ)
  consumers : List ConsumerStage
  closes : List RuntimeClose
  ticking : Bool
  sweeps : ℕ
  reports : List Thrown

/-- A runtime that has just started, with its consumers. -/
def Closing.start (consumers : ℕ) : Closing :=
  ⟨.init, [], List.replicate consumers .consuming, [], true, 0, []⟩

/-- What happens next. -/
inductive ClosingAct where
  /-- A consumer takes a delivery. -/
  | takes (i k : ℕ) (definition : JobDefinition)
  | delivery (i : ℕ) (step : DeliveryStep)
  /-- The interval fires, and a sweep begins. -/
  | sweeps
  | sweepEnds
  | close (timeoutMs : Option Number)
  /-- A consumer has closed, or could not be closed. -/
  | consumerCloses (k : ℕ)
  | consumerFails (k : ℕ) (error : Thrown)
  /-- The race of a close is over. -/
  | drains (n : ℕ)
  | rejects (n : ℕ)
  | expires (n : ℕ)
  /-- A close that expired is told of a consumer that failed. -/
  | reports (n : ℕ)

namespace Closing

/-- Whether every consumer has closed. -/
def allClosed (s : Closing) : Bool := s.consumers.all ConsumerStage.isClosed

/-- `live.size > 0`. -/
def anyLive (s : Closing) : Bool :=
  s.handed.any fun p => (s.runtime.deliveries p.1).any HandedDelivery.live

/-- A close has gone on, and the `finally` of one that settled clears the interval. -/
def settle (s : Closing) (n : ℕ) (close : RuntimeClose) : Closing :=
  { s with closes := s.closes.set n close, ticking := false }

/-- A step of a delivery.  Only a sweep aborts it for a cancellation. -/
def deliver (s : Closing) (i : ℕ) (step : DeliveryStep) : Option Closing :=
  match step with
  | .cancelled =>
      if s.sweeps = 0 then none
      else (runtimeRun s.runtime (.delivery i .cancelled)).map fun runtime =>
        { s with runtime := runtime }
  | .settles =>
      (runtimeRun s.runtime (.delivery i .settles)).map fun runtime =>
        { s with runtime := runtime, handed := s.handed.filter fun p => p.1 ≠ i }
  | step =>
      (runtimeRun s.runtime (.delivery i step)).map fun runtime => { s with runtime := runtime }

end Closing

/-- **A runtime, its consumers and its closes.** -/
def closingRun : Machine Closing ClosingAct := fun s act =>
  match act with
  | .takes i k definition =>
      match s.consumers[k]? with
      | some .consuming => (runtimeRun s.runtime (.takes i definition)).map fun runtime =>
          { s with runtime := runtime, handed := s.handed ++ [(i, k)] }
      | _ => none
  | .delivery i step => s.deliver i step
  | .sweeps => if s.ticking && s.anyLive then some { s with sweeps := s.sweeps + 1 } else none
  | .sweepEnds => if s.sweeps = 0 then none else some { s with sweeps := s.sweeps - 1 }
  | .close timeoutMs =>
      (runtimeRun s.runtime .close).map fun runtime =>
        { s with
          runtime := runtime
          consumers := s.consumers.map ConsumerStage.close
          closes := s.closes ++
            [⟨timeoutMs, s.consumers.findSome? ConsumerStage.failure, .draining⟩] }
  | .consumerCloses k =>
      match s.consumers[k]? with
      | some .closing =>
          if s.handed.all fun p => p.2 ≠ k then
            some { s with consumers := s.consumers.set k .closed }
          else none
      | _ => none
  | .consumerFails k error =>
      match s.consumers[k]? with
      | some .closing => some { s with
          consumers := s.consumers.set k (.failed error)
          closes := s.closes.map fun close => close.fail error }
      | _ => none
  | .drains n => s.closes[n]?.bind fun close =>
      match close.stage with
      | .draining =>
          if s.allClosed then some (s.settle n { close with stage := .drained }) else none
      | _ => none
  | .rejects n => s.closes[n]?.bind fun close =>
      match close.stage, close.failure with
      | .draining, some error => some (s.settle n { close with stage := .rejected error })
      | _, _ => none
  | .expires n => s.closes[n]?.bind fun close =>
      match close.stage, close.failure, close.timeoutMs with
      | .draining, none, some _ =>
          -- consumers that have all closed settle the race before its timer does
          if s.allClosed then none
          else (runtimeRun s.runtime .expires).map fun runtime =>
            { s.settle n { close with stage := .expired false } with runtime := runtime }
      | _, _, _ => none
  | .reports n => s.closes[n]?.bind fun close =>
      match close.stage, close.failure with
      | .expired false, some error => some { s with
          closes := s.closes.set n { close with stage := .expired true }
          reports := s.reports ++ [error] }
      | _, _ => none

/-! ### One delivery -/

/-- Whether a reason is that of a shutdown. -/
def IsShutdown (reason : Option Thrown) : Prop := ∃ error, reason = some error ∧
    error.cls = some .shutdownAbort

/-- **What a delivery keeps** beside `Sound`: its handler has a body, and past its handler the body
has ended unless the delivery timed out. -/
structure HandedDelivery.InOrder (d : HandedDelivery) : Prop where
  entered : d.stage = .running → d.body ≠ .idle
  after : d.stage = .concluding ∨ d.stage = .settled → d.timedOut = false → d.body ≠ .running

namespace HandedDelivery

variable {d d' : HandedDelivery} {act : DeliveryStep}

theorem InOrder.fresh (definition : JobDefinition) : (HandedDelivery.fresh definition).InOrder where
  entered h := by cases h
  after h := by rcases h with h | h <;> cases h

theorem InOrder.step (h : d.InOrder) (hsound : d.Sound) (hstep : deliveryStep d act = some d') :
    d'.InOrder := by
  cases act with
  | passes =>
      obtain ⟨stage, hstage, rfl⟩ := Option.map_eq_some_iff.1 hstep
      have hbefore : d.stage.beforeHandler = true := beforeHandler_of_next hstage
      have hnext : stage.beforeHandler = true := by
        revert hstage
        cases d.stage <;> simp only [DispatchStage.next] <;> intro hstage
        all_goals first
          | (cases hstage; rfl)
          | (split_ifs at hstage; cases hstage; rfl)
          | cases hstage
      constructor
      · intro hrunning
        rw [show stage = .running from hrunning] at hnext
        cases hnext
      · rintro (hdone | hdone)
        · rw [show stage = .concluding from hdone] at hnext
          cases hnext
        · rw [show stage = .settled from hdone] at hnext
          cases hnext
  | leaves =>
      simp only [deliveryStep] at hstep
      split_ifs at hstep with hbefore
      cases hstep
      refine ⟨fun h => (by cases h), fun _ _ hbody => ?_⟩
      have hidle := (hsound.before hbefore).1
      rw [show d.body = .running from hbody] at hidle
      cases hidle
  | enters =>
      simp only [deliveryStep] at hstep
      split_ifs at hstep
      cases hstep
      exact ⟨fun _ h => (by cases h), fun h => by rcases h with h | h <;> cases h⟩
  | bodyEnds =>
      simp only [deliveryStep] at hstep
      split_ifs at hstep
      cases hstep
      exact ⟨fun _ h => (by cases h), fun _ _ h => by cases h⟩
  | timeout =>
      simp only [deliveryStep] at hstep
      split_ifs at hstep with hrunning
      obtain ⟨timeoutMs, -, rfl⟩ := Option.map_eq_some_iff.1 hstep
      exact ⟨h.entered, fun _ h => by cases h⟩
  | concludes =>
      simp only [deliveryStep] at hstep
      split_ifs at hstep with hopen
      cases hstep
      refine ⟨fun h => (by cases h), fun _ hintime hbody => ?_⟩
      rcases hopen.2 with hended | htimedOut
      · rw [show d.body = .running from hbody] at hended
        cases hended
      · rw [show d.timedOut = false from hintime] at htimedOut
        cases htimedOut
  | settles =>
      simp only [deliveryStep] at hstep
      split_ifs at hstep with hconcluding
      cases hstep
      exact ⟨fun h => (by cases h), fun _ => h.after (.inl hconcluding)⟩
  | cancelled =>
      simp only [deliveryStep] at hstep
      split_ifs at hstep
      cases hstep
      exact ⟨h.entered, h.after⟩

theorem InOrder.abortLive (h : d.InOrder) : d.abortLive.InOrder := by
  unfold HandedDelivery.abortLive
  split_ifs
  · exact ⟨h.entered, h.after⟩
  · exact h

/-- A delivery settles by the step that says so, and by no other. -/
theorem stage_of_step (hstep : deliveryStep d act = some d') :
    act = .settles ∧ d.stage = .concluding ∧ d'.stage = .settled ∨
      act ≠ .settles ∧ (d'.stage = .settled ↔ d.stage = .settled) := by
  cases act with
  | passes =>
      obtain ⟨stage, hstage, rfl⟩ := Option.map_eq_some_iff.1 hstep
      refine .inr ⟨by simp, ?_⟩
      revert hstage
      cases d.stage <;> simp only [DispatchStage.next] <;> intro hstage
      all_goals first
        | (cases hstage; simp)
        | (split_ifs at hstage; cases hstage; simp)
        | cases hstage
  | leaves =>
      simp only [deliveryStep] at hstep
      split_ifs at hstep with hbefore
      cases hstep
      refine .inr ⟨by simp, ?_⟩
      constructor
      · intro h
        cases h
      · intro h
        rw [h] at hbefore
        cases hbefore
  | enters =>
      simp only [deliveryStep] at hstep
      split_ifs at hstep with hlast
      cases hstep
      refine .inr ⟨by simp, ?_⟩
      constructor
      · intro h
        cases h
      · intro h
        have hbefore := beforeHandler_last d.definition
        rw [← hlast, h] at hbefore
        cases hbefore
  | concludes =>
      simp only [deliveryStep] at hstep
      split_ifs at hstep with hopen
      cases hstep
      refine .inr ⟨by simp, ?_⟩
      simp [hopen.1]
  | settles =>
      simp only [deliveryStep] at hstep
      split_ifs at hstep with hconcluding
      cases hstep
      exact .inl ⟨rfl, hconcluding, rfl⟩
  | bodyEnds | cancelled =>
      simp only [deliveryStep] at hstep
      split_ifs at hstep
      cases hstep
      exact .inr ⟨by simp, Iff.rfl⟩
  | timeout =>
      simp only [deliveryStep] at hstep
      split_ifs at hstep
      obtain ⟨timeoutMs, -, rfl⟩ := Option.map_eq_some_iff.1 hstep
      exact .inr ⟨by simp, Iff.rfl⟩

/-- A reason that is none of a shutdown leaves a signal that was not aborted for one as it was. -/
theorem isShutdown_of_abort {error : Thrown} {reason : Option Thrown}
    (herror : error.cls ≠ some .shutdownAbort) (h : IsShutdown (abort error reason)) :
    IsShutdown reason := by
  cases reason with
  | none =>
      obtain ⟨first, hfirst, hcls⟩ := h
      obtain rfl := Option.some.inj hfirst
      exact absurd hcls herror
  -- a signal keeps the reason it was aborted for first
  | some first => exact h

/-- No step of a delivery is a shutdown. -/
theorem isShutdown_of_step (hstep : deliveryStep d act = some d') (h : IsShutdown d'.reason) :
    IsShutdown d.reason := by
  cases act with
  | passes =>
      obtain ⟨stage, -, rfl⟩ := Option.map_eq_some_iff.1 hstep
      exact h
  | leaves | enters | bodyEnds | concludes | settles =>
      simp only [deliveryStep] at hstep
      split_ifs at hstep
      cases hstep
      exact h
  | timeout =>
      simp only [deliveryStep] at hstep
      split_ifs at hstep
      obtain ⟨timeoutMs, -, rfl⟩ := Option.map_eq_some_iff.1 hstep
      exact isShutdown_of_abort (by simp [handlerTimeoutError, newError, Thrown.cls]) h
  | cancelled =>
      simp only [deliveryStep] at hstep
      split_ifs at hstep
      cases hstep
      exact isShutdown_of_abort (by simp [cancelledError, newError, Thrown.cls]) h

end HandedDelivery

/-! ### What every step keeps -/

variable {s t : Closing}

/-- What holds of the deliveries: those that have not settled are in the hands of their consumers,
and a consumer that has closed has none. -/
structure HandedInv (s : Closing) : Prop where
  sound : s.runtime.Sound
  inOrder : ∀ i d, s.runtime.deliveries i = some d → d.InOrder
  handed : ∀ i, i ∈ s.handed.map Prod.fst ↔
    ∃ d, s.runtime.deliveries i = some d ∧ d.stage ≠ .settled
  owners : ∀ p ∈ s.handed, p.2 < s.consumers.length
  closed : ∀ k, s.consumers[k]? = some .closed → ∀ p ∈ s.handed, p.2 ≠ k

/-- What holds of the closes. -/
structure RuntimeClosesInv (s : Closing) : Prop where
  begun : s.closes ≠ [] → s.runtime.closing = true ∧ ∀ c ∈ s.consumers, c ≠ .consuming
  ticking : s.ticking = true ↔ ∀ close ∈ s.closes, close.stage = .draining
  drained : ∀ close ∈ s.closes, close.stage = .drained → s.allClosed = true
  failure : ∀ close ∈ s.closes, ∀ error, close.failure = some error →
    ConsumerStage.failed error ∈ s.consumers
  told : ∀ close ∈ s.closes, ∀ error, ConsumerStage.failed error ∈ s.consumers →
    close.failure.isSome = true
  rejected : ∀ close ∈ s.closes, ∀ error, close.stage = .rejected error → close.failure = some error
  expired : ∀ close ∈ s.closes, ∀ reported, close.stage = .expired reported →
    close.timeoutMs.isSome = true

/-- Whether some close has expired. -/
def Closing.HasExpired (s : Closing) : Prop :=
  ∃ close ∈ s.closes, ∃ reported, close.stage = .expired reported

/-- What holds of a runtime in every state. -/
structure ClosingInv (s : Closing) : Prop where
  deliveries : HandedInv s
  closes : RuntimeClosesInv s
  shutdown : ∀ i d, s.runtime.deliveries i = some d → IsShutdown d.reason → s.HasExpired

/-- **What a step of a delivery can do.** -/
theorem deliver_cases {i : ℕ} {step : DeliveryStep} (h : s.deliver i step = some t) :
    ∃ d d', s.runtime.deliveries i = some d ∧ deliveryStep d step = some d' ∧
      runtimeRun s.runtime (.delivery i step) = some t.runtime ∧
      t.runtime.deliveries = Function.update s.runtime.deliveries i (some d') ∧
      t.runtime.closing = s.runtime.closing ∧ t.consumers = s.consumers ∧ t.closes = s.closes ∧
      t.ticking = s.ticking ∧
      (step = .settles ∧ t.handed = (s.handed.filter fun p => p.1 ≠ i) ∨
        step ≠ .settles ∧ t.handed = s.handed) := by
  have hcases : ∃ runtime, runtimeRun s.runtime (.delivery i step) = some runtime ∧
      (step = .settles ∧ t = { s with
          runtime := runtime, handed := s.handed.filter fun p => p.1 ≠ i } ∨
        step ≠ .settles ∧ t = { s with runtime := runtime }) := by
    cases step with
    | settles =>
        obtain ⟨runtime, hruntime, rfl⟩ := Option.map_eq_some_iff.1 h
        exact ⟨runtime, hruntime, .inl ⟨rfl, rfl⟩⟩
    | cancelled =>
        simp only [Closing.deliver] at h
        split_ifs at h
        obtain ⟨runtime, hruntime, rfl⟩ := Option.map_eq_some_iff.1 h
        exact ⟨runtime, hruntime, .inr ⟨by simp, rfl⟩⟩
    | passes | leaves | enters | bodyEnds | timeout | concludes =>
        obtain ⟨runtime, hruntime, rfl⟩ := Option.map_eq_some_iff.1 h
        exact ⟨runtime, hruntime, .inr ⟨by simp, rfl⟩⟩
  obtain ⟨runtime, hruntime, hcases⟩ := hcases
  obtain ⟨d, hd, hstep⟩ := Option.bind_eq_some_iff.1 hruntime
  obtain ⟨d', hd', rfl⟩ := Option.map_eq_some_iff.1 hstep
  rcases hcases with ⟨hstep, rfl⟩ | ⟨hstep, rfl⟩
  · exact ⟨d, d', hd, hd', hruntime, rfl, rfl, rfl, rfl, rfl, .inl ⟨hstep, rfl⟩⟩
  · exact ⟨d, d', hd, hd', hruntime, rfl, rfl, rfl, rfl, rfl, .inr ⟨hstep, rfl⟩⟩

namespace HandedInv

theorem start (consumers : ℕ) : HandedInv (.start consumers) := by
  constructor
  · intro i d h
    cases h
  · intro i d h
    cases h
  · intro i
    simp [Closing.start, RuntimeState.init]
  · intro p h
    cases h
  · intro k _ p h
    cases h

theorem deliver (h : HandedInv s) {i : ℕ} {step : DeliveryStep}
    (hstep : s.deliver i step = some t) :
    HandedInv t := by
  obtain ⟨d, d', hd, hd', hruntime, hdeliveries, -, hconsumers, -, -, hhanded⟩ :=
    deliver_cases hstep
  have hsub : ∀ p ∈ t.handed, p ∈ s.handed := by
    intro p hp
    rcases hhanded with ⟨-, heq⟩ | ⟨-, heq⟩
    · rw [heq] at hp
      exact (List.mem_filter.1 hp).1
    · exact heq ▸ hp
  constructor
  · exact runtimeRun_sound h.sound hruntime
  · rw [hdeliveries]
    exact forall_update h.inOrder ((h.inOrder i d hd).step (h.sound i d hd) hd')
  · intro j
    by_cases hji : j = i
    · subst hji
      have hbefore := h.handed j
      simp only [hd, Option.some.injEq, exists_eq_left'] at hbefore
      simp only [hdeliveries, Function.update_self, Option.some.injEq, exists_eq_left']
      rcases HandedDelivery.stage_of_step hd' with ⟨hsettles, -, hstage⟩ | ⟨hother, hstage⟩
      · rcases hhanded with ⟨-, heq⟩ | ⟨hne, -⟩
        · simp [heq, hstage]
        · exact absurd hsettles hne
      · rcases hhanded with ⟨hsettles, -⟩ | ⟨-, heq⟩
        · exact absurd hsettles hother
        · rw [heq, hbefore, Ne, Ne, hstage]
    · have hsame : t.runtime.deliveries j = s.runtime.deliveries j := by
        rw [hdeliveries, Function.update_of_ne hji]
      rw [hsame, ← h.handed j]
      rcases hhanded with ⟨-, heq⟩ | ⟨-, heq⟩
      · simp only [heq, List.mem_map, List.mem_filter, decide_eq_true_eq]
        constructor
        · rintro ⟨p, ⟨hp, -⟩, hpj⟩
          exact ⟨p, hp, hpj⟩
        · rintro ⟨p, hp, rfl⟩
          exact ⟨p, ⟨hp, hji⟩, rfl⟩
      · rw [heq]
  · intro p hp
    rw [hconsumers]
    exact h.owners p (hsub p hp)
  · intro k hk p hp
    rw [hconsumers] at hk
    exact h.closed k hk p (hsub p hp)

theorem takes (h : HandedInv s) {i k : ℕ} {definition : JobDefinition} {runtime : RuntimeState}
    (hk : s.consumers[k]? = some .consuming)
    (hruntime : runtimeRun s.runtime (.takes i definition) = some runtime) :
    HandedInv { s with runtime := runtime, handed := s.handed ++ [(i, k)] } := by
  have hsound := runtimeRun_sound h.sound hruntime
  simp only [runtimeRun] at hruntime
  split_ifs at hruntime with hrefused
  obtain rfl := Option.some.inj hruntime
  obtain ⟨-, hnew⟩ := not_or.1 hrefused
  have hnone : s.runtime.deliveries i = none := by simpa using hnew
  constructor
  · exact hsound
  · exact forall_update h.inOrder (.fresh definition)
  · intro j
    by_cases hji : j = i
    · subst hji
      simp [HandedDelivery.fresh]
    · have hj := h.handed j
      simp only [Function.update_of_ne hji, List.map_append, List.mem_append, List.map_cons,
        List.map_nil, List.mem_singleton, hji, or_false]
      exact hj
  · intro p hp
    rcases List.mem_append.1 hp with hp | hp
    · exact h.owners p hp
    · rw [List.mem_singleton.1 hp]
      exact (List.getElem?_eq_some_iff.1 hk).1
  · intro k' hk' p hp
    rcases List.mem_append.1 hp with hp | hp
    · exact h.closed k' hk' p hp
    · rw [List.mem_singleton.1 hp]
      rintro rfl
      have hk' : s.consumers[k]? = some .closed := hk'
      rw [hk] at hk'
      cases hk'

/-- A consumer is closed by a close of the runtime only where it was before. -/
theorem closeAll (h : HandedInv s) {runtime : RuntimeState}
    (hruntime : runtimeRun s.runtime .close = some runtime) (closes : List RuntimeClose) :
    HandedInv { s with
      runtime := runtime, consumers := s.consumers.map ConsumerStage.close, closes := closes } := by
  have hsound := runtimeRun_sound h.sound hruntime
  obtain rfl := Option.some.inj hruntime
  constructor
  · exact hsound
  · exact h.inOrder
  · exact h.handed
  · intro p hp
    rw [List.length_map]
    exact h.owners p hp
  · intro k hk p hp
    rw [List.getElem?_map] at hk
    obtain ⟨stage, hstage, hclosed⟩ := Option.map_eq_some_iff.1 hk
    cases stage with
    | closed => exact h.closed k hstage p hp
    | consuming | closing | failed _ => cases hclosed

theorem consumerCloses (h : HandedInv s) {k : ℕ} (hfree : s.handed.all (fun p => p.2 ≠ k) = true) :
    HandedInv { s with consumers := s.consumers.set k .closed } := by
  constructor
  · exact h.sound
  · exact h.inOrder
  · exact h.handed
  · intro p hp
    rw [List.length_set]
    exact h.owners p hp
  · intro k' hk' p hp
    by_cases hkk : k = k'
    · subst hkk
      have hp := List.all_eq_true.1 hfree p hp
      simpa using hp
    · rw [List.getElem?_set_ne hkk] at hk'
      exact h.closed k' hk' p hp

theorem consumerFails (h : HandedInv s) {k : ℕ} {error : Thrown} (closes : List RuntimeClose) :
    HandedInv { s with consumers := s.consumers.set k (.failed error), closes := closes } := by
  constructor
  · exact h.sound
  · exact h.inOrder
  · exact h.handed
  · intro p hp
    rw [List.length_set]
    exact h.owners p hp
  · intro k' hk' p hp
    by_cases hkk : k = k'
    · subst hkk
      rw [List.getElem?_set_self'] at hk'
      obtain ⟨stage, -, hclosed⟩ := Option.map_eq_some_iff.1 hk'
      cases hclosed
    · rw [List.getElem?_set_ne hkk] at hk'
      exact h.closed k' hk' p hp

/-- What the closes settle as is nothing to the deliveries. -/
theorem settle (h : HandedInv s) (n : ℕ) (close : RuntimeClose) : HandedInv (s.settle n close) :=
  ⟨h.sound, h.inOrder, h.handed, h.owners, h.closed⟩

theorem expires (h : HandedInv s) {runtime : RuntimeState}
    (hruntime : runtimeRun s.runtime .expires = some runtime) :
    HandedInv { s with runtime := runtime } := by
  have hsound := runtimeRun_sound h.sound hruntime
  obtain ⟨-, -, hdeliveries⟩ := deliveries_of_expires hruntime
  have hstage : ∀ d : HandedDelivery, d.abortLive.stage = d.stage := by
    intro d
    unfold HandedDelivery.abortLive
    split_ifs <;> rfl
  constructor
  · exact hsound
  · intro i d hi
    rw [hdeliveries] at hi
    obtain ⟨d, hd, rfl⟩ := Option.map_eq_some_iff.1 hi
    exact (h.inOrder i d hd).abortLive
  · intro i
    rw [h.handed i, hdeliveries]
    constructor
    · rintro ⟨d, hd, hunsettled⟩
      exact ⟨d.abortLive, by rw [hd]; rfl, by rwa [hstage]⟩
    · rintro ⟨d', hd', hunsettled⟩
      obtain ⟨d, hd, rfl⟩ := Option.map_eq_some_iff.1 hd'
      exact ⟨d, hd, by rwa [hstage] at hunsettled⟩
  · exact h.owners
  · exact h.closed

end HandedInv

/-! #### The closes -/

/-- A consumer that has failed is the same before and after a close of the runtime. -/
theorem failed_mem_map_close {consumers : List ConsumerStage} {error : Thrown} :
    .failed error ∈ consumers.map ConsumerStage.close ↔ ConsumerStage.failed error ∈ consumers := by
  constructor
  · intro h
    obtain ⟨stage, hstage, hclose⟩ := List.mem_map.1 h
    cases stage with
    | failed _ =>
        cases hclose
        exact hstage
    | consuming | closing | closed => cases hclose
  · intro h
    exact List.mem_map.2 ⟨.failed error, h, rfl⟩

/-- The first failure among some consumers is one of theirs. -/
theorem failed_mem_of_findSome {consumers : List ConsumerStage} {error : Thrown}
    (h : consumers.findSome? ConsumerStage.failure = some error) :
    ConsumerStage.failed error ∈ consumers := by
  obtain ⟨stage, hstage, hfailure⟩ := List.exists_of_findSome?_eq_some h
  cases stage with
  | failed _ =>
      cases hfailure
      exact hstage
  | consuming | closing | closed => cases hfailure

/-- A consumer that still closes is neither closed nor failed. -/
theorem failed_mem_set {consumers : List ConsumerStage} {k : ℕ} {stage : ConsumerStage}
    {error : Thrown} (hk : consumers[k]? = some .closing)
    (h : ConsumerStage.failed error ∈ consumers) :
    ConsumerStage.failed error ∈ consumers.set k stage := by
  obtain ⟨m, hm⟩ := List.mem_iff_getElem?.1 h
  have hkm : k ≠ m := by
    rintro rfl
    rw [hk] at hm
    cases hm
  exact List.mem_iff_getElem?.2 ⟨m, by rw [List.getElem?_set_ne hkm]; exact hm⟩

namespace RuntimeClosesInv

theorem start (consumers : ℕ) : RuntimeClosesInv (.start consumers) := by
  constructor
  · intro h
    exact absurd rfl h
  · simp [Closing.start]
  · intro close h
    cases h
  · intro close h
    cases h
  · intro close h
    cases h
  · intro close h
    cases h
  · intro close h
    cases h

/-- What does not touch the closes or the consumers keeps what holds of them. -/
theorem congr (h : RuntimeClosesInv s) (hclosing : t.runtime.closing = s.runtime.closing)
    (hconsumers : t.consumers = s.consumers) (hcloses : t.closes = s.closes)
    (hticking : t.ticking = s.ticking) : RuntimeClosesInv t := by
  constructor
  · rw [hclosing, hconsumers, hcloses]
    exact h.begun
  · rw [hticking, hcloses]
    exact h.ticking
  · unfold Closing.allClosed
    rw [hcloses, hconsumers]
    exact h.drained
  · rw [hcloses, hconsumers]
    exact h.failure
  · rw [hcloses, hconsumers]
    exact h.told
  · rw [hcloses]
    exact h.rejected
  · rw [hcloses]
    exact h.expired

theorem close (h : RuntimeClosesInv s) {runtime : RuntimeState}
    (hruntime : runtimeRun s.runtime .close = some runtime) (timeoutMs : Option Number) :
    RuntimeClosesInv { s with
      runtime := runtime
      consumers := s.consumers.map ConsumerStage.close
      closes := s.closes ++
        [⟨timeoutMs, s.consumers.findSome? ConsumerStage.failure, .draining⟩] } := by
  obtain rfl := Option.some.inj hruntime
  constructor
  · intro _
    refine ⟨rfl, ?_⟩
    intro c hc
    obtain ⟨stage, -, rfl⟩ := List.mem_map.1 hc
    cases stage <;> simp [ConsumerStage.close]
  · rw [List.forall_mem_append, ← h.ticking]
    simp
  · rw [List.forall_mem_append]
    refine ⟨?_, by simp⟩
    intro close hclose hdrained
    have hall := List.all_eq_true.1 (h.drained close hclose hdrained)
    refine List.all_eq_true.2 ?_
    intro c hc
    obtain ⟨stage, hstage, rfl⟩ := List.mem_map.1 hc
    have hclosed := hall stage hstage
    cases stage with
    | closed => rfl
    | consuming | closing | failed _ => cases hclosed
  · simp only [failed_mem_map_close, List.forall_mem_append, List.forall_mem_singleton]
    exact ⟨h.failure, fun error herror => failed_mem_of_findSome herror⟩
  · simp only [failed_mem_map_close, List.forall_mem_append, List.forall_mem_singleton]
    refine ⟨h.told, ?_⟩
    intro error herror
    exact List.findSome?_isSome_iff.2 ⟨_, herror, rfl⟩
  · rw [List.forall_mem_append]
    exact ⟨h.rejected, by simp⟩
  · rw [List.forall_mem_append]
    exact ⟨h.expired, by simp⟩

theorem consumerCloses (h : RuntimeClosesInv s) {k : ℕ} (hk : s.consumers[k]? = some .closing) :
    RuntimeClosesInv { s with consumers := s.consumers.set k .closed } := by
  have hfailed : ∀ error, ConsumerStage.failed error ∈ s.consumers.set k .closed →
      ConsumerStage.failed error ∈ s.consumers := by
    intro error herror
    rcases List.mem_or_eq_of_mem_set herror with hmem | heq
    · exact hmem
    · cases heq
  constructor
  · intro hne
    obtain ⟨hclosing, hconsumers⟩ := h.begun hne
    refine ⟨hclosing, ?_⟩
    intro c hc
    rcases List.mem_or_eq_of_mem_set hc with hmem | rfl
    · exact hconsumers c hmem
    · simp
  · exact h.ticking
  · intro close hclose hdrained
    have hall := List.all_eq_true.1 (h.drained close hclose hdrained)
    refine List.all_eq_true.2 ?_
    intro c hc
    rcases List.mem_or_eq_of_mem_set hc with hmem | rfl
    · exact hall c hmem
    · rfl
  · exact fun close hclose error herror => failed_mem_set hk (h.failure close hclose error herror)
  · exact fun close hclose error herror => h.told close hclose error (hfailed error herror)
  · exact h.rejected
  · exact h.expired

theorem consumerFails (h : RuntimeClosesInv s) {k : ℕ} (hk : s.consumers[k]? = some .closing)
    (error : Thrown) : RuntimeClosesInv { s with
      consumers := s.consumers.set k (.failed error)
      closes := s.closes.map fun close => close.fail error } := by
  have hlt := (List.getElem?_eq_some_iff.1 hk).1
  have hopen : s.allClosed = false := by
    refine List.all_eq_false.2 ⟨.closing, List.mem_of_getElem? hk, ?_⟩
    simp [ConsumerStage.isClosed]
  constructor
  · intro hne
    obtain ⟨hclosing, hconsumers⟩ := h.begun (fun hnil => hne (by simp [hnil]))
    refine ⟨hclosing, ?_⟩
    intro c hc
    rcases List.mem_or_eq_of_mem_set hc with hmem | rfl
    · exact hconsumers c hmem
    · simp
  · rw [h.ticking]
    simp [RuntimeClose.fail]
  · intro close hclose hdrained
    obtain ⟨before, hbefore, rfl⟩ := List.mem_map.1 hclose
    have hall := h.drained before hbefore hdrained
    rw [hopen] at hall
    cases hall
  · intro close hclose error' herror
    obtain ⟨before, hbefore, rfl⟩ := List.mem_map.1 hclose
    cases hfailure : before.failure with
    | none =>
        simp only [RuntimeClose.fail, hfailure, Option.none_or, Option.some.injEq] at herror
        subst herror
        exact List.mem_iff_getElem?.2 ⟨k, List.getElem?_set_self hlt⟩
    | some first =>
        simp only [RuntimeClose.fail, hfailure, Option.some_or, Option.some.injEq] at herror
        subst herror
        exact failed_mem_set hk (h.failure before hbefore _ hfailure)
  · intro close hclose error' _
    obtain ⟨before, -, rfl⟩ := List.mem_map.1 hclose
    simp [RuntimeClose.fail]
  · intro close hclose error' hrejected
    obtain ⟨before, hbefore, rfl⟩ := List.mem_map.1 hclose
    have hfailure := h.rejected before hbefore error' hrejected
    simp [RuntimeClose.fail, hfailure]
  · intro close hclose reported hexpired
    obtain ⟨before, hbefore, rfl⟩ := List.mem_map.1 hclose
    exact h.expired before hbefore reported hexpired

/-- A close goes on to a stage that is justified. -/
theorem settle (h : RuntimeClosesInv s) {n : ℕ} {close : RuntimeClose}
    (hn : s.closes[n]? = some close) {stage : CloseStage} (hstage : stage ≠ .draining)
    (hdrained : stage = .drained → s.allClosed = true)
    (hrejected : ∀ error, stage = .rejected error → close.failure = some error)
    (hexpired : ∀ reported, stage = .expired reported → close.timeoutMs.isSome = true) :
    RuntimeClosesInv (s.settle n { close with stage := stage }) := by
  have hmem := List.mem_of_getElem? hn
  have hset : ∀ P : RuntimeClose → Prop, (∀ c ∈ s.closes, P c) → P { close with stage := stage } →
      ∀ c ∈ s.closes.set n { close with stage := stage }, P c := by
    intro P hold hnew c hc
    rcases List.mem_or_eq_of_mem_set hc with hmem | rfl
    · exact hold c hmem
    · exact hnew
  constructor
  · intro _
    exact h.begun (List.ne_nil_of_mem hmem)
  · simp only [Closing.settle, Bool.false_eq_true, false_iff]
    intro hall
    have hlt := (List.getElem?_eq_some_iff.1 hn).1
    exact hstage (hall _ (List.mem_iff_getElem?.2 ⟨n, List.getElem?_set_self hlt⟩))
  · exact hset _ h.drained hdrained
  · exact hset _ h.failure fun error herror => h.failure close hmem error herror
  · exact hset _ h.told fun error herror => h.told close hmem error herror
  · exact hset _ h.rejected hrejected
  · exact hset _ h.expired hexpired

end RuntimeClosesInv

/-- A close that is replaced was not one that had expired, or still is one. -/
theorem hasExpired_set {n : ℕ} {close close' : RuntimeClose} (hn : s.closes[n]? = some close)
    (hkeeps : ∀ reported, close.stage = .expired reported → ∃ r, close'.stage = .expired r)
    (h : s.HasExpired) : ∃ c ∈ s.closes.set n close', ∃ reported, c.stage = .expired reported := by
  obtain ⟨c, hc, reported, hexpired⟩ := h
  obtain ⟨m, hm⟩ := List.mem_iff_getElem?.1 hc
  by_cases hnm : n = m
  · subst hnm
    obtain rfl := Option.some.inj (hn.symm.trans hm)
    have hlt := (List.getElem?_eq_some_iff.1 hn).1
    exact ⟨close', List.mem_iff_getElem?.2 ⟨n, List.getElem?_set_self hlt⟩,
      hkeeps reported hexpired⟩
  · exact ⟨c, List.mem_iff_getElem?.2 ⟨m, by rw [List.getElem?_set_ne hnm]; exact hm⟩, reported,
      hexpired⟩

namespace ClosingInv

theorem start (consumers : ℕ) : ClosingInv (.start consumers) :=
  ⟨.start consumers, .start consumers, fun i d h => by cases h⟩

/-- A close of the runtime goes on over the same deliveries. -/
theorem settle (h : ClosingInv s) {n : ℕ} {close : RuntimeClose} (hn : s.closes[n]? = some close)
    (hdraining : close.stage = .draining) {stage : CloseStage} (hstage : stage ≠ .draining)
    (hdrained : stage = .drained → s.allClosed = true)
    (hrejected : ∀ error, stage = .rejected error → close.failure = some error)
    (hexpired : ∀ reported, stage = .expired reported → close.timeoutMs.isSome = true) :
    ClosingInv (s.settle n { close with stage := stage }) := by
  refine ⟨h.deliveries.settle n _, h.closes.settle hn hstage hdrained hrejected hexpired, ?_⟩
  intro i d hi hshutdown
  refine hasExpired_set hn ?_ (h.shutdown i d hi hshutdown)
  intro reported hbad
  rw [hdraining] at hbad
  cases hbad

theorem delivery (h : ClosingInv s) {i : ℕ} {step : DeliveryStep}
    (hstep : s.deliver i step = some t) : ClosingInv t := by
  have hdeliveries := h.deliveries.deliver hstep
  obtain ⟨d, d', hd, hd', -, hupdate, hclosing, hconsumers, hcloses, hticking, -⟩ :=
    deliver_cases hstep
  refine ⟨hdeliveries, h.closes.congr hclosing hconsumers hcloses hticking, ?_⟩
  have hexpired : s.HasExpired → t.HasExpired := by
    unfold Closing.HasExpired
    rw [hcloses]
    exact id
  rw [hupdate]
  refine forall_update (P := fun _ d => IsShutdown d.reason → t.HasExpired) ?_ ?_
  · exact fun j e hj hshutdown => hexpired (h.shutdown j e hj hshutdown)
  · exact fun hshutdown =>
      hexpired (h.shutdown i d hd (HandedDelivery.isShutdown_of_step hd' hshutdown))

theorem expires (h : ClosingInv s) {n : ℕ} {close : RuntimeClose} {runtime : RuntimeState}
    (hn : s.closes[n]? = some close) (htimeout : close.timeoutMs.isSome = true)
    (hruntime : runtimeRun s.runtime .expires = some runtime) :
    ClosingInv { s.settle n { close with stage := .expired false } with runtime := runtime } := by
  obtain ⟨hclosing, hclosing', -⟩ := deliveries_of_expires hruntime
  have hcloses : RuntimeClosesInv (s.settle n { close with stage := .expired false }) :=
    h.closes.settle hn (by simp) (by simp) (by simp) (fun _ _ => htimeout)
  have hlt := (List.getElem?_eq_some_iff.1 hn).1
  refine ⟨(h.deliveries.expires hruntime).settle n _,
    hcloses.congr (hclosing'.trans hclosing.symm) rfl rfl rfl, ?_⟩
  intro i d _ _
  exact ⟨_, List.mem_iff_getElem?.2 ⟨n, List.getElem?_set_self hlt⟩, false, rfl⟩

/-- A step keeps what holds of a runtime. -/
theorem step (h : ClosingInv s) {act : ClosingAct} (hstep : closingRun s act = some t) :
    ClosingInv t := by
  cases act with
  | takes i k definition =>
      simp only [closingRun] at hstep
      split at hstep
      · rename_i hk
        obtain ⟨runtime, hruntime, rfl⟩ := Option.map_eq_some_iff.1 hstep
        have hdeliveries := h.deliveries.takes hk hruntime
        simp only [runtimeRun] at hruntime
        split_ifs at hruntime
        obtain rfl := Option.some.inj hruntime
        refine ⟨hdeliveries, h.closes.congr rfl rfl rfl rfl, ?_⟩
        refine forall_update (P := fun _ d => IsShutdown d.reason → s.HasExpired) h.shutdown ?_
        rintro ⟨error, herror, -⟩
        cases herror
      · cases hstep
  | delivery i step => exact h.delivery hstep
  | sweeps =>
      simp only [closingRun] at hstep
      split_ifs at hstep
      obtain rfl := Option.some.inj hstep
      have hd := h.deliveries
      exact ⟨⟨hd.sound, hd.inOrder, hd.handed, hd.owners, hd.closed⟩,
        h.closes.congr rfl rfl rfl rfl, h.shutdown⟩
  | sweepEnds =>
      simp only [closingRun] at hstep
      split_ifs at hstep
      obtain rfl := Option.some.inj hstep
      have hd := h.deliveries
      exact ⟨⟨hd.sound, hd.inOrder, hd.handed, hd.owners, hd.closed⟩,
        h.closes.congr rfl rfl rfl rfl, h.shutdown⟩
  | close timeoutMs =>
      simp only [closingRun] at hstep
      obtain ⟨runtime, hruntime, rfl⟩ := Option.map_eq_some_iff.1 hstep
      refine ⟨h.deliveries.closeAll hruntime _, h.closes.close hruntime timeoutMs, ?_⟩
      obtain rfl := Option.some.inj hruntime
      intro i d hi hshutdown
      obtain ⟨c, hc, reported, hexpired⟩ := h.shutdown i d hi hshutdown
      exact ⟨c, List.mem_append_left _ hc, reported, hexpired⟩
  | consumerCloses k =>
      simp only [closingRun] at hstep
      split at hstep
      · rename_i hk
        split_ifs at hstep with hfree
        obtain rfl := Option.some.inj hstep
        exact ⟨h.deliveries.consumerCloses hfree, h.closes.consumerCloses hk, h.shutdown⟩
      · cases hstep
  | consumerFails k error =>
      simp only [closingRun] at hstep
      split at hstep
      · rename_i hk
        obtain rfl := Option.some.inj hstep
        refine ⟨h.deliveries.consumerFails _, h.closes.consumerFails hk error, ?_⟩
        intro i d hi hshutdown
        obtain ⟨c, hc, reported, hexpired⟩ := h.shutdown i d hi hshutdown
        exact ⟨c.fail error, List.mem_map.2 ⟨c, hc, rfl⟩, reported, hexpired⟩
      · cases hstep
  | drains n =>
      obtain ⟨close, hn, hstep⟩ := Option.bind_eq_some_iff.1 hstep
      split at hstep
      · rename_i hdraining
        split_ifs at hstep with hall
        obtain rfl := Option.some.inj hstep
        exact h.settle hn hdraining (by simp) (fun _ => hall) (by simp) (by simp)
      · cases hstep
  | rejects n =>
      obtain ⟨close, hn, hstep⟩ := Option.bind_eq_some_iff.1 hstep
      split at hstep
      · rename_i error hdraining hfailure
        obtain rfl := Option.some.inj hstep
        refine h.settle hn hdraining (by simp) (by simp) ?_ (by simp)
        intro error' herror
        rw [hfailure, CloseStage.rejected.inj herror]
      · cases hstep
  | expires n =>
      obtain ⟨close, hn, hstep⟩ := Option.bind_eq_some_iff.1 hstep
      split at hstep
      · rename_i hdraining hfailure htimeout
        split_ifs at hstep
        obtain ⟨runtime, hruntime, rfl⟩ := Option.map_eq_some_iff.1 hstep
        exact h.expires hn (by simp [htimeout]) hruntime
      · cases hstep
  | reports n =>
      obtain ⟨close, hn, hstep⟩ := Option.bind_eq_some_iff.1 hstep
      split at hstep
      · rename_i error hexpired hfailure
        obtain rfl := Option.some.inj hstep
        have hmem := List.mem_of_getElem? hn
        -- this close has settled, and cleared the interval when it did
        have hstopped : s.ticking = false := by
          by_contra hticking
          have hall := h.closes.ticking.1 (by simpa using hticking) close hmem
          rw [hexpired] at hall
          cases hall
        have hcloses : RuntimeClosesInv (s.settle n { close with stage := .expired true }) :=
          h.closes.settle hn (by simp) (by simp) (by simp)
            (fun _ _ => h.closes.expired close hmem false hexpired)
        have hd := h.deliveries
        refine ⟨⟨hd.sound, hd.inOrder, hd.handed, hd.owners, hd.closed⟩,
          hcloses.congr rfl rfl rfl hstopped, ?_⟩
        intro i d hi hshutdown
        exact hasExpired_set hn (fun _ _ => ⟨true, rfl⟩) (h.shutdown i d hi hshutdown)
      · cases hstep

end ClosingInv

/-! ### What a close has done -/

/-- What holds of a runtime and its closes. -/
structure ClosingContract (s : Closing) : Prop where
  /-- Once a close has drained, every delivery has settled, and a handler body that still runs is
  one that outlived its `timeoutMs`. -/
  drained : ∀ close ∈ s.closes, close.stage = .drained → ∀ i d, s.runtime.deliveries i = some d →
    d.stage = .settled ∧ (d.timedOut = false → d.body ≠ .running)
  /-- A close rejects with what a consumer could not be closed for. -/
  rejected : ∀ close ∈ s.closes, ∀ error, close.stage = .rejected error →
    ConsumerStage.failed error ∈ s.consumers
  /-- Only a close with a timeout expires. -/
  expired : ∀ close ∈ s.closes, ∀ reported, close.stage = .expired reported →
    close.timeoutMs.isSome = true
  /-- No delivery is aborted for a shutdown before a close has expired. -/
  aborted : ∀ i d, s.runtime.deliveries i = some d → IsShutdown d.reason → s.HasExpired
  /-- The sweeps go on until the first close settles. -/
  ticking : s.ticking = true ↔ ∀ close ∈ s.closes, close.stage = .draining
  /-- A close that waits can settle, unless it has no timeout and a consumer still closes. -/
  unstuck : ∀ n close, s.closes[n]? = some close → close.stage = .draining →
    (∃ t, closingRun s (.drains n) = some t) ∨ (∃ t, closingRun s (.rejects n) = some t) ∨
      (∃ t, closingRun s (.expires n) = some t) ∨
        close.timeoutMs = none ∧ ConsumerStage.closing ∈ s.consumers

/-- A consumer of a runtime that is closed has closed, failed, or still closes. -/
theorem RuntimeClosesInv.consumer (h : RuntimeClosesInv s) (hclosed : s.closes ≠ [])
    {c : ConsumerStage} (hc : c ∈ s.consumers) :
    c = .closed ∨ c = .closing ∨ ∃ error, c = .failed error := by
  have hne := (h.begun hclosed).2 c hc
  cases c with
  | consuming => exact absurd rfl hne
  | closing => exact .inr (.inl rfl)
  | closed => exact .inl rfl
  | failed error => exact .inr (.inr ⟨error, rfl⟩)

/-- When every consumer has closed, no delivery is in their hands. -/
theorem HandedInv.settled (h : HandedInv s) (hall : s.allClosed = true) {i : ℕ} {d : HandedDelivery}
    (hi : s.runtime.deliveries i = some d) : d.stage = .settled := by
  by_contra hunsettled
  obtain ⟨p, hp, -⟩ := List.mem_map.1 ((h.handed i).2 ⟨d, hi, hunsettled⟩)
  have howner : p.2 < s.consumers.length := h.owners p hp
  have hget := List.getElem?_eq_getElem howner
  have hclosed : s.consumers[p.2].isClosed = true :=
    List.all_eq_true.1 hall _ (List.getElem_mem howner)
  cases hstage : s.consumers[p.2] with
  | closed =>
      rw [hstage] at hget
      exact h.closed p.2 hget p hp rfl
  | consuming | closing | failed _ =>
      rw [hstage] at hclosed
      cases hclosed

/-- A close that waits is told of a consumer that failed, or waits for one, or all have closed. -/
theorem RuntimeClosesInv.waits (h : RuntimeClosesInv s) {n : ℕ} {close : RuntimeClose}
    (hn : s.closes[n]? = some close) :
    s.allClosed = true ∨ (∃ error, close.failure = some error) ∨
      close.failure = none ∧ ConsumerStage.closing ∈ s.consumers := by
  have hmem := List.mem_of_getElem? hn
  cases hfailure : close.failure with
  | some error => exact .inr (.inl ⟨error, rfl⟩)
  | none =>
      by_cases hclosing : ConsumerStage.closing ∈ s.consumers
      · exact .inr (.inr ⟨rfl, hclosing⟩)
      · refine .inl (List.all_eq_true.2 ?_)
        intro c hc
        rcases h.consumer (List.ne_nil_of_mem hmem) hc with rfl | rfl | ⟨error, rfl⟩
        · rfl
        · exact absurd hc hclosing
        · have htold := h.told close hmem error hc
          rw [hfailure] at htold
          cases htold

namespace ClosingInv

/-- **What a close can settle by.** -/
theorem unstuck (h : ClosingInv s) {n : ℕ} {close : RuntimeClose} (hn : s.closes[n]? = some close)
    (hdraining : close.stage = .draining) :
    (∃ t, closingRun s (.drains n) = some t) ∨ (∃ t, closingRun s (.rejects n) = some t) ∨
      (∃ t, closingRun s (.expires n) = some t) ∨
        close.timeoutMs = none ∧ ConsumerStage.closing ∈ s.consumers := by
  rcases h.closes.waits hn with hall | ⟨error, hfailure⟩ | ⟨hfailure, hclosing⟩
  · exact .inl ⟨_, by simp [closingRun, hn, hdraining, hall]; rfl⟩
  · exact .inr (.inl ⟨_, by simp [closingRun, hn, hdraining, hfailure]; rfl⟩)
  · cases htimeout : close.timeoutMs with
    | none => exact .inr (.inr (.inr ⟨rfl, hclosing⟩))
    | some timeoutMs =>
        have hopen : s.allClosed = false :=
          List.all_eq_false.2 ⟨.closing, hclosing, by simp [ConsumerStage.isClosed]⟩
        have hclosed := (h.closes.begun (List.ne_nil_of_mem (List.mem_of_getElem? hn))).1
        refine .inr (.inr (.inl ?_))
        simp [closingRun, hn, hdraining, hfailure, htimeout, hopen, runtimeRun, hclosed]

theorem contract (h : ClosingInv s) : ClosingContract s := by
  constructor
  · intro close hclose hdrained i d hi
    have hsettled := h.deliveries.settled (h.closes.drained close hclose hdrained) hi
    exact ⟨hsettled, (h.deliveries.inOrder i d hi).after (.inr hsettled)⟩
  · intro close hclose error hrejected
    exact h.closes.failure close hclose error (h.closes.rejected close hclose error hrejected)
  · exact h.closes.expired
  · exact h.shutdown
  · exact h.closes.ticking
  · exact fun n close hn hdraining => h.unstuck hn hdraining

end ClosingInv

theorem closingRun_inv {consumers : ℕ} {acts : List ClosingAct}
    (h : closingRun.exec (.start consumers) acts = some s) : ClosingInv s :=
  Machine.exec_invariant (P := ClosingInv) (fun _ _ _ hs hstep => hs.step hstep) h
    (.start consumers)

/-- **What a close has done when it settles, and that one with a timeout is never stuck**: any
number of closes of one runtime, with timeouts or without, however they overlap with deliveries and
sweeps. -/
theorem closing_contract {consumers : ℕ} {acts : List ClosingAct}
    (h : closingRun.exec (.start consumers) acts = some s) : ClosingContract s :=
  (closingRun_inv h).contract

/-! ### A close that drains -/

/-- A step that a close waits for: one of a delivery that nothing aborts, or of a consumer. -/
def ClosingAct.isAwaited : ClosingAct → Bool
  | .delivery _ .cancelled | .delivery _ .timeout => false
  | .delivery _ _ | .consumerCloses _ | .drains _ => true
  | _ => false

/-- A delivery that has not settled can, by steps of its own. -/
theorem HandedDelivery.InOrder.finishes {d : HandedDelivery} (h : d.InOrder)
    (hunsettled : d.stage ≠ .settled) :
    ∃ l d', deliveryStep.exec d (l ++ [.settles]) = some d' ∧
      l ⊆ [.leaves, .bodyEnds, .concludes] := by
  by_cases hbefore : d.stage.beforeHandler = true
  -- it may throw before its handler, which takes it straight to the end
  · exact ⟨[.leaves], _, by simp [Machine.exec, deliveryStep, hbefore]; rfl, by simp⟩
  · cases hstage : d.stage with
    | running =>
        cases hbody : d.body with
        | idle => exact absurd hbody (h.entered hstage)
        | running =>
            exact ⟨[.bodyEnds, .concludes], _,
              by simp [Machine.exec, deliveryStep, hstage, hbody]; rfl, by simp⟩
        | ended =>
            exact ⟨[.concludes], _,
              by simp [Machine.exec, deliveryStep, hstage, hbody]; rfl, by simp⟩
    | concluding => exact ⟨[], _, by simp [Machine.exec, deliveryStep, hstage]; rfl, by simp⟩
    | settled => exact absurd hstage hunsettled
    | _ =>
        rw [hstage] at hbefore
        exact absurd rfl hbefore

/-- Two states in which the closes and the consumers are the same. -/
structure SameCloses (s t : Closing) : Prop where
  consumers : t.consumers = s.consumers
  closes : t.closes = s.closes

/-- The steps of one delivery, as steps of the runtime. -/
theorem exec_deliver {i : ℕ} {l : List DeliveryStep} {d d' : HandedDelivery}
    (hl : l ⊆ [.leaves, .bodyEnds, .concludes]) (hd : s.runtime.deliveries i = some d)
    (h : deliveryStep.exec d l = some d') :
    ∃ t, closingRun.exec s (l.map (ClosingAct.delivery i)) = some t ∧
      t.runtime.deliveries i = some d' ∧ t.handed = s.handed ∧ SameCloses s t := by
  induction l generalizing s d with
  | nil =>
      obtain rfl := Option.some.inj h
      exact ⟨s, rfl, hd, rfl, rfl, rfl⟩
  | cons step l ih =>
      obtain ⟨e, he, hrest⟩ := Machine.exec_cons_iff.1 h
      obtain ⟨hstep, hl⟩ := List.cons_subset.1 hl
      have hone : ∃ u, closingRun s (.delivery i step) = some u ∧
          u.runtime.deliveries i = some e ∧ u.handed = s.handed ∧ SameCloses s u := by
        simp only [List.mem_cons, List.not_mem_nil, or_false] at hstep
        rcases hstep with rfl | rfl | rfl
        all_goals
          simp only [closingRun, Closing.deliver, runtimeRun, hd, Option.bind_some, he,
            Option.map_some]
          exact ⟨_, rfl, Function.update_self .., rfl, rfl, rfl⟩
      obtain ⟨u, hu, hue, hhanded, hsame⟩ := hone
      obtain ⟨t, ht, htd, hthanded, htsame⟩ := ih hl hue hrest
      exact ⟨t, Machine.exec_cons_iff.2 ⟨u, hu, ht⟩, htd, hthanded.trans hhanded,
        htsame.consumers.trans hsame.consumers, htsame.closes.trans hsame.closes⟩

/-- A delivery in the hands of a consumer can settle. -/
theorem ClosingInv.settles (h : ClosingInv s) {p : ℕ × ℕ} (hp : p ∈ s.handed) :
    ∃ acts t, closingRun.exec s acts = some t ∧ (∀ act ∈ acts, act.isAwaited = true) ∧
      t.handed.length < s.handed.length ∧ SameCloses s t := by
  obtain ⟨d, hd, hunsettled⟩ := (h.deliveries.handed p.1).1 (List.mem_map_of_mem hp)
  obtain ⟨l, d', hexec, hl⟩ := (h.deliveries.inOrder p.1 d hd).finishes hunsettled
  obtain ⟨e, he, hsettles⟩ := Machine.exec_append_iff.1 hexec
  have hsettles := Machine.exec_singleton.1 hsettles
  obtain ⟨u, hu, hue, hhanded, hsame⟩ := exec_deliver hl hd he
  obtain ⟨t, ht⟩ : ∃ t, closingRun u (.delivery p.1 .settles) = some t := by
    simp [closingRun, Closing.deliver, runtimeRun, hue, hsettles]
  have hdeliver : u.deliver p.1 .settles = some t := ht
  obtain ⟨-, -, -, -, -, -, -, hconsumers, hcloses, -, hcase⟩ := deliver_cases hdeliver
  have hleft : t.handed = s.handed.filter fun q => q.1 ≠ p.1 := by
    rcases hcase with ⟨-, heq⟩ | ⟨hne, -⟩
    · rw [heq, hhanded]
    · exact absurd rfl hne
  refine ⟨l.map (ClosingAct.delivery p.1) ++ [.delivery p.1 .settles], t,
    Machine.exec_append_iff.2 ⟨u, hu, Machine.exec_singleton.2 ht⟩, ?_, ?_, ?_⟩
  · intro act hact
    rcases List.mem_append.1 hact with hact | hact
    · obtain ⟨step, hstep, rfl⟩ := List.mem_map.1 hact
      have hstep := hl hstep
      simp only [List.mem_cons, List.not_mem_nil, or_false] at hstep
      rcases hstep with rfl | rfl | rfl <;> rfl
    · rw [List.mem_singleton.1 hact]
      rfl
  · rw [hleft]
    exact List.length_filter_lt_length_iff_exists.2 ⟨p, hp, by simp⟩
  · exact ⟨hconsumers.trans hsame.consumers, hcloses.trans hsame.closes⟩

/-- So all of them can. -/
theorem ClosingInv.settlesAll (h : ClosingInv s) :
    ∃ acts t, closingRun.exec s acts = some t ∧ (∀ act ∈ acts, act.isAwaited = true) ∧
      t.handed = [] ∧ SameCloses s t := by
  -- along the deliveries in hand: each that settles leaves fewer, and takes no new one
  induction hlength : s.handed.length using Nat.strong_induction_on generalizing s with
  | _ n ih =>
      cases hhanded : s.handed with
      | nil => exact ⟨[], s, rfl, by simp, hhanded, rfl, rfl⟩
      | cons p rest =>
          obtain ⟨acts, u, hu, hacts, hless, hsame⟩ := h.settles (p := p) (by simp [hhanded])
          have hinv : ClosingInv u :=
            Machine.exec_invariant (P := ClosingInv) (fun _ _ _ hs hstep => hs.step hstep) hu h
          obtain ⟨acts', t, ht, hacts', hempty, hsame'⟩ := ih _ (hlength ▸ hless) hinv rfl
          refine ⟨acts ++ acts', t, Machine.exec_append_iff.2 ⟨u, hu, ht⟩, ?_, hempty,
            hsame'.consumers.trans hsame.consumers, hsame'.closes.trans hsame.closes⟩
          intro act hact
          rcases List.mem_append.1 hact with hact | hact
          · exact hacts act hact
          · exact hacts' act hact

/-- Consumers that have nothing in their hands can close, one after the other. -/
theorem closesUpTo (hempty : s.handed = [])
    (hstages : ∀ c ∈ s.consumers, c = .closed ∨ c = .closing) {m : ℕ}
    (hm : m ≤ s.consumers.length) :
    ∃ acts t, closingRun.exec s acts = some t ∧ (∀ act ∈ acts, act.isAwaited = true) ∧
      t.handed = [] ∧ t.closes = s.closes ∧ t.consumers.length = s.consumers.length ∧
      (∀ c ∈ t.consumers, c = .closed ∨ c = .closing) ∧
      ∀ k < m, t.consumers[k]? = some .closed := by
  induction m with
  | zero => exact ⟨[], s, rfl, by simp, hempty, rfl, rfl, hstages, by simp⟩
  | succ m ih =>
      obtain ⟨acts, u, hu, hacts, huempty, hcloses, hlength, hustages, hupTo⟩ := ih (by omega)
      have hlt : m < u.consumers.length := by omega
      rcases hustages _ (List.getElem_mem hlt) with hclosed | hclosing
      · refine ⟨acts, u, hu, hacts, huempty, hcloses, hlength, hustages, ?_⟩
        intro k hk
        rcases Nat.lt_succ_iff_lt_or_eq.1 hk with hk | rfl
        · exact hupTo k hk
        · rw [List.getElem?_eq_getElem hlt, hclosed]
      · have hm' : u.consumers[m]? = some .closing := by rw [List.getElem?_eq_getElem hlt, hclosing]
        refine ⟨acts ++ [.consumerCloses m], { u with consumers := u.consumers.set m .closed },
          Machine.exec_append_iff.2 ⟨u, hu, Machine.exec_singleton.2 ?_⟩, ?_, huempty,
            hcloses, ?_, ?_,
          ?_⟩
        · simp [closingRun, hm', huempty]
        · intro act hact
          rcases List.mem_append.1 hact with hact | hact
          · exact hacts act hact
          · rw [List.mem_singleton.1 hact]
            rfl
        · rw [List.length_set]
          exact hlength
        · intro c hc
          rcases List.mem_or_eq_of_mem_set hc with hmem | rfl
          · exact hustages c hmem
          · exact .inl rfl
        · intro k hk
          rcases Nat.lt_succ_iff_lt_or_eq.1 hk with hk | rfl
          · rw [List.getElem?_set_ne (by omega)]
            exact hupTo k hk
          · exact List.getElem?_set_self hlt

/-- **A close can drain from every state** in which no consumer has failed, whatever it is waiting
for: the deliveries settle by steps of their own, the consumers close, and the close drains. -/
theorem closing_drains {consumers : ℕ} {acts : List ClosingAct} {n : ℕ} {close : RuntimeClose}
    (h : closingRun.exec (.start consumers) acts = some s) (hn : s.closes[n]? = some close)
    (hdraining : close.stage = .draining) (hkept : ∀ error, .failed error ∉ s.consumers) :
    ∃ later t, closingRun.exec s later = some t ∧ (∀ act ∈ later, act.isAwaited = true) ∧
      (t.closes[n]?).map RuntimeClose.stage = some .drained := by
  have hinv := closingRun_inv h
  have hmem := List.mem_of_getElem? hn
  obtain ⟨acts₁, u, hu, hacts₁, hempty, hsame⟩ := hinv.settlesAll
  have hstages : ∀ c ∈ u.consumers, c = .closed ∨ c = .closing := by
    rw [hsame.consumers]
    intro c hc
    rcases hinv.closes.consumer (List.ne_nil_of_mem hmem) hc with hclosed | hclosing | ⟨error, rfl⟩
    · exact .inl hclosed
    · exact .inr hclosing
    · exact absurd hc (hkept error)
  obtain ⟨acts₂, v, hv, hacts₂, -, hcloses, hlength, -, hupTo⟩ :=
    closesUpTo hempty hstages (Nat.le_refl u.consumers.length)
  have hall : v.allClosed = true := by
    refine List.all_eq_true.2 ?_
    intro c hc
    obtain ⟨k, hk⟩ := List.mem_iff_getElem?.1 hc
    have hlt := (List.getElem?_eq_some_iff.1 hk).1
    rw [hupTo k (by omega)] at hk
    obtain rfl := Option.some.inj hk
    rfl
  have hvn : v.closes[n]? = some close := by rw [hcloses, hsame.closes, hn]
  have hlt := (List.getElem?_eq_some_iff.1 hvn).1
  refine ⟨acts₁ ++ acts₂ ++ [.drains n], v.settle n { close with stage := .drained },
    Machine.exec_append_iff.2 ⟨v, Machine.exec_append_iff.2 ⟨u, hu, hv⟩,
      Machine.exec_singleton.2 ?_⟩,
    ?_, ?_⟩
  · simp [closingRun, hvn, hdraining, hall]
  · intro act hact
    simp only [List.mem_append, List.mem_singleton] at hact
    rcases hact with (hact | hact) | rfl
    · exact hacts₁ act hact
    · exact hacts₂ act hact
    · rfl
  · simp [Closing.settle, List.getElem?_set_self hlt]

/-- A delivery runs its handler when the runtime is closed without a timeout, and once more with
one, which expires. -/
def closedTwice : List ClosingAct :=
  [.takes 0 0 chargeDefinition] ++ List.replicate 5 (.delivery 0 .passes) ++
    [.delivery 0 .enters, .close none, .close (some 1), .expires 1]

/-- The second close has expired, and the first still waits. -/
theorem closing_contract_example : ∃ s, closingRun.exec (.start 1) closedTwice = some s ∧
    ClosingContract s ∧ (s.closes.map RuntimeClose.stage) = [.draining, .expired false] :=
  ⟨_, rfl, @closing_contract _ 1 closedTwice rfl, rfl⟩

/-- The first close can still drain. -/
theorem closing_drains_example : ∃ s, closingRun.exec (.start 1) closedTwice = some s ∧
    ∃ later t, closingRun.exec s later = some t ∧ (∀ act ∈ later, act.isAwaited = true) ∧
      (t.closes[0]?).map RuntimeClose.stage = some .drained :=
  ⟨_, rfl, @closing_drains _ 1 closedTwice 0 ⟨none, none, .draining⟩ rfl rfl rfl (by
    intro error h
    rcases List.mem_singleton.1 h with h
    cases h)⟩

end Jubs
