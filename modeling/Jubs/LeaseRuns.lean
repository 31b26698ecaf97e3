/-
**One key, many deliveries: at most one body at a time.**

Any number of deliveries, run by any number of runtimes, reach one idempotency key.  Each of them
acquires the key, runs its handler under a timeout and a signal, and gives the key back or leaves
it to the body that outlived it.  Their steps and the calls that reach the store interleave in any
order.  A lease counts as renewed from the moment the store grants it to the moment its interval is
cleared, and it does not expire in between.

Main definitions:

* `Jubs.Body`, `Jubs.Stage`, `Jubs.KeyedDelivery` — where one delivery of the key stands;
* `Jubs.Act`, `Jubs.act` — what one delivery does by itself;
* `Jubs.KeyStep`, `Jubs.keyRun` — the deliveries and the store as one machine.

Main results:

* `Jubs.act_consistent` — a delivery's own step keeps its lease tied to its body;
* `Jubs.keyRun_step` — **the invariant of the machine**: whoever relies on the key holds it;
* `Jubs.body_unique`, `Jubs.no_start_when_complete` — what the invariant gives;
* `Jubs.lease_follows_body` — **both, over every run, on both stores**.
-/

import Jubs.Abort
import Jubs.Machine
import Jubs.MemoryIdempotency
import Jubs.RedisIdempotency
import Mathlib.Data.Fintype.Basic
import Mathlib.Logic.Function.Basic

set_option autoImplicit false

namespace Jubs

/-! ### One delivery of the key -/

/-- The promise of a handler body, which settles once the result has been validated. -/
inductive Body where
  | idle
  | executing
  | checking (value : Value)
  | settled (outcome : Except Raised Value)

/-- Whether the promise of a body has not settled yet. -/
def Body.isPending : Body → Bool
  | .executing | .checking _ => true
  | .idle | .settled _ => false

/-- The store call a delivery, or the body it left behind, ends its possession with. -/
inductive Settlement where
  | complete (kept : KeptResult)
  | release

/-- What an outcome ends a possession with. -/
def settlementOf : Except Raised Value → Settlement
  | .ok result => .complete (keptResultOf result)
  | .error _ => .release

/-- Where a delivery stands in `runUnderKey`.  In `settling` the store call is on its way, and the
delivery settles with `result` after it; `none` is a delivery that already failed, whose lease
follows its body. -/
inductive Stage where
  | arriving
  | holding (token : String)
  | racing (token : String) (race : Option (Except Raised Value))
  | classifying (token : String) (outcome : Except Thrown Value)
  | detached (token : String) (running : Running)
  | settling (token : String) (call : Settlement) (result : Option (Except Thrown Value))
  | stopping (token : String)
  | ended

/-- The token of a delivery that has acquired the key. -/
def Stage.token : Stage → Option String
  | .holding token | .racing token _ | .classifying token _ | .detached token _
  | .settling token _ _ | .stopping token => some token
  | .arriving | .ended => none

/-- The token a delivery relies on: from the lease it was granted until the interval that renews it
is cleared, or the call that ends its possession has run. -/
def Stage.holds : Stage → Option String
  | .holding token | .racing token _ | .classifying token _ | .detached token _
  | .settling token _ none => some token
  | .settling _ _ (some _) | .stopping _ | .arriving | .ended => none

/-- One delivery of the key: its stage, its body, the reason of its signal, the token its interval
renews, and what it settled with. -/
structure KeyedDelivery where
  stage : Stage
  body : Body
  reason : Option Thrown
  renewing : Option String
  result : Option (Except Thrown Value)

/-- A delivery that has not reached the store yet. -/
def KeyedDelivery.fresh : KeyedDelivery := ⟨.arriving, .idle, none, none, none⟩

/-- What one delivery does by itself, or has done to it, without the store. -/
inductive Act where
  /-- `run()` is called, and the handler body starts. -/
  | start
  /-- The handler returns, and its result is validated. -/
  | returns (value : Value)
  | throws (raised : Raised)
  /-- The result schema answers. -/
  | check
  /-- The timer of `timeoutMs` fires. -/
  | timeout
  /-- The runtime's sweep aborts the signal. -/
  | cancel
  /-- The runtime's `close` aborts the signal. -/
  | shutdown
  /-- The `catch` of the run, once its race is decided. -/
  | settle
  /-- `runUnderKey` reads the outcome of the run. -/
  | classify
  /-- The body that outlived the delivery settles. -/
  | bodyEnds
  /-- Another promise that an error carried settles. -/
  | foreignEnds (outcome : Except Raised Value)
  /-- The interval of a detached lease is cleared. -/
  | stop

namespace KeyedDelivery

/-- The body settles, and decides the race when the race is still open. -/
def settleBody (d : KeyedDelivery) (outcome : Except Raised Value) : KeyedDelivery :=
  { d with
    body := .settled outcome
    stage := match d.stage with
      | .racing token none => .racing token (some outcome)
      | stage => stage }

/-- The timer fires: the signal is aborted, and the race is lost when it is still open. -/
def expire (definition : JobDefinition) (timeoutMs : Number) (token : String)
    (race : Option (Except Raised Value)) (d : KeyedDelivery) : KeyedDelivery :=
  let expired := handlerTimeoutError definition.name timeoutMs
  { d with
    reason := abort expired d.reason
    stage := .racing token (some (race.getD (.error ⟨expired, d.reason.isNone⟩))) }

/-- `runUnderKey` reads a failed run: the lease follows the body the error left running, or the
interval is cleared and the key is released. -/
def classifyError (token : String) (error : Thrown) (d : KeyedDelivery) : KeyedDelivery :=
  match stillRunning error with
  | some running => { d with stage := .detached token running, result := some (.error error) }
  | none => { d with stage := .settling token .release (some (.error error)), renewing := none }

end KeyedDelivery

/-- One step of a delivery of a job defined by `definition`; `none` when the step is not open. -/
def act (definition : JobDefinition) (d : KeyedDelivery) (a : Act) : Option KeyedDelivery :=
  match a, d.stage, d.body with
  | .start, .holding token, _ => some { d with stage := .racing token none, body := .executing }
  | .returns value, _, .executing => some { d with body := .checking value }
  | .throws raised, _, .executing => some (d.settleBody (.error raised))
  | .check, _, .checking value => some (d.settleBody (checkedResult definition value))
  | .timeout, .racing token race, _ => definition.timeoutMs.map fun timeoutMs =>
      d.expire definition timeoutMs token race
  | .cancel, .racing _ _, _ =>
      some { d with reason := abort (cancelledError definition.name none) d.reason }
  | .shutdown, .racing _ _, _ =>
      some { d with reason := abort (shutdownAbortError definition.name none) d.reason }
  | .settle, .racing token (some outcome), _ =>
      some { d with
        stage := .classifying token (outcome.mapError (abortedWith definition.name d.reason)) }
  | .classify, .classifying token (.error error), _ => some (d.classifyError token error)
  | .classify, .classifying token (.ok result), _ =>
      some { d with
        stage := .settling token (.complete (keptResultOf result)) (some (.ok result))
        renewing := none }
  | .bodyEnds, .detached token .body, .settled outcome =>
      some { d with stage := .settling token (settlementOf outcome) none }
  | .foreignEnds outcome, .detached token .foreign, _ =>
      some { d with stage := .settling token (settlementOf outcome) none }
  | .stop, .stopping _, _ => some { d with stage := .ended, renewing := none }
  | _, _, _ => none

/-- A body starts only in a delivery that was granted the key and has not run yet. -/
theorem stage_of_start {definition : JobDefinition} {d d' : KeyedDelivery}
    (h : act definition d .start = some d') : ∃ token, d.stage = .holding token := by
  cases hstage : d.stage with
  | holding token => exact ⟨token, rfl⟩
  | _ => simp [act, hstage] at h

/-! ### A delivery's lease follows its body -/

/-- An outcome that says the body is still running. -/
def Detaching (outcome : Except Thrown Value) : Prop :=
  ∃ error, outcome = .error error ∧ stillRunning error = some .body

/-- A race that was lost to the timer while the body was running. -/
def LeftRunning (outcome : Except Raised Value) : Prop :=
  ∃ raised, outcome = .error raised ∧ stillRunning raised.error = some .body

/-- **How a delivery's stage, its body and its renewals hang together.** -/
def KeyedDelivery.Consistent (d : KeyedDelivery) : Prop :=
  match d.stage with
  | .arriving => d.body = .idle ∧ d.renewing = none
  | .holding token => d.body = .idle ∧ d.renewing = some token
  | .racing token none => d.body.isPending = true ∧ d.renewing = some token
  | .racing token (some outcome) =>
      (d.body.isPending = true → LeftRunning outcome) ∧ d.renewing = some token
  | .classifying token outcome =>
      (d.body.isPending = true → Detaching outcome) ∧ d.renewing = some token
  | .detached token running => (d.body.isPending = true → running = .body) ∧ d.renewing = some token
  | .settling token _ none => d.body.isPending = false ∧ d.renewing = some token
  | .settling _ _ (some _) => d.body.isPending = false ∧ d.renewing = none
  | .stopping token => d.body.isPending = false ∧ d.renewing = some token
  | .ended => d.body.isPending = false ∧ d.renewing = none

namespace KeyedDelivery

theorem fresh_consistent : fresh.Consistent := ⟨rfl, rfl⟩

/-- A body that is running keeps its delivery relying on the key. -/
theorem holds_of_pending {d : KeyedDelivery} (h : d.Consistent) (hbody : d.body.isPending = true) :
    ∃ token, d.stage.holds = some token := by
  obtain ⟨stage, body, reason, renewing, result⟩ := d
  cases stage with
  | arriving => simp_all [Consistent, Body.isPending]
  | holding token => exact ⟨token, rfl⟩
  | racing token race => exact ⟨token, rfl⟩
  | classifying token outcome => exact ⟨token, rfl⟩
  | detached token running => exact ⟨token, rfl⟩
  | settling token call result =>
      cases result with
      | none => exact ⟨token, rfl⟩
      | some result => simp_all [Consistent]
  | stopping token => simp_all [Consistent]
  | ended => simp_all [Consistent]

/-- A delivery that relies on the key renews it, under the token it acquired. -/
theorem renewing_of_holds {d : KeyedDelivery} (h : d.Consistent) {token : String}
    (hd : d.stage.holds = some token) : d.renewing = some token := by
  obtain ⟨stage, body, reason, renewing, result⟩ := d
  cases stage with
  | racing token race => cases race <;> simp_all [Consistent, Stage.holds]
  | settling token call result => cases result <;> simp_all [Consistent, Stage.holds]
  | _ => simp_all [Consistent, Stage.holds]

theorem token_of_renewing {d : KeyedDelivery} (h : d.Consistent) {token : String}
    (hd : d.renewing = some token) : d.stage.token = some token := by
  obtain ⟨stage, body, reason, renewing, result⟩ := d
  cases stage with
  | racing token race => cases race <;> simp_all [Consistent, Stage.token]
  | settling token call result => cases result <;> simp_all [Consistent, Stage.token]
  | _ => simp_all [Consistent, Stage.token]

/-- What a delivery's own step does to its lease: it stays tied to the body, and the delivery
relies on the same token as before or on none. -/
structure Follows (d d' : KeyedDelivery) : Prop where
  consistent : d'.Consistent
  holds : d'.stage.holds = d.stage.holds ∨ d'.stage.holds = none
  token : d'.stage.token = d.stage.token ∨ d'.stage.token = none

theorem settleBody_follows {d : KeyedDelivery} (h : d.Consistent) (hbody : d.body.isPending = true)
    (outcome : Except Raised Value) : Follows d (d.settleBody outcome) := by
  obtain ⟨stage, body, reason, renewing, result⟩ := d
  cases stage with
  | racing token race =>
      cases race with
      | none => exact ⟨⟨by simp [settleBody, Body.isPending], h.2⟩, Or.inl rfl, Or.inl rfl⟩
      | some race => exact ⟨⟨by simp [settleBody, Body.isPending], h.2⟩, Or.inl rfl, Or.inl rfl⟩
  | classifying token outcome =>
      exact ⟨⟨by simp [settleBody, Body.isPending], h.2⟩, Or.inl rfl, Or.inl rfl⟩
  | detached token running =>
      exact ⟨⟨by simp [settleBody, Body.isPending], h.2⟩, Or.inl rfl, Or.inl rfl⟩
  | settling token call result => cases result <;> simp_all [Consistent]
  | _ => simp_all [Consistent, Body.isPending]

theorem expire_follows {definition : JobDefinition} {timeoutMs : Number} {d : KeyedDelivery}
    (h : d.Consistent) {token : String} {race : Option (Except Raised Value)}
    (hd : d.stage = .racing token race) :
    Follows d (d.expire definition timeoutMs token race) := by
  obtain ⟨stage, body, reason, renewing, result⟩ := d
  obtain rfl : stage = .racing token race := hd
  cases race with
  | none => exact ⟨⟨fun _ => ⟨_, rfl, rfl⟩, h.2⟩, Or.inl rfl, Or.inl rfl⟩
  | some outcome => exact ⟨h, Or.inl rfl, Or.inl rfl⟩

/-- An outcome that lost its race to the timer detaches the delivery, whatever replaced the
error. -/
theorem detaching_of_leftRunning {name : String} {reason : Option Thrown}
    {outcome : Except Raised Value} (h : LeftRunning outcome) :
    Detaching (outcome.mapError (abortedWith name reason)) := by
  obtain ⟨raised, rfl, hrunning⟩ := h
  exact ⟨_, rfl, stillRunning_abortedWith hrunning⟩

theorem classifyError_follows {d : KeyedDelivery} (h : d.Consistent) {token : String}
    {error : Thrown} (hd : d.stage = .classifying token (.error error)) :
    Follows d (d.classifyError token error) := by
  obtain ⟨stage, body, reason, renewing, result⟩ := d
  obtain rfl : stage = .classifying token (.error error) := hd
  obtain ⟨hleft, hrenewing⟩ : (body.isPending = true → Detaching (.error error)) ∧
    renewing = some token := h
  have hleft : body.isPending = true → stillRunning error = some .body := by
    intro hbody
    obtain ⟨error', heq, hrunning⟩ := hleft hbody
    cases heq
    exact hrunning
  unfold classifyError
  split
  · rename_i running hrunning
    refine ⟨⟨?_, hrenewing⟩, Or.inl rfl, Or.inl rfl⟩
    intro hbody
    exact Option.some_inj.1 (hrunning.symm.trans (hleft hbody))
  · rename_i hnone
    refine ⟨⟨?_, rfl⟩, Or.inr rfl, Or.inl rfl⟩
    -- a body that still runs would have been carried by the error
    by_contra hbody
    rw [hleft (by simpa using hbody)] at hnone
    cases hnone

end KeyedDelivery

/-- **A delivery's own step keeps its lease tied to its body.** -/
theorem act_follows {definition : JobDefinition} {d d' : KeyedDelivery} {a : Act}
    (h : d.Consistent) (ha : act definition d a = some d') : d.Follows d' := by
  unfold act at ha
  split at ha
  case h_1 token hstage =>
    obtain rfl := Option.some_inj.1 ha
    simp only [KeyedDelivery.Consistent, hstage] at h
    exact ⟨⟨rfl, h.2⟩, Or.inl (by simp [hstage, Stage.holds]),
      Or.inl (by simp [hstage, Stage.token])⟩
  case h_2 value hbody =>
    obtain rfl := Option.some_inj.1 ha
    refine ⟨?_, Or.inl rfl, Or.inl rfl⟩
    simpa [KeyedDelivery.Consistent, hbody, Body.isPending] using h
  case h_3 raised hbody =>
    obtain rfl := Option.some_inj.1 ha
    exact KeyedDelivery.settleBody_follows h (by simp [hbody, Body.isPending]) _
  case h_4 value hbody =>
    obtain rfl := Option.some_inj.1 ha
    exact KeyedDelivery.settleBody_follows h (by simp [hbody, Body.isPending]) _
  case h_5 token race hstage =>
    obtain ⟨timeoutMs, -, rfl⟩ := Option.map_eq_some_iff.1 ha
    exact KeyedDelivery.expire_follows h hstage
  case h_6 token race hstage =>
    obtain rfl := Option.some_inj.1 ha
    exact ⟨h, Or.inl rfl, Or.inl rfl⟩
  case h_7 token race hstage =>
    obtain rfl := Option.some_inj.1 ha
    exact ⟨h, Or.inl rfl, Or.inl rfl⟩
  case h_8 token outcome hstage =>
    obtain rfl := Option.some_inj.1 ha
    simp only [KeyedDelivery.Consistent, hstage] at h
    refine ⟨⟨?_, h.2⟩, Or.inl (by simp [hstage, Stage.holds]),
      Or.inl (by simp [hstage, Stage.token])⟩
    intro hbody
    exact KeyedDelivery.detaching_of_leftRunning (h.1 hbody)
  case h_9 token error hstage =>
    obtain rfl := Option.some_inj.1 ha
    exact KeyedDelivery.classifyError_follows h hstage
  case h_10 token result hstage =>
    obtain rfl := Option.some_inj.1 ha
    simp only [KeyedDelivery.Consistent, hstage] at h
    refine ⟨⟨?_, rfl⟩, Or.inr rfl, Or.inl (by simp [hstage, Stage.token])⟩
    -- a run that resolved was not lost to the timer
    by_contra hbody
    obtain ⟨error, heq, -⟩ := h.1 (by simpa using hbody)
    cases heq
  case h_11 token outcome hstage hbody =>
    obtain rfl := Option.some_inj.1 ha
    simp only [KeyedDelivery.Consistent, hstage] at h
    exact ⟨⟨by simp [hbody, Body.isPending], h.2⟩, Or.inl (by simp [hstage, Stage.holds]),
      Or.inl (by simp [hstage, Stage.token])⟩
  case h_12 outcome token hstage =>
    obtain rfl := Option.some_inj.1 ha
    simp only [KeyedDelivery.Consistent, hstage] at h
    refine ⟨⟨?_, h.2⟩, Or.inl (by simp [hstage, Stage.holds]),
      Or.inl (by simp [hstage, Stage.token])⟩
    by_contra hbody
    cases h.1 (by simpa using hbody)
  case h_13 token hstage =>
    obtain rfl := Option.some_inj.1 ha
    simp only [KeyedDelivery.Consistent, hstage] at h
    exact ⟨⟨h.1, rfl⟩, Or.inr rfl, Or.inr rfl⟩
  case h_14 => cases ha

/-! ### The deliveries and the store -/

/-- The store's state of the key, the tokens minted so far, and the deliveries of the key. -/
structure KeyRun (σ ι : Type) where
  store : σ
  minted : List String
  deliveries : ι → KeyedDelivery

/-- A step of the machine: a call that reaches the store, or a step of one delivery by itself. -/
inductive KeyStep (ι : Type) where
  | acquire (i : ι) (token : String) (now : ℕ)
  | act (i : ι) (a : Act)
  | call (i : ι) (now : ℕ)
  | renew (i : ι) (now : ℕ)
  | forget
  | expire

/-- The steps that free a complete key. -/
def KeyStep.frees {ι : Type} : KeyStep ι → Bool
  | .forget | .expire => true
  | _ => false

/-- What a delivery does with the answer of `acquire`.  A lease is renewed from here on. -/
def KeyedDelivery.received (key : String) (d : KeyedDelivery) :
    Except Thrown IdempotencyLease → KeyedDelivery
  | .ok (.acquired token) => { d with stage := .holding token, renewing := some token }
  | .ok .held => { d with stage := .ended, result := some (.error (leaseHeldError key)) }
  | .ok (.complete kept) => { d with stage := .ended, result := some (.ok (kept.get "result")) }
  | .error error => { d with stage := .ended, result := some (.error error) }

/-- What a delivery does once the call that ends its possession has run. -/
def KeyedDelivery.returned (token : String) (d : KeyedDelivery) :
    Option (Except Thrown Value) → KeyedDelivery
  | some result => { d with stage := .ended, result := some result }
  | none => { d with stage := .stopping token }

/-- The call that ends a possession. -/
def Store.settle {σ : Type} (S : Store σ) (now : ℕ) (token : String) : Settlement → σ → σ
  | .complete kept, s => S.complete now token kept s
  | .release, s => S.release token s

section

variable {σ ι : Type} [DecidableEq ι] [Fintype ι] (S : Store σ) (key : String)
  (definition : ι → JobDefinition)

/-- No delivery has arrived, and the key is free. -/
def KeyRun.init : KeyRun σ ι := ⟨S.empty, [], fun _ => .fresh⟩

/-- One delivery moves on. -/
def KeyRun.move (s : KeyRun σ ι) (i : ι) (d : KeyedDelivery) : KeyRun σ ι :=
  { s with deliveries := Function.update s.deliveries i d }

/-- Whether the key may expire: no lease does while a runtime renews it. -/
def KeyRun.expirable (s : KeyRun σ ι) : Bool :=
  match S.view s.store with
  | .held token => decide (∀ i, (s.deliveries i).renewing ≠ some token)
  | _ => true

/-- **The machine**: any number of deliveries of one key, and the store. -/
def keyRun : Machine (KeyRun σ ι) (KeyStep ι) := fun s step =>
  match step with
  | .acquire i token now =>
      match (s.deliveries i).stage with
      | .arriving =>
          if token ∈ s.minted then none
          else
            let reply := S.acquire now token s.store
            some { s.move i ((s.deliveries i).received key reply.2) with
              store := reply.1
              minted := token :: s.minted }
      | _ => none
  | .act i a => (act (definition i) (s.deliveries i) a).map (s.move i)
  | .call i now =>
      match (s.deliveries i).stage with
      | .settling token call result =>
          some { s.move i ((s.deliveries i).returned token result) with
            store := S.settle now token call s.store }
      | _ => none
  | .renew i now =>
      (s.deliveries i).renewing.map fun token => { s with store := S.renew now token s.store }
  | .forget => some { s with store := (S.forget s.store).1 }
  | .expire => if s.expirable S then some { s with store := S.expire s.store } else none

/-! ### The invariant -/

/-- **The invariant**: every delivery's lease is tied to its body, whoever relies on the key holds
it, and no two deliveries share a token. -/
structure KeyInv (s : KeyRun σ ι) : Prop where
  consistent : ∀ i, (s.deliveries i).Consistent
  owns : ∀ i token, (s.deliveries i).stage.holds = some token → S.view s.store = .held token
  minted : ∀ i token, (s.deliveries i).stage.token = some token → token ∈ s.minted
  distinct : ∀ i j token, (s.deliveries i).stage.token = some token →
    (s.deliveries j).stage.token = some token → i = j

variable {S key definition} {s t : KeyRun σ ι}

omit [DecidableEq ι] [Fintype ι] in
theorem keyInv_init : KeyInv S (KeyRun.init S : KeyRun σ ι) where
  consistent _ := KeyedDelivery.fresh_consistent
  owns _ _ h := by cases h
  minted _ _ h := by cases h
  distinct _ _ _ h := by cases h

omit [Fintype ι] in
@[simp] theorem KeyRun.move_self (s : KeyRun σ ι) (i : ι) (d : KeyedDelivery) :
    (s.move i d).deliveries i = d := by simp [KeyRun.move]

omit [Fintype ι] in
theorem KeyRun.move_of_ne (s : KeyRun σ ι) {i j : ι} (h : j ≠ i) (d : KeyedDelivery) :
    (s.move i d).deliveries j = s.deliveries j := by simp [KeyRun.move, h]

omit [DecidableEq ι] [Fintype ι] in
/-- A delivery that relies on the key has the token it relies on. -/
theorem KeyInv.token_of_holds (h : KeyInv S s) {i : ι} {token : String}
    (hi : (s.deliveries i).stage.holds = some token) :
    (s.deliveries i).stage.token = some token :=
  KeyedDelivery.token_of_renewing (h.consistent i)
    (KeyedDelivery.renewing_of_holds (h.consistent i) hi)

omit [Fintype ι] in
/-- **One delivery moves on, and the store may change with it**: the invariant is kept when the new
lease is tied to its body, a new token was not minted before, and the key is still held by whoever
relies on it. -/
theorem KeyInv.update (h : KeyInv S s) {i : ι} {d : KeyedDelivery} {store : σ}
    {minted : List String} (hd : d.Consistent) (hminted : ∀ token ∈ s.minted, token ∈ minted)
    (htoken : ∀ token, d.stage.token = some token →
      (s.deliveries i).stage.token = some token ∨ (token ∉ s.minted ∧ token ∈ minted))
    (hself : ∀ token, d.stage.holds = some token → S.view store = .held token)
    (hothers : ∀ j, j ≠ i → ∀ token, (s.deliveries j).stage.holds = some token →
      S.view store = .held token) :
    KeyInv S { s.move i d with store := store, minted := minted } := by
  have hcases : ∀ (P : KeyedDelivery → Prop) j, P d → (j ≠ i → P (s.deliveries j)) →
      P ((s.move i d).deliveries j) := by
    intro P j hP hother
    by_cases hji : j = i
    · rw [hji, KeyRun.move_self]
      exact hP
    · rw [KeyRun.move_of_ne s hji]
      exact hother hji
  -- a delivery other than `i` never has the token that `i` has after the step
  have hother : ∀ j, j ≠ i → ∀ token, (s.deliveries j).stage.token = some token →
      d.stage.token ≠ some token := by
    intro j hji token hj hi
    rcases htoken token hi with hsame | ⟨hnew, -⟩
    · exact hji (h.distinct j i token hj hsame)
    · exact hnew (h.minted j token hj)
  refine ⟨?_, ?_, ?_, ?_⟩
  · intro j
    exact hcases KeyedDelivery.Consistent j hd fun _ => h.consistent j
  · intro j token
    exact hcases (fun d => d.stage.holds = some token → S.view store = .held token) j (hself token)
      fun hji => hothers j hji token
  · intro j token
    refine hcases (fun d => d.stage.token = some token → token ∈ minted) j ?_
      fun _ hj => hminted token (h.minted j token hj)
    intro hi
    rcases htoken token hi with hsame | ⟨-, hnew⟩
    · exact hminted token (h.minted i token hsame)
    · exact hnew
  · intro j k token hj hk
    by_cases hji : j = i
    · by_cases hki : k = i
      · exact hji.trans hki.symm
      · rw [hji, KeyRun.move_self] at hj
        rw [KeyRun.move_of_ne s hki] at hk
        exact absurd hj (hother k hki token hk)
    · rw [KeyRun.move_of_ne s hji] at hj
      by_cases hki : k = i
      · rw [hki, KeyRun.move_self] at hk
        exact absurd hk (hother j hji token hj)
      · rw [KeyRun.move_of_ne s hki] at hk
        exact h.distinct j k token hj hk

omit [Fintype ι] in
/-- A delivery moves on by itself. -/
theorem KeyInv.move (h : KeyInv S s) {i : ι} {d : KeyedDelivery}
    (hd : (s.deliveries i).Follows d) : KeyInv S (s.move i d) := by
  refine h.update hd.consistent (fun _ => id) ?_ ?_ fun j _ token => h.owns j token
  · intro token hi
    rcases hd.token with heq | hnone
    · exact Or.inl (heq ▸ hi)
    · simp [hnone] at hi
  · intro token hi
    rcases hd.holds with heq | hnone
    · exact h.owns i token (heq ▸ hi)
    · simp [hnone] at hi

omit [DecidableEq ι] [Fintype ι] in
/-- The store changes, and the key is still held by whoever relies on it. -/
theorem KeyInv.store (h : KeyInv S s) {store : σ}
    (howns : ∀ token, S.view s.store = .held token → S.view store = .held token) :
    KeyInv S { s with store := store } :=
  ⟨h.consistent, fun i token hi => howns token (h.owns i token hi), h.minted, h.distinct⟩

/-- A possession's own call leaves a key alone that another token holds. -/
theorem Store.view_settle_of_ne {token token' : String} (hne : token' ≠ token) {store : σ}
    (hview : S.view store = .held token') (now : ℕ) (call : Settlement) :
    S.view (S.settle now token call store) = .held token' := by
  cases call with
  | release => rw [Store.settle, S.view_release, hview, (KeyState.held_of_other hne .null).2.1]
  | complete kept =>
      rcases S.view_complete now token kept store with heq | ⟨hcomplete, -⟩
      · rw [Store.settle, heq, hview, (KeyState.held_of_other hne kept.json).1]
      · simp [hview, KeyState.isComplete] at hcomplete

omit [Fintype ι] in
/-- A delivery that finds the key held or complete ends, and nothing else changes. -/
theorem KeyInv.turnedAway (h : KeyInv S s) {i : ι} {store : σ}
    {lease : Except Thrown IdempotencyLease}
    (hfresh : (s.deliveries i).body = .idle ∧ (s.deliveries i).renewing = none)
    (hstore : S.view store = S.view s.store)
    (hlease : lease = .ok .held ∨ ∃ kept, lease = .ok (.complete kept)) (token : String) :
    KeyInv S { s.move i ((s.deliveries i).received key lease) with
      store := store
      minted := token :: s.minted } := by
  have hended : ((s.deliveries i).received key lease).Consistent ∧
      ((s.deliveries i).received key lease).stage = .ended := by
    rcases hlease with rfl | ⟨kept, rfl⟩
    · exact ⟨⟨by simp [KeyedDelivery.received, hfresh.1, Body.isPending], hfresh.2⟩, rfl⟩
    · exact ⟨⟨by simp [KeyedDelivery.received, hfresh.1, Body.isPending], hfresh.2⟩, rfl⟩
  refine h.update hended.1 (fun _ => List.mem_cons_of_mem _) ?_ ?_ ?_
  · intro token' htoken'
    rw [hended.2] at htoken'
    cases htoken'
  · intro token' htoken'
    rw [hended.2] at htoken'
    cases htoken'
  · intro j _ token' hj
    exact hstore.trans (h.owns j token' hj)

omit [Fintype ι] in
theorem KeyInv.acquire (h : KeyInv S s) {i : ι} (hi : (s.deliveries i).stage = .arriving)
    {token : String} (hnew : token ∉ s.minted) (now : ℕ) :
    KeyInv S { s.move i ((s.deliveries i).received key (S.acquire now token s.store).2) with
      store := (S.acquire now token s.store).1
      minted := token :: s.minted } := by
  have hfresh : (s.deliveries i).body = .idle ∧ (s.deliveries i).renewing = none := by
    have hi' := h.consistent i
    simpa only [KeyedDelivery.Consistent, hi] using hi'
  cases hview : S.view s.store with
  | absent =>
      have hstore : S.view (S.acquire now token s.store).1 = .held token := by
        rw [S.view_acquire, hview]
        rfl
      have hlease : (S.acquire now token s.store).2 = .ok (.acquired token) := by
        rw [S.answer_acquire, hview]
        rfl
      rw [hlease]
      refine h.update ⟨hfresh.1, rfl⟩ (fun _ => List.mem_cons_of_mem _) ?_ ?_ ?_
      · intro token' htoken'
        obtain rfl : token = token' := Option.some_inj.1 htoken'
        exact Or.inr ⟨hnew, List.mem_cons_self⟩
      · intro token' htoken'
        obtain rfl : token = token' := Option.some_inj.1 htoken'
        exact hstore
      -- nobody relied on a key that was absent
      · intro j _ token' hj
        simp [h.owns j token' hj] at hview
  | held token' =>
      refine h.turnedAway hfresh ?_ (Or.inl ?_) token
      · rw [S.view_acquire, hview]
        rfl
      · rw [S.answer_acquire, hview]
        rfl
  | complete kept =>
      refine h.turnedAway hfresh ?_ (Or.inr ⟨.ofJson kept, ?_⟩) token
      · rw [S.view_acquire, hview]
        rfl
      · rw [S.answer_acquire, hview]
        rfl

omit [Fintype ι] in
theorem KeyInv.call (h : KeyInv S s) {i : ι} {token : String} {call : Settlement}
    {result : Option (Except Thrown Value)}
    (hi : (s.deliveries i).stage = .settling token call result) (now : ℕ) :
    KeyInv S { s.move i ((s.deliveries i).returned token result) with
      store := S.settle now token call s.store } := by
  have hi' := h.consistent i
  have htoken : (s.deliveries i).stage.token = some token := by rw [hi]; rfl
  simp only [KeyedDelivery.Consistent, hi] at hi'
  refine h.update ?_ (fun _ => id) ?_ ?_ ?_
  · cases result with
    | none => exact hi'
    | some result => exact hi'
  · intro token' htoken'
    cases result with
    | none => exact Or.inl (htoken.trans htoken')
    | some result => cases htoken'
  · intro token' htoken'
    cases result with
    | none => cases htoken'
    | some result => cases htoken'
  · intro j hji token' hj
    refine Store.view_settle_of_ne ?_ (h.owns j token' hj) now call
    rintro rfl
    exact hji (h.distinct j i token' (h.token_of_holds hj) htoken)

/-- **The machine keeps its invariant.** -/
theorem keyRun_step {step : KeyStep ι} (h : KeyInv S s)
    (hstep : keyRun S key definition s step = some t) : KeyInv S t := by
  cases step with
  | acquire i token now =>
      simp only [keyRun] at hstep
      split at hstep
      · rename_i hi
        split at hstep
        · cases hstep
        · rename_i hnew
          obtain rfl := Option.some_inj.1 hstep
          exact h.acquire hi hnew now
      · cases hstep
  | act i a =>
      obtain ⟨d, hd, rfl⟩ := Option.map_eq_some_iff.1 hstep
      exact h.move (act_follows (h.consistent i) hd)
  | call i now =>
      simp only [keyRun] at hstep
      split at hstep
      · rename_i hi
        obtain rfl := Option.some_inj.1 hstep
        exact h.call hi now
      · cases hstep
  | renew i now =>
      obtain ⟨token, -, rfl⟩ := Option.map_eq_some_iff.1 hstep
      refine h.store fun token' hview => ?_
      rw [S.view_renew, hview]
  | forget =>
      obtain rfl := Option.some_inj.1 hstep
      refine h.store fun token hview => ?_
      rw [S.view_forget, hview]
      rfl
  | expire =>
      simp only [keyRun] at hstep
      split at hstep
      · rename_i hexpirable
        obtain rfl := Option.some_inj.1 hstep
        refine ⟨h.consistent, ?_, h.minted, h.distinct⟩
        -- nobody relies on a key that may expire
        intro i token hi
        simp only [KeyRun.expirable, h.owns i token hi, decide_eq_true_eq] at hexpirable
        exact absurd (KeyedDelivery.renewing_of_holds (h.consistent i) hi) (hexpirable i)
      · cases hstep

/-! ### What the invariant gives -/

omit [DecidableEq ι] [Fintype ι] in
/-- **At most one body of the key is running.** -/
theorem body_unique (h : KeyInv S s) {i j : ι} (hi : (s.deliveries i).body.isPending = true)
    (hj : (s.deliveries j).body.isPending = true) : i = j := by
  obtain ⟨token, hitoken⟩ := KeyedDelivery.holds_of_pending (h.consistent i) hi
  obtain ⟨token', hjtoken⟩ := KeyedDelivery.holds_of_pending (h.consistent j) hj
  have heq : KeyState.held token = .held token' :=
    (h.owns i token hitoken).symm.trans (h.owns j token' hjtoken)
  cases heq
  exact h.distinct i j token (h.token_of_holds hitoken) (h.token_of_holds hjtoken)

/-- No body starts while the key is complete. -/
theorem no_start_when_complete (h : KeyInv S s) (hcomplete : (S.view s.store).isComplete = true)
    {i : ι} (hstart : keyRun S key definition s (.act i .start) = some t) : False := by
  obtain ⟨d, hd, -⟩ := Option.map_eq_some_iff.1 hstart
  obtain ⟨token, hstage⟩ := stage_of_start hd
  have hheld : S.view s.store = .held token := h.owns i token (by rw [hstage]; rfl)
  rw [hheld] at hcomplete
  cases hcomplete

/-- The call that ends a possession leaves a complete key complete. -/
theorem Store.complete_settle {store : σ} (hcomplete : (S.view store).isComplete = true) (now : ℕ)
    (token : String) (call : Settlement) :
    (S.view (S.settle now token call store)).isComplete = true := by
  obtain ⟨kept, hview⟩ : ∃ kept, S.view store = .complete kept := by
    cases hview : S.view store with
    | complete kept => exact ⟨kept, rfl⟩
    | _ => simp [hview, KeyState.isComplete] at hcomplete
  cases call with
  | release => rw [Store.settle, S.view_release, hview]; rfl
  | complete kept =>
      rcases S.view_complete now token kept store with heq | ⟨-, heq⟩
      · rw [Store.settle, heq, hview]; rfl
      · rw [Store.settle, heq]; rfl

/-- A step that neither forgets nor expires leaves a complete key complete. -/
theorem complete_step {step : KeyStep ι} (hcomplete : (S.view s.store).isComplete = true)
    (hfrees : step.frees = false) (hstep : keyRun S key definition s step = some t) :
    (S.view t.store).isComplete = true := by
  cases step with
  | acquire i token now =>
      simp only [keyRun] at hstep
      split at hstep
      · split at hstep
        · cases hstep
        · obtain rfl := Option.some_inj.1 hstep
          show (S.view (S.acquire now token s.store).1).isComplete = true
          rw [S.view_acquire]
          cases hview : S.view s.store with
          | complete kept => rfl
          | _ => simp [hview, KeyState.isComplete] at hcomplete
      · cases hstep
  | act i a =>
      obtain ⟨d, -, rfl⟩ := Option.map_eq_some_iff.1 hstep
      exact hcomplete
  | call i now =>
      simp only [keyRun] at hstep
      split at hstep
      · obtain rfl := Option.some_inj.1 hstep
        exact Store.complete_settle hcomplete now _ _
      · cases hstep
  | renew i now =>
      obtain ⟨token, -, rfl⟩ := Option.map_eq_some_iff.1 hstep
      rwa [S.view_renew]
  | forget => cases hfrees
  | expire => cases hfrees

end

/-! ### Both drivers -/

/-- The two drivers of the package. -/
inductive Driver where
  | redis
  | memory

/-- What a driver keeps of one key. -/
def Driver.Key : Driver → Type
  | .redis => RedisKey
  | .memory => MemoryKey

/-- The store of a driver. -/
def Driver.store : (driver : Driver) → Store driver.Key
  | .redis => redisStore
  | .memory => memoryStore

/-- **A lease follows its body.**  In every state that any deliveries of a key reach, on either
driver, at most one body of the key is running; and from a state in which the key is complete, no
body starts before a step that forgets the key or expires it. -/
theorem lease_follows_body (driver : Driver) {ι : Type} [DecidableEq ι] [Fintype ι] (key : String)
    (definition : ι → JobDefinition) {s : KeyRun driver.Key ι}
    (h : (keyRun driver.store key definition).Reaches (KeyRun.init driver.store) s) :
    (∀ i j, (s.deliveries i).body.isPending = true → (s.deliveries j).body.isPending = true →
      i = j) ∧
    ∀ l t, (driver.store.view s.store).isComplete = true → (∀ step ∈ l, step.frees = false) →
      (keyRun driver.store key definition).exec s l = some t → ∀ i, KeyStep.act i .start ∉ l := by
  have hinv : KeyInv driver.store s := h.invariant (fun _ _ _ => keyRun_step) keyInv_init
  refine ⟨fun i j => body_unique hinv, fun l t hcomplete hfrees hexec i => ?_⟩
  refine Machine.not_mem_of_blocked
    (P := fun s => KeyInv driver.store s ∧ (driver.store.view s.store).isComplete = true)
    ?_ ?_ hexec
    hfrees ⟨hinv, hcomplete⟩
  · intro s step t hfrees hs hstep
    exact ⟨keyRun_step hs.1 hstep, complete_step hs.2 hfrees hstep⟩
  · intro s t hs hstart
    exact no_start_when_complete hs.1 hs.2 hstart

/-- A definition whose handler is given five milliseconds. -/
def timedDefinition : JobDefinition where
  name := "invoice.send"
  queue := "billing"
  payload := ⟨fun v => .ok (.value v)⟩
  result := none
  awaits := []
  version := none
  migrations := []
  delivery := none
  schedule := false
  idempotencyKey := some fun _ => .ok "7"
  timeoutMs := some 5

/-- A cancelled delivery whose body outlives its timeout: the delivery has failed with a
`CancelledError`, and the body still runs. -/
def detachedRun : List (KeyStep Bool) :=
  [.acquire true "a" 0, .act true .start, .act true .cancel, .act true .timeout, .act true .settle,
    .act true .classify]

/-- The body of that delivery returns, and its result is recorded. -/
def recordedRun : List (KeyStep Bool) :=
  detachedRun ++ [.act true (.returns .undefined), .act true .check, .act true .bodyEnds,
    .call true 9]

/-- On that run, no other body runs beside the one left behind, and none starts once its result is
recorded. -/
theorem lease_follows_body_example :
    (∃ s, (keyRun redisStore "invoice.send:7" fun _ : Bool => timedDefinition).exec
        (KeyRun.init redisStore) detachedRun = some s ∧
      (s.deliveries true).body.isPending = true ∧
      ∀ j, (s.deliveries j).body.isPending = true → true = j) ∧
    ∃ s, (keyRun memoryStore "invoice.send:7" fun _ : Bool => timedDefinition).exec
        (KeyRun.init memoryStore) recordedRun = some s ∧
      ∀ i, KeyStep.act i .start ∉ [KeyStep.acquire false "b" 10, KeyStep.act true .stop] := by
  refine ⟨⟨_, rfl, rfl, ?_⟩, ⟨_, rfl, ?_⟩⟩
  · intro j hj
    exact (lease_follows_body .redis "invoice.send:7" (fun _ : Bool => timedDefinition)
      (.of_exec (l := detachedRun) rfl)).1 true j rfl hj
  · exact (lease_follows_body .memory "invoice.send:7" (fun _ : Bool => timedDefinition)
      (.of_exec (l := recordedRun) rfl)).2 _ _ rfl (by simp [KeyStep.frees]) rfl

end Jubs
