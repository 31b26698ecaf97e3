/-
**One delivery under its idempotency key, with a store that may fail at any moment.**

`runUnderKey` acquires the key, renews the lease on an interval while the handler runs, and ends the
possession: by recording the result, by giving the key back, or by leaving both to the body that
outlived its delivery.  Every call of the store may fail.  The interval and what follows a body that
was left behind catch their failures; the two calls `runUnderKey` awaits itself do not.

Main definitions:

* `Jubs.KeyedRun`, `Jubs.LeftLease`, `Jubs.KeySettlement` — where one call of `runUnderKey` stands;
* `Jubs.KeyEvent`, `Jubs.keySettlement` — what the store and the run do to it;
* `Jubs.KeepsError` — a call that rejects with the error of its run, and is classified by it.

Main results:

* `Jubs.settled_runUnderKey` — the dispatch's own reading of `runUnderKey` is where the call
  settles;
* `Jubs.keepsError_iff` — **when a failed run keeps its error**;
* `Jubs.release_replaces` — a cancelled run whose error is replaced.
-/

import Jubs.Dispatch
import Jubs.Machine

set_option autoImplicit false

namespace Jubs

/-! ### The call -/

/-- How far a call of `runUnderKey` has come. -/
inductive KeyedRun where
  | acquiring
  | running (token : String)
  | completing (token : String) (result : Value)
  | releasing (token : String) (error : Thrown)
  | settled (outcome : Except Thrown Value)

/-- What `settleWhenBodyEnds` waits for: the body, or the store. -/
inductive LeftLease where
  | none
  | waiting (token : String)
  | settling (token : String)
  | over

/-- One call of `runUnderKey`: how far it has come, the token its interval renews, the renewals that
are on their way, the lease it left behind, and the errors it wrote to the console.  What the store
answered to `acquire` and to the call that was awaited, and what the run settled with, are kept as
they came. -/
structure KeySettlement where
  call : KeyedRun
  renewing : Option String
  renewals : ℕ
  left : LeftLease
  logged : List Thrown
  leased : Option (Except Thrown IdempotencyLease)
  ran : Option (Except Thrown Value)
  answered : Option (Except Thrown Unit)

/-- The start of a call. -/
def KeySettlement.start : KeySettlement := ⟨.acquiring, none, 0, .none, [], none, none, none⟩

/-- What happens to a call. -/
inductive KeyEvent where
  /-- The store answers `acquire`. -/
  | leased (answer : Except Thrown IdempotencyLease)
  /-- The interval fires, and the store is asked to renew the lease. -/
  | tick
  /-- A renewal settles. -/
  | renewed (answer : Except Thrown Unit)
  /-- The run settles. -/
  | ran (outcome : Except Thrown Value)
  /-- The `complete` or the `release` that is awaited settles. -/
  | stored (answer : Except Thrown Unit)
  /-- The body that was left behind settles. -/
  | bodyEnded (outcome : Except Thrown Value)
  /-- What the lease that was left behind ends with settles. -/
  | leftStored (answer : Except Thrown Unit)

namespace KeySettlement

variable (s : KeySettlement)

/-- The answer of `acquire`.  A lease is renewed from here on. -/
def lease (key : String) : Except Thrown IdempotencyLease → KeySettlement
  | .ok (.acquired token) => { s with call := .running token, renewing := some token }
  | .ok .held => { s with call := .settled (.error (leaseHeldError key)) }
  | .ok (.complete kept) => { s with call := .settled (.ok (kept.get "result")) }
  | .error error => { s with call := .settled (.error error) }

/-- A rejection that is written to the console, and goes no further. -/
def log : Except Thrown Unit → KeySettlement
  | .ok () => s
  | .error error => { s with logged := s.logged ++ [error] }

/-- The run has settled. -/
def finish (token : String) : Except Thrown Value → KeySettlement
  | .ok result => { s with call := .completing token result, renewing := none }
  | .error error =>
      match stillRunning error with
      | some _ => { s with call := .settled (.error error), left := .waiting token }
      | none => { s with call := .releasing token error, renewing := none }

end KeySettlement

/-- What a call settles with once the store has answered the call that was awaited: what the store
threw is thrown on. -/
def concluded (outcome : Except Thrown Value) : Except Thrown Unit → Except Thrown Value
  | .ok () => outcome
  | .error error => .error error

/-- `runUnderKey(store, key, run)`, event by event. -/
def keySettlement (key : String) : Machine KeySettlement KeyEvent := fun s event =>
  match event with
  | .leased answer =>
      match s.call with
      | .acquiring => some { s.lease key answer with leased := some answer }
      | _ => none
  | .tick => s.renewing.map fun _ => { s with renewals := s.renewals + 1 }
  | .renewed answer =>
      if s.renewals = 0 then none else some { s.log answer with renewals := s.renewals - 1 }
  | .ran outcome =>
      match s.call with
      | .running token => some { s.finish token outcome with ran := some outcome }
      | _ => none
  | .stored answer =>
      match s.call with
      | .completing _ result =>
          some { s with call := .settled (concluded (.ok result) answer), answered := some answer }
      | .releasing _ error =>
          some { s with
            call := .settled (concluded (.error error) answer)
            answered := some answer }
      | _ => none
  | .bodyEnded _ =>
      match s.left with
      | .waiting token => some { s with left := .settling token }
      | _ => none
  | .leftStored answer =>
      match s.left with
      | .settling _ => some { s.log answer with left := .over, renewing := none }
      | _ => none

/-! ### What a call settles with -/

/-- The driver that answers as the store answered this call. -/
def KeySettlement.driver (s : KeySettlement) : JobDriver where
  acquire := fun _ => s.leased
  complete := fun _ _ _ => s.answered
  release := fun _ _ => s.answered
  read := fun _ _ => none
  bury := fun _ _ => none

/-- The run of this call. -/
def KeySettlement.run {ω : Type} (s : KeySettlement) : Effect ω Thrown Value := Effect.await s.ran

/-- How a call settled whose run had failed: the body it left running keeps the lease and nothing is
awaited, or the store was asked to release it. -/
inductive FailedWith (s : KeySettlement) (error : Thrown) (outcome : Except Thrown Value) :
    Prop where
  | detached (running : (stillRunning error).isSome = true) (kept : outcome = .error error)
  | released (ended : stillRunning error = none) (answer : Except Thrown Unit)
      (answered : s.answered = some answer) (concludes : outcome = concluded (.error error) answer)

/-- What is known of a call that has come so far. -/
def KeySettlement.Sound (key : String) (s : KeySettlement) : Prop :=
  match s.call with
  | .acquiring => s.ran = none
  | .running token => s.leased = some (.ok (.acquired token))
  | .completing token result =>
      s.leased = some (.ok (.acquired token)) ∧ s.ran = some (.ok result)
  | .releasing token error => s.leased = some (.ok (.acquired token)) ∧
      s.ran = some (.error error) ∧ stillRunning error = none
  | .settled outcome =>
      runUnderKey s.driver key (s.run : Effect Unit Thrown Value) = some ([], outcome) ∧
        ∀ error, s.ran = some (.error error) → FailedWith s error outcome

section

variable {key : String} {s t : KeySettlement}

/-- What a delivery does under a lease it was granted is what it does once its run has settled. -/
theorem runUnderKey_acquired {token : String} {outcome : Except Thrown Value}
    (hleased : s.leased = some (.ok (.acquired token))) (hran : s.ran = some outcome) :
    runUnderKey s.driver key (s.run : Effect Unit Thrown Value) =
      settleLease s.driver key token outcome := by
  have hacquire : s.driver.acquire key = some (.ok (.acquired token)) := hleased
  have hattempt : (s.run : Effect Unit Thrown Value).attempt = some ([], .ok outcome) := by
    rw [KeySettlement.run, hran]
    rfl
  rw [runUnderKey, hacquire]
  change (Effect.ofExcept (.ok (.acquired token)) >>= underLease s.driver key s.run) = _
  rw [Effect.ofExcept_ok_bind, underLease, hattempt]
  exact Effect.ofExcept_ok_bind outcome (settleLease s.driver key token)

/-- A call the store is asked to record a result for settles with what it is answered. -/
theorem settleLease_ok {driver : JobDriver} {token : String} {result : Value}
    {answer : Except Thrown Unit}
    (h : driver.complete key token (keptResultOf result) = some answer) :
    (settleLease driver key token (.ok result) : Effect Unit Thrown Value) =
      some ([], concluded (.ok result) answer) := by
  rw [settleLease, h]
  cases answer <;> rfl

/-- And so does one the store is asked to release the key for. -/
theorem settleLease_error {driver : JobDriver} {token : String} {error : Thrown}
    {answer : Except Thrown Unit} (hended : stillRunning error = none)
    (h : driver.release key token = some answer) :
    (settleLease driver key token (.error error) : Effect Unit Thrown Value) =
      some ([], concluded (.error error) answer) := by
  rw [settleLease]
  simp only [hended, h]
  cases answer <;> rfl

/-- A call whose body is still running waits for nothing. -/
theorem settleLease_running {driver : JobDriver} {token : String} {error : Thrown}
    (hrunning : (stillRunning error).isSome = true) :
    (settleLease driver key token (.error error) : Effect Unit Thrown Value) =
      some ([], .error error) := by
  obtain ⟨running, hrunning⟩ := Option.isSome_iff_exists.1 hrunning
  rw [settleLease]
  simp only [hrunning]
  rfl

/-- What is known of a call depends on four of its fields. -/
theorem KeySettlement.Sound.of_eq (h : s.Sound key) (hcall : t.call = s.call)
    (hleased : t.leased = s.leased) (hran : t.ran = s.ran) (hanswered : t.answered = s.answered) :
    t.Sound key := by
  obtain ⟨call, renewing, renewals, left, logged, leased, ran, answered⟩ := s
  obtain ⟨call', renewing', renewals', left', logged', leased', ran', answered'⟩ := t
  obtain rfl : call' = call := hcall
  obtain rfl : leased' = leased := hleased
  obtain rfl : ran' = ran := hran
  obtain rfl : answered' = answered := hanswered
  cases call' with
  | settled outcome =>
      refine ⟨h.1, ?_⟩
      intro error hran
      rcases h.2 error hran with ⟨hrunning, hkept⟩ | ⟨hended, answer, hanswered, hconcludes⟩
      · exact .detached hrunning hkept
      · exact .released hended answer hanswered hconcludes
  | _ => exact h

/-- A rejection that is only logged leaves the call as it is. -/
theorem KeySettlement.log_frame (s : KeySettlement) (answer : Except Thrown Unit) :
    (s.log answer).call = s.call ∧ (s.log answer).leased = s.leased ∧
      (s.log answer).ran = s.ran ∧ (s.log answer).answered = s.answered := by
  cases answer <;> exact ⟨rfl, rfl, rfl, rfl⟩

/-- What is known of a call that has settled after its run. -/
theorem KeySettlement.sound_settled {token : String} {ran outcome : Except Thrown Value}
    (hcall : s.call = .settled outcome) (hleased : s.leased = some (.ok (.acquired token)))
    (hran : s.ran = some ran)
    (hsettles : (settleLease s.driver key token ran : Effect Unit Thrown Value) =
      some ([], outcome))
    (hfailed : ∀ error, ran = .error error → FailedWith s error outcome) : s.Sound key := by
  simp only [Sound, hcall]
  refine ⟨(runUnderKey_acquired hleased hran).trans hsettles, ?_⟩
  intro error herror
  exact hfailed error (Option.some.inj (hran.symm.trans herror))

/-- The store answers `acquire`. -/
theorem KeySettlement.Sound.leased (h : s.Sound key) (hcall : s.call = .acquiring)
    (answer : Except Thrown IdempotencyLease) :
    KeySettlement.Sound key { s.lease key answer with leased := some answer } := by
  have hran : s.ran = none := by simpa only [Sound, hcall] using h
  -- a call that settles here never runs
  have hnone : ∀ error, s.ran ≠ some (.error error) := by simp [hran]
  rcases answer with error | ⟨token⟩ | _ | ⟨kept⟩
  · exact ⟨rfl, fun error' herror => absurd herror (hnone error')⟩
  · exact rfl
  · exact ⟨rfl, fun error' herror => absurd herror (hnone error')⟩
  · exact ⟨rfl, fun error' herror => absurd herror (hnone error')⟩

/-- The run settles. -/
theorem KeySettlement.Sound.finished {token : String} (h : s.Sound key)
    (hcall : s.call = .running token) (outcome : Except Thrown Value) :
    KeySettlement.Sound key { s.finish token outcome with ran := some outcome } := by
  have hleased : s.leased = some (.ok (.acquired token)) := by simpa only [Sound, hcall] using h
  cases outcome with
  | ok result => exact ⟨hleased, rfl⟩
  | error error =>
      cases hrunning : stillRunning error with
      | some running =>
          have hsome : (stillRunning error).isSome = true := by rw [hrunning, Option.isSome_some]
          rw [finish]
          simp only [hrunning]
          refine sound_settled rfl hleased rfl (settleLease_running hsome) ?_
          rintro error' ⟨⟩
          exact .detached hsome rfl
      | none =>
          rw [finish]
          simp only [hrunning]
          exact ⟨hleased, rfl, hrunning⟩

/-- The store answers the call that was awaited. -/
theorem KeySettlement.Sound.stored (h : s.Sound key) {answer : Except Thrown Unit}
    (hstep : keySettlement key s (.stored answer) = some t) : t.Sound key := by
  cases hcall : s.call with
  | completing token result =>
      simp only [keySettlement, hcall] at hstep
      obtain rfl := Option.some.inj hstep
      obtain ⟨hleased, hran⟩ : s.leased = some (.ok (.acquired token)) ∧
          s.ran = some (.ok result) := by
        simpa only [Sound, hcall] using h
      refine sound_settled rfl hleased hran (settleLease_ok rfl) ?_
      rintro error ⟨⟩
  | releasing token error =>
      simp only [keySettlement, hcall] at hstep
      obtain rfl := Option.some.inj hstep
      obtain ⟨hleased, hran, hended⟩ : s.leased = some (.ok (.acquired token)) ∧
          s.ran = some (.error error) ∧ stillRunning error = none := by
        simpa only [Sound, hcall] using h
      refine sound_settled rfl hleased hran (settleLease_error hended rfl) ?_
      rintro error' ⟨⟩
      exact .released hended answer rfl rfl
  | _ => simp [keySettlement, hcall] at hstep

/-- **One event keeps what is known of a call.** -/
theorem keySettlement_sound {event : KeyEvent} (h : s.Sound key)
    (hstep : keySettlement key s event = some t) : t.Sound key := by
  cases event with
  | leased answer =>
      cases hcall : s.call with
      | acquiring =>
          simp only [keySettlement, hcall] at hstep
          exact Option.some.inj hstep ▸ h.leased hcall answer
      | _ => simp [keySettlement, hcall] at hstep
  | tick =>
      obtain ⟨token, -, rfl⟩ := Option.map_eq_some_iff.1 hstep
      exact h.of_eq rfl rfl rfl rfl
  | renewed answer =>
      simp only [keySettlement] at hstep
      split_ifs at hstep
      obtain rfl := Option.some.inj hstep
      obtain ⟨hcall, hleased, hran, hanswered⟩ := s.log_frame answer
      exact h.of_eq hcall hleased hran hanswered
  | ran outcome =>
      cases hcall : s.call with
      | running token =>
          simp only [keySettlement, hcall] at hstep
          exact Option.some.inj hstep ▸ h.finished hcall outcome
      | _ => simp [keySettlement, hcall] at hstep
  | stored answer => exact h.stored hstep
  | bodyEnded outcome =>
      cases hleft : s.left with
      | waiting token =>
          simp only [keySettlement, hleft] at hstep
          obtain rfl := Option.some.inj hstep
          exact h.of_eq rfl rfl rfl rfl
      | _ => simp [keySettlement, hleft] at hstep
  | leftStored answer =>
      cases hleft : s.left with
      | settling token =>
          simp only [keySettlement, hleft] at hstep
          obtain rfl := Option.some.inj hstep
          obtain ⟨hcall, hleased, hran, hanswered⟩ := s.log_frame answer
          exact h.of_eq hcall hleased hran hanswered
      | _ => simp [keySettlement, hleft] at hstep

/-- What is known of a call that has settled. -/
theorem settled_of_exec {l : List KeyEvent} {outcome : Except Thrown Value}
    (h : (keySettlement key).exec .start l = some s) (hsettled : s.call = .settled outcome) :
    runUnderKey s.driver key (s.run : Effect Unit Thrown Value) = some ([], outcome) ∧
      ∀ error, s.ran = some (.error error) → FailedWith s error outcome := by
  have hsound : s.Sound key :=
    Machine.exec_invariant (fun _ _ _ hs hstep => keySettlement_sound hs hstep) h rfl
  simpa only [KeySettlement.Sound, hsettled] using hsound

/-- **The dispatch's own reading of `runUnderKey` is where a call settles**, whatever the interval
and the lease that was left behind met on the way. -/
theorem settled_runUnderKey {l : List KeyEvent} {outcome : Except Thrown Value}
    (h : (keySettlement key).exec .start l = some s) (hsettled : s.call = .settled outcome) :
    runUnderKey s.driver key (s.run : Effect Unit Thrown Value) = some ([], outcome) :=
  (settled_of_exec h hsettled).1

end

/-! ### The error of a failed run -/

/-- A call keeps the error of its run: it rejects with that very error, so a cancelled run is buried
as cancelled and not run again, an unrecoverable one is not run again, and one that a shutdown
aborted ends no attempt. -/
structure KeepsError (error : Thrown) (outcome : Except Thrown Value) : Prop where
  rejects : outcome = .error error
  cancelled : error.cls = some .cancelled → ∀ e, outcome = .error e → ∀ delivery,
    burialFor delivery e = some .cancelled ∧ willRetry delivery e = false
  unrecoverable : error.isUnrecoverable = true → ∀ e, outcome = .error e → ∀ delivery,
    willRetry delivery e = false
  shutdown : error.cls = some .shutdownAbort → ∀ e, outcome = .error e → e.isPostponement = true

theorem keepsError_self (error : Thrown) : KeepsError error (.error error) where
  rejects := rfl
  cancelled := by
    rintro hcls e ⟨⟩ delivery
    exact ⟨by simp [burialFor, hcls],
      by simp [willRetry, Thrown.isUnrecoverable, hcls, ErrorClass.isUnrecoverable]⟩
  unrecoverable := by
    rintro hun e ⟨⟩ delivery
    simp [willRetry, hun]
  shutdown := by
    rintro hcls e ⟨⟩
    simp [Thrown.isPostponement, hcls, ErrorClass.isPostponement]

/-- **When a failed run keeps its error**, in every run of the machine that settles: the error says
that the body is still running, so that nothing is awaited, or the store does not fail the `release`
with another error. -/
theorem keepsError_iff {key : String} {l : List KeyEvent} {s : KeySettlement} {error : Thrown}
    {outcome : Except Thrown Value} (h : (keySettlement key).exec .start l = some s)
    (hran : s.ran = some (.error error)) (hsettled : s.call = .settled outcome) :
    KeepsError error outcome ↔
      (stillRunning error).isSome = true ∨ s.answered = some (.ok ()) ∨
        s.answered = some (.error error) := by
  rcases (settled_of_exec h hsettled).2 error hran with
    ⟨hrunning, rfl⟩ | ⟨hended, answer, hanswered, rfl⟩
  · exact ⟨fun _ => Or.inl hrunning, fun _ => keepsError_self error⟩
  · cases answer with
    | ok u => exact ⟨fun _ => Or.inr (Or.inl hanswered), fun _ => keepsError_self error⟩
    | error failure =>
        constructor
        · intro hkeeps
          obtain rfl := Except.error.inj hkeeps.rejects
          exact Or.inr (Or.inr hanswered)
        · rintro (hrunning | hok | herror)
          · simp [hended] at hrunning
          · simp [hanswered] at hok
          · obtain rfl := Except.error.inj (Option.some.inj (hanswered.symm.trans herror))
            exact keepsError_self failure

/-! ### A cancelled run during an outage -/

/-- What a driver throws while Redis is away. -/
def connectionLost : Thrown := plainError "Connection is closed." none

/-- A delivery takes the key, its handler is cancelled, and the key is released, or is not. -/
def cancelledUnderKey (release : Except Thrown Unit) : List KeyEvent :=
  [.leased (.ok (.acquired "token")), .tick, .renewed (.error connectionLost),
    .ran (.error (cancelledError "report.build" none)), .stored release]

/-- A renewal that fails changes nothing for a cancelled run. -/
theorem keepsError_example :
    KeepsError (cancelledError "report.build" none) (.error (cancelledError "report.build" none)) :=
  (@keepsError_iff "reports:7" (cancelledUnderKey (.ok ())) _ _ _ rfl rfl rfl).2
    (Or.inr (Or.inl rfl))

/-- The first delivery of five. -/
def reportDelivery : JobDelivery := ⟨"7", 1, 1, 5, .null⟩

theorem one_of_five : Number.le 5 1 = false := (Number.le_natCast 5 1).trans (by decide)

/-- **A cancelled run whose error is replaced**: the `release` that follows it fails, the delivery
fails with the error of the connection, and BullMQ runs the job again with nothing buried. -/
theorem release_replaces : ∃ s, (keySettlement "reports:7").exec .start
      (cancelledUnderKey (.error connectionLost)) = some s ∧
    s.ran = some (.error (cancelledError "report.build" none)) ∧
    s.call = .settled (.error connectionLost) ∧
    burialFor reportDelivery (cancelledError "report.build" none) = some .cancelled ∧
    burialFor reportDelivery connectionLost = none ∧
    willRetry reportDelivery connectionLost = true ∧
    ¬ KeepsError (cancelledError "report.build" none) (.error connectionLost) := by
  have hretry : willRetry reportDelivery connectionLost = true := by
    rw [willRetry,
      show reportDelivery.maxAttempts.le reportDelivery.attempt = false from one_of_five]
    rfl
  have hburial : burialFor reportDelivery connectionLost = none :=
    burialFor_of_retried hretry rfl
  refine ⟨_, rfl, rfl, rfl, rfl, hburial, hretry, ?_⟩
  intro hkeeps
  have hcls := congrArg Thrown.cls (Except.error.inj hkeeps.rejects)
  simp [connectionLost, plainError, cancelledError] at hcls

end Jubs
