/-
**Starts that reconcile at the same time.**

When a new version is rolled out, or a process is started again, several starts reconcile the same
queues of one Redis at once.  Each reads the schedulers of a queue, asks for its removals together,
and writes its declared schedules one after the other; any call may fail, whether or not it took
effect, and the removals that are under way when one of them fails go on behind the rejection.

Main definitions:

* `Jubs.RolloutPhase`, `Jubs.Rollout` — where each start stands, and the schedulers of all queues;
* `Jubs.rolloutRun` — any number of starts as one machine, one call a step;
* `Jubs.declaredOn` — what a start declares of a queue;
* `Jubs.Touch`, `Jubs.Near` — what a step does to the schedulers of a queue, and how far they are
  from those a start declares;
* `Jubs.reconcileEach`, `Jubs.loneCalls` — the loop of `reconcileEveryQueue` as a plain function,
  and call by call.

Main results:

* `Jubs.rollouts_contract` — **what starts may do to each other's schedulers**, in every
  interleaving;
* `Jubs.rollouts_settle` — **a start that went through leaves exactly what it declares**, for as
  long as whoever acts declares the same;
* `Jubs.rollout_alone` — a start that nothing interleaves with reconciles the way
  `reconcileSchedules` does.
-/

import Jubs.Replay
import Jubs.Starts

set_option autoImplicit false

namespace Jubs

/-! ### The calls of a start -/

/-- Where a start stands in `reconcileEveryQueue`: it waits for the schedulers of a queue, for its
removals, or for the write of a schedule.  Removals go on behind a rejection. -/
inductive RolloutPhase where
  | idle
  | reading (request : ReconcileRequest) (rest : List ReconcileRequest)
  | removing (request : ReconcileRequest) (left : List String) (rest : List ReconcileRequest)
  | upserting (request : ReconcileRequest) (schedule : ScheduleUpsert) (left : List ScheduleUpsert)
      (rest : List ReconcileRequest)
  | reconciled
  | rejected (queue : String) (left : List String) (error : Thrown)

/-- What happens to a start: it is called, or a call of its own settles. -/
inductive RolloutCall where
  | begins
  | reads (answer : Except Thrown Unit)
  | removes (key : String) (fate : CallFate)
  | upserts (fate : CallFate)

/-- The loop over the requests goes on. -/
def RolloutPhase.next : List ReconcileRequest → RolloutPhase
  | [] => .reconciled
  | request :: rest => .reading request rest

/-- The loop over the declared schedules goes on, or the queue is reconciled. -/
def upsertsOf (request : ReconcileRequest) (rest : List ReconcileRequest) :
    List ScheduleUpsert → RolloutPhase × List String
  | [] => (.next rest, [request.queue])
  | schedule :: left => (.upserting request schedule left rest, [])

/-- `Promise.all` waits for the removals that are left, or has settled. -/
def removesOf (request : ReconcileRequest) (rest : List ReconcileRequest) :
    List String → RolloutPhase × List String
  | [] => upsertsOf request rest request.declared
  | key :: left => (.removing request (key :: left) rest, [])

/-- The schedulers of every queue, where each start stands, and the queues it has reconciled. -/
structure Rollout (ι : Type) where
  schedulers : String → Schedulers
  phases : ι → RolloutPhase
  reconciled : List (ι × String)

variable {ι : Type} [DecidableEq ι]

/-- No start was called yet. -/
def Rollout.start (schedulers : String → Schedulers) : Rollout ι := ⟨schedulers, fun _ => .idle, []⟩

/-- A start stands elsewhere, and has reconciled some queue. -/
def Rollout.goes (s : Rollout ι) (i : ι) (p : RolloutPhase × List String) : Rollout ι :=
  { s with
    phases := Function.update s.phases i p.1
    reconciled := s.reconciled ++ p.2.map fun queue => (i, queue) }

/-- A call that may have taken effect on the schedulers of a queue. -/
def Rollout.call (s : Rollout ι) (queue : String) (fate : CallFate)
    (effect : Schedulers → Schedulers) : Rollout ι :=
  if fate.tookEffect then
    { s with schedulers := Function.update s.schedulers queue (effect (s.schedulers queue)) }
  else s

/-- Any number of starts over one Redis.  A start that is refused before it asks for anything takes
no step. -/
def rolloutRun (config : ι → StartConfig) (handlers : ι → List StartedHandler) :
    Machine (Rollout ι) (ι × RolloutCall) := fun s p =>
  let i := p.1
  match s.phases i, p.2 with
  | .idle, .begins =>
      match checkStart (config i) (handlers i), reconcileRequests (config i).timezone
        (handlers i) with
      | .ok _, .ok requests => some (s.goes i (.next requests, []))
      | _, _ => none
  | .reading request rest, .reads (.ok _) =>
      some (s.goes i (removesOf request rest
        (staleKeys request.declared (s.schedulers request.queue))))
  | .reading request _, .reads (.error error) =>
      some (s.goes i (.rejected request.queue [] error, []))
  | .removing request left rest, .removes key fate =>
      if key ∈ left then
        let s := s.call request.queue fate fun schedulers => schedulers.erase key
        match fate.reply () with
        | .ok _ => some (s.goes i (removesOf request rest (left.erase key)))
        | .error error => some (s.goes i (.rejected request.queue (left.erase key) error, []))
      else none
  -- `Promise.all` rejected, and the removals that were asked for beside it go on
  | .rejected queue left error, .removes key fate =>
      if key ∈ left then
        let s := s.call queue fate fun schedulers => schedulers.erase key
        some (s.goes i (.rejected queue (left.erase key) error, []))
      else none
  | .upserting request schedule left rest, .upserts fate =>
      let s := s.call request.queue fate fun schedulers =>
        schedulers.insert schedule.key (toScheduler schedule)
      match fate.reply () with
      | .ok _ => some (s.goes i (upsertsOf request rest left))
      | .error error =>
          some (s.goes i (.rejected request.queue [] (refusedSchedule schedule error), []))
  | _, _ => none

/-- What a start declares of a queue. -/
def declaredOn (config : StartConfig) (handlers : List StartedHandler) (queue : String) :
    List ScheduleUpsert :=
  match (declaredSchedules config.timezone handlers queue).mapM id with
  | .ok declared => declared
  | .error _ => []

/-! ### What one step does -/

section

variable {config : ι → StartConfig} {handlers : ι → List StartedHandler} {s t : Rollout ι} {i : ι}

@[simp] theorem Rollout.goes_schedulers (s : Rollout ι) (i : ι) (p : RolloutPhase × List String) :
    (s.goes i p).schedulers = s.schedulers := rfl

@[simp] theorem Rollout.goes_phases (s : Rollout ι) (i : ι) (p : RolloutPhase × List String) :
    (s.goes i p).phases = Function.update s.phases i p.1 := rfl

@[simp] theorem Rollout.goes_reconciled (s : Rollout ι) (i : ι) (p : RolloutPhase × List String) :
    (s.goes i p).reconciled = s.reconciled ++ p.2.map fun queue => (i, queue) := rfl

omit [DecidableEq ι] in
@[simp] theorem Rollout.call_phases (s : Rollout ι) (queue : String) (fate : CallFate)
    (effect : Schedulers → Schedulers) : (s.call queue fate effect).phases = s.phases := by
  unfold Rollout.call
  split <;> rfl

omit [DecidableEq ι] in
@[simp] theorem Rollout.call_reconciled (s : Rollout ι) (queue : String) (fate : CallFate)
    (effect : Schedulers → Schedulers) : (s.call queue fate effect).reconciled = s.reconciled := by
  unfold Rollout.call
  split <;> rfl

omit [DecidableEq ι] in
theorem Rollout.call_schedulers (s : Rollout ι) (queue other : String) (fate : CallFate)
    (effect : Schedulers → Schedulers) : (s.call queue fate effect).schedulers other =
      if fate.tookEffect = true ∧ queue = other then effect (s.schedulers other)
      else s.schedulers other := by
  unfold Rollout.call
  cases fate.tookEffect with
  | false => simp
  | true =>
      by_cases h : queue = other
      · subst h
        simp
      · simp [h, Function.update_of_ne (Ne.symm h)]

/-- **The moves of a start.** -/
inductive RolloutMove (config : StartConfig) (handlers : List StartedHandler)
    (s : Rollout ι) (i : ι) : Rollout ι → Prop
  | begins {requests : List ReconcileRequest} (hphase : s.phases i = .idle)
      (hcheck : checkStart config handlers = .ok ())
      (hrequests : reconcileRequests config.timezone handlers = .ok requests) :
      RolloutMove config handlers s i (s.goes i (.next requests, []))
  | reads {request : ReconcileRequest} {rest : List ReconcileRequest}
      (hphase : s.phases i = .reading request rest) :
      RolloutMove config handlers s i (s.goes i (removesOf request rest
        (staleKeys request.declared (s.schedulers request.queue))))
  | refused {request : ReconcileRequest} {rest : List ReconcileRequest} {error : Thrown}
      (hphase : s.phases i = .reading request rest) :
      RolloutMove config handlers s i (s.goes i (.rejected request.queue [] error, []))
  | removes {request : ReconcileRequest} {rest : List ReconcileRequest} {left : List String}
      {key : String} {fate : CallFate} (hphase : s.phases i = .removing request left rest)
      (hkey : key ∈ left) (heffect : fate.tookEffect = true) :
      RolloutMove config handlers s i
        ((s.call request.queue fate fun schedulers => schedulers.erase key).goes i
          (removesOf request rest (left.erase key)))
  | fails {request : ReconcileRequest} {rest : List ReconcileRequest} {left : List String}
      {key : String} {fate : CallFate} {error : Thrown}
      (hphase : s.phases i = .removing request left rest) (hkey : key ∈ left) :
      RolloutMove config handlers s i
        ((s.call request.queue fate fun schedulers => schedulers.erase key).goes i
          (.rejected request.queue (left.erase key) error, []))
  | lingers {queue : String} {left : List String} {key : String} {fate : CallFate} {error : Thrown}
      (hphase : s.phases i = .rejected queue left error) (hkey : key ∈ left) :
      RolloutMove config handlers s i
        ((s.call queue fate fun schedulers => schedulers.erase key).goes i
          (.rejected queue (left.erase key) error, []))
  | upserts {request : ReconcileRequest} {schedule : ScheduleUpsert} {left : List ScheduleUpsert}
      {rest : List ReconcileRequest} {fate : CallFate}
      (hphase : s.phases i = .upserting request schedule left rest)
      (heffect : fate.tookEffect = true) : RolloutMove config handlers s i
        ((s.call request.queue fate fun schedulers =>
          schedulers.insert schedule.key (toScheduler schedule)).goes i
            (upsertsOf request rest left))
  | refuses {request : ReconcileRequest} {schedule : ScheduleUpsert} {left : List ScheduleUpsert}
      {rest : List ReconcileRequest} {fate : CallFate} {error : Thrown}
      (hphase : s.phases i = .upserting request schedule left rest) :
      RolloutMove config handlers s i
        ((s.call request.queue fate fun schedulers =>
          schedulers.insert schedule.key (toScheduler schedule)).goes i
            (.rejected request.queue [] error, []))

/-- A call that is answered took effect. -/
theorem CallFate.tookEffect_of_reply {fate : CallFate} {value : Unit}
    (h : fate.reply () = .ok value) : fate.tookEffect = true := by
  cases fate with
  | answers => rfl
  | fails error tookEffect => cases h

/-- **Every step is one of the moves.** -/
theorem rolloutRun_cases {p : ι × RolloutCall} (h : rolloutRun config handlers s p = some t) :
    RolloutMove (config p.1) (handlers p.1) s p.1 t := by
  obtain ⟨i, call⟩ := p
  simp only [rolloutRun] at h
  split at h
  · rename_i hphase
    split at h
    · rename_i hcheck hrequests
      obtain rfl := Option.some.inj h
      exact .begins hphase hcheck hrequests
    · cases h
  · rename_i hphase
    obtain rfl := Option.some.inj h
    exact .reads hphase
  · rename_i hphase
    obtain rfl := Option.some.inj h
    exact .refused hphase
  · rename_i hphase
    split_ifs at h with hkey
    split at h
    · rename_i hreply
      obtain rfl := Option.some.inj h
      exact .removes hphase hkey (CallFate.tookEffect_of_reply hreply)
    · obtain rfl := Option.some.inj h
      exact .fails hphase hkey
  · rename_i hphase
    split_ifs at h with hkey
    obtain rfl := Option.some.inj h
    exact .lingers hphase hkey
  · rename_i hphase
    split at h
    · rename_i hreply
      obtain rfl := Option.some.inj h
      exact .upserts hphase (CallFate.tookEffect_of_reply hreply)
    · obtain rfl := Option.some.inj h
      exact .refuses hphase
  · cases h

/-! ### What a start may do to a queue -/

/-- A key that a start takes away from a queue of its own: it carries the prefix, and nothing that
is declared is written under it. -/
structure Stale (config : StartConfig) (handlers : List StartedHandler) (queue key : String) :
    Prop where
  started : queue ∈ startedQueues handlers
  isPrefixed : isPrefixed key = true
  not_mem : key ∉ (declaredOn config handlers queue).map ScheduleUpsert.key

/-- **What one step of a start does to the schedulers of a queue.** -/
inductive Touch (config : StartConfig) (handlers : List StartedHandler) (queue : String)
    (schedulers : Schedulers) : Schedulers → Prop
  | same : Touch config handlers queue schedulers schedulers
  | erases {key : String} (hstale : Stale config handlers queue key) :
      Touch config handlers queue schedulers (schedulers.erase key)
  | inserts {schedule : ScheduleUpsert} (hqueue : queue ∈ startedQueues handlers)
      (hschedule : schedule ∈ declaredOn config handlers queue) :
      Touch config handlers queue schedulers (schedulers.insert schedule.key (toScheduler schedule))

/-- Requests that the handlers of a start declare. -/
def Requested (config : StartConfig) (handlers : List StartedHandler)
    (requests : List ReconcileRequest) :
    Prop :=
  ∀ request ∈ requests, request.queue ∈ startedQueues handlers ∧
    request.declared = declaredOn config handlers request.queue

/-- What holds of a start at every moment: it takes away what is stale, and writes what it
declares. -/
def RolloutPhase.Holds (config : StartConfig) (handlers : List StartedHandler) : RolloutPhase → Prop
  | .idle | .reconciled => True
  | .reading request rest => Requested config handlers (request :: rest)
  | .removing request left rest => Requested config handlers (request :: rest) ∧
      ∀ key ∈ left, Stale config handlers request.queue key
  | .upserting request schedule left rest => Requested config handlers (request :: rest) ∧
      schedule :: left ⊆ declaredOn config handlers request.queue
  | .rejected queue left _ => ∀ key ∈ left, Stale config handlers queue key

section

variable {config : StartConfig} {handlers : List StartedHandler} {request : ReconcileRequest}
variable {requests rest : List ReconcileRequest}

theorem requested_of_reconcileRequests
    (h : reconcileRequests config.timezone handlers = .ok requests) :
    Requested config handlers requests := by
  intro request hrequest
  refine ⟨queues_of_requests h ▸ List.mem_map_of_mem hrequest, ?_⟩
  have hdeclares := declares_of_reconcileRequests (s := .init) h request hrequest
  unfold Declares at hdeclares
  rw [declaredOn, hdeclares]

theorem stale_of_mem_staleKeys {schedulers : Schedulers}
    (h : Requested config handlers (request :: rest))
    {key : String} (hkey : key ∈ staleKeys request.declared schedulers) :
    Stale config handlers request.queue key := by
  obtain ⟨hqueue, hdeclared⟩ := h request List.mem_cons_self
  obtain ⟨-, hprefixed, hnot⟩ := mem_staleKeys.1 hkey
  exact ⟨hqueue, hprefixed, hdeclared ▸ hnot⟩

theorem RolloutPhase.next_ne_idle (requests : List ReconcileRequest) :
    RolloutPhase.next requests ≠ .idle := by
  intro h
  cases requests <;> cases h

theorem upsertsOf_ne_idle (request : ReconcileRequest) (rest : List ReconcileRequest)
    (left : List ScheduleUpsert) : (upsertsOf request rest left).1 ≠ .idle := by
  intro h
  cases left with
  | nil => exact RolloutPhase.next_ne_idle rest h
  | cons schedule left => cases h

theorem removesOf_ne_idle (request : ReconcileRequest) (rest : List ReconcileRequest)
    (left : List String) : (removesOf request rest left).1 ≠ .idle := by
  intro h
  cases left with
  | nil => exact upsertsOf_ne_idle request rest _ h
  | cons key left => cases h

theorem holds_next (h : Requested config handlers requests) :
    (RolloutPhase.next requests).Holds config handlers := by
  cases requests with
  | nil => trivial
  | cons request rest => exact h

theorem holds_upsertsOf (h : Requested config handlers (request :: rest))
    {left : List ScheduleUpsert} (hleft : left ⊆ declaredOn config handlers request.queue) :
    (upsertsOf request rest left).1.Holds config handlers := by
  cases left with
  | nil => exact holds_next fun r hr => h r (List.mem_cons_of_mem _ hr)
  | cons schedule left => exact ⟨h, hleft⟩

theorem holds_removesOf (h : Requested config handlers (request :: rest)) {left : List String}
    (hleft : ∀ key ∈ left, Stale config handlers request.queue key) :
    (removesOf request rest left).1.Holds config handlers := by
  cases left with
  | nil => exact holds_upsertsOf h ((h request List.mem_cons_self).2 ▸ List.Subset.refl _)
  | cons key left => exact ⟨h, hleft⟩

omit [DecidableEq ι] in
/-- A call touches the schedulers of its queue, and no other. -/
theorem touch_call {s : Rollout ι} {queue other : String} {fate : CallFate}
    {effect : Schedulers → Schedulers}
    (h : Touch config handlers queue (s.schedulers queue) (effect (s.schedulers queue))) :
    Touch config handlers other (s.schedulers other)
      ((s.call queue fate effect).schedulers other) := by
  rw [Rollout.call_schedulers]
  split_ifs with hcond
  · exact hcond.2 ▸ h
  · exact .same

/-- **A start keeps to what it declares**, on every queue. -/
theorem RolloutMove.touches {s t : Rollout ι} {i : ι} (h : RolloutMove config handlers s i t)
    (hholds : (s.phases i).Holds config handlers) (queue : String) :
    Touch config handlers queue (s.schedulers queue) (t.schedulers queue) := by
  cases h with
  | begins | reads | refused => exact .same
  | removes hphase hkey | fails hphase hkey =>
      rw [hphase] at hholds
      exact touch_call (.erases (hholds.2 _ hkey))
  | lingers hphase hkey =>
      rw [hphase] at hholds
      exact touch_call (.erases (hholds _ hkey))
  | upserts hphase | refuses hphase =>
      rw [hphase] at hholds
      exact touch_call (.inserts (hholds.1 _ List.mem_cons_self).1 (hholds.2 List.mem_cons_self))

/-- Where a start stands after a move. -/
theorem RolloutMove.holds {s t : Rollout ι} {i : ι} (h : RolloutMove config handlers s i t)
    (hholds : (s.phases i).Holds config handlers) :
    (t.phases i).Holds config handlers ∧ t.phases i ≠ .idle := by
  cases h with
  | begins hphase hcheck hrequests =>
      rw [Rollout.goes_phases, Function.update_self]
      exact ⟨holds_next (requested_of_reconcileRequests hrequests), RolloutPhase.next_ne_idle _⟩
  | @reads request rest hphase =>
      rw [hphase] at hholds
      rw [Rollout.goes_phases, Function.update_self]
      exact ⟨holds_removesOf hholds fun key hkey => stale_of_mem_staleKeys hholds hkey,
        removesOf_ne_idle _ _ _⟩
  | refused hphase =>
      rw [Rollout.goes_phases, Function.update_self]
      exact ⟨List.forall_mem_nil _, fun h => by cases h⟩
  | removes hphase hkey =>
      rw [hphase] at hholds
      rw [Rollout.goes_phases, Function.update_self]
      exact ⟨holds_removesOf hholds.1 fun key hkey => hholds.2 key (List.mem_of_mem_erase hkey),
        removesOf_ne_idle _ _ _⟩
  | fails hphase hkey =>
      rw [hphase] at hholds
      rw [Rollout.goes_phases, Function.update_self]
      exact ⟨fun key hkey => hholds.2 key (List.mem_of_mem_erase hkey), fun h => by cases h⟩
  | lingers hphase hkey =>
      rw [hphase] at hholds
      rw [Rollout.goes_phases, Function.update_self]
      exact ⟨fun key hkey => hholds key (List.mem_of_mem_erase hkey), fun h => by cases h⟩
  | upserts hphase =>
      rw [hphase] at hholds
      rw [Rollout.goes_phases, Function.update_self]
      exact ⟨holds_upsertsOf hholds.1 fun schedule hmem => hholds.2 (List.mem_cons_of_mem _ hmem),
        upsertsOf_ne_idle _ _ _⟩
  | refuses hphase =>
      rw [Rollout.goes_phases, Function.update_self]
      exact ⟨List.forall_mem_nil _, fun h => by cases h⟩

/-- No other start moves. -/
theorem RolloutMove.stands {s t : Rollout ι} {i j : ι} (h : RolloutMove config handlers s i t)
    (hj : j ≠ i) : t.phases j = s.phases j := by
  cases h <;> simp [hj]

/-- What was reconciled by some start was reconciled before, or by the start that moves. -/
theorem RolloutMove.reconciled_of_mem {s t : Rollout ι} {i : ι}
    (h : RolloutMove config handlers s i t)
    {p : ι × String} (hp : p ∈ t.reconciled) : p ∈ s.reconciled ∨ p.1 = i := by
  have hgoes : ∀ (u : Rollout ι) (q : RolloutPhase × List String), p ∈ (u.goes i q).reconciled →
      p ∈ u.reconciled ∨ p.1 = i := by
    intro u q hp
    rcases List.mem_append.1 hp with hp | hp
    · exact .inl hp
    · obtain ⟨queue, -, rfl⟩ := List.mem_map.1 hp
      exact .inr rfl
  cases h <;> simpa using hgoes _ _ hp

end

/-- **What holds at every moment** of any number of starts. -/
structure RolloutInv (config : ι → StartConfig) (handlers : ι → List StartedHandler)
    (s : Rollout ι) : Prop where
  holds : ∀ i, (s.phases i).Holds (config i) (handlers i)
  checked : ∀ i, s.phases i ≠ .idle → checkStart (config i) (handlers i) = .ok ()
  begun : ∀ p ∈ s.reconciled, s.phases p.1 ≠ .idle

omit [DecidableEq ι] in
theorem rolloutInv_start (schedulers : String → Schedulers) :
    RolloutInv config handlers (.start schedulers) :=
  ⟨fun _ => trivial, fun _ h => absurd rfl h, List.forall_mem_nil _⟩

theorem RolloutMove.checked {s t : Rollout ι} {i : ι} (hs : RolloutInv config handlers s)
    (h : RolloutMove (config i) (handlers i) s i t) :
    checkStart (config i) (handlers i) = .ok () := by
  have hmoved : ∀ {phase : RolloutPhase}, s.phases i = phase → phase ≠ .idle →
      checkStart (config i) (handlers i) = .ok () := by
    rintro phase rfl hne
    exact hs.checked i hne
  cases h with
  | begins _ hcheck => exact hcheck
  | reads hphase | refused hphase | removes hphase | fails hphase | lingers hphase | upserts hphase
  | refuses hphase => exact hmoved hphase (fun h => by cases h)

theorem RolloutInv.step {p : ι × RolloutCall} (hs : RolloutInv config handlers s)
    (h : rolloutRun config handlers s p = some t) : RolloutInv config handlers t := by
  have hmove := rolloutRun_cases h
  obtain ⟨hholds, hmoved⟩ := hmove.holds (hs.holds p.1)
  refine ⟨?_, ?_, ?_⟩
  · intro j
    by_cases hj : j = p.1
    · exact hj ▸ hholds
    · exact hmove.stands hj ▸ hs.holds j
  · intro j hidle
    by_cases hj : j = p.1
    · exact hj ▸ hmove.checked hs
    · exact hs.checked j (hmove.stands hj ▸ hidle)
  · intro q hq
    by_cases hj : q.1 = p.1
    · exact hj ▸ hmoved
    · rw [hmove.stands hj]
      exact hs.begun q ((hmove.reconciled_of_mem hq).resolve_right hj)

theorem rolloutInv {schedulers : String → Schedulers} {acts : List (ι × RolloutCall)}
    (h : (rolloutRun config handlers).exec (.start schedulers) acts = some s) :
    RolloutInv config handlers s :=
  Machine.exec_invariant (fun _ _ _ hinv hstep => hinv.step hstep) h (rolloutInv_start schedulers)

/-! ### What starts may do to each other -/

/-- **What some starts did to the schedulers of the queues**, where `acts` is what they did. -/
structure RolloutLaw (config : ι → StartConfig) (handlers : ι → List StartedHandler)
    (acts : List (ι × RolloutCall)) (s t : Rollout ι) : Prop where
  /-- No scheduler without the prefix is touched. -/
  others : ∀ queue key, isPrefixed key = false →
    (t.schedulers queue).lookup key = (s.schedulers queue).lookup key
  /-- Every other one was there, or carries what one of the starts declares under its key. -/
  origin : ∀ queue key scheduler, (t.schedulers queue).lookup key = some scheduler →
    (s.schedulers queue).lookup key = some scheduler ∨
      ∃ p ∈ acts, ∃ schedule ∈ declaredOn (config p.1) (handlers p.1) queue,
        schedule.key = key ∧ CarriesSchedule schedule scheduler
  /-- What is declared by all of them that start the queue is taken away by none. -/
  kept : ∀ queue key, (∀ p ∈ acts, queue ∈ startedQueues (handlers p.1) →
    key ∈ (declaredOn (config p.1) (handlers p.1) queue).map ScheduleUpsert.key) →
      key ∈ s.schedulers queue → key ∈ t.schedulers queue

section

variable {config : StartConfig} {handlers : List StartedHandler} {queue key : String}
variable {schedulers schedulers' : Schedulers}

theorem Touch.others (h : Touch config handlers queue schedulers schedulers')
    (hkey : isPrefixed key = false) : schedulers'.lookup key = schedulers.lookup key := by
  cases h with
  | same => rfl
  | @erases other hstale =>
      refine AList.lookup_erase_ne ?_
      rintro rfl
      rw [hstale.isPrefixed] at hkey
      cases hkey
  | @inserts schedule hqueue hschedule =>
      refine AList.lookup_insert_ne ?_
      rintro rfl
      rw [ScheduleUpsert.key, isPrefixed_schedulerId] at hkey
      cases hkey

theorem Touch.origin (h : Touch config handlers queue schedulers schedulers')
    {scheduler : Scheduler}
    (hlookup : schedulers'.lookup key = some scheduler) : schedulers.lookup key = some scheduler ∨
      ∃ schedule ∈ declaredOn config handlers queue,
        schedule.key = key ∧ scheduler = toScheduler schedule := by
  cases h with
  | same => exact .inl hlookup
  | @erases other hstale =>
      by_cases hkey : key = other
      · rw [hkey, AList.lookup_erase] at hlookup
        cases hlookup
      · exact .inl (by rwa [AList.lookup_erase_ne hkey] at hlookup)
  | @inserts schedule hqueue hschedule =>
      by_cases hkey : key = schedule.key
      · rw [hkey, AList.lookup_insert] at hlookup
        exact .inr ⟨schedule, hschedule, hkey.symm, (Option.some.inj hlookup).symm⟩
      · exact .inl (by rwa [AList.lookup_insert_ne hkey] at hlookup)

theorem Touch.kept (h : Touch config handlers queue schedulers schedulers')
    (hkey : queue ∈ startedQueues handlers →
      key ∈ (declaredOn config handlers queue).map ScheduleUpsert.key)
    (hmem : key ∈ schedulers) : key ∈ schedulers' := by
  cases h with
  | same => exact hmem
  | @erases other hstale =>
      refine AList.mem_erase.2 ⟨?_, hmem⟩
      rintro rfl
      exact hstale.not_mem (hkey hstale.started)
  | inserts => exact (AList.mem_insert _).2 (.inr hmem)

end

/-- **What starts may do to each other**, in every interleaving, from every state that starts
reach. -/
theorem rollouts_contract {schedulers : String → Schedulers} {acts acts' : List (ι × RolloutCall)}
    (h : (rolloutRun config handlers).exec (.start schedulers) acts = some s)
    (h' : (rolloutRun config handlers).exec s acts' = some t) :
    RolloutLaw config handlers acts' s t := by
  have hrun := Machine.exec_invariant_of (Q := (· ∈ acts'))
    (P := fun u => RolloutInv config handlers u ∧ RolloutLaw config handlers acts' s u) ?_ h'
    (fun _ hp => hp) ⟨rolloutInv h, fun _ _ _ => rfl, fun _ _ _ => .inl, fun _ _ _ => id⟩
  · exact hrun.2
  · rintro u p v hp ⟨hinv, hlaw⟩ hstep
    have htouch := (rolloutRun_cases hstep).touches (hinv.holds p.1)
    refine ⟨hinv.step hstep, ?_, ?_, ?_⟩
    · intro queue key hkey
      exact ((htouch queue).others hkey).trans (hlaw.others queue key hkey)
    · intro queue key scheduler hlookup
      rcases (htouch queue).origin hlookup with hbefore | ⟨schedule, hschedule, hkey, rfl⟩
      · exact hlaw.origin queue key scheduler hbefore
      · exact .inr ⟨p, hp, schedule, hschedule, hkey, carries_toScheduler schedule⟩
    · intro queue key hkey hmem
      exact (htouch queue).kept (hkey p hp) (hlaw.kept queue key hkey hmem)

/-! ### A start that went through -/

/-- How far the schedulers of a queue are from some declared schedules: `strays` may stand there
besides, and `left` may still have to be written. -/
structure Near (declared : List ScheduleUpsert) (strays : List String) (left : List ScheduleUpsert)
    (schedulers : Schedulers) : Prop where
  keys : ∀ key ∈ schedulers, isPrefixed key = true →
    key ∈ declared.map ScheduleUpsert.key ∨ key ∈ strays
  written : ∀ schedule ∈ declared,
    schedule ∈ left ∨ schedulers.lookup schedule.key = some (toScheduler schedule)

/-- A start declares the schedules `declared` of a queue, or does not start it. -/
def Agrees (config : StartConfig) (handlers : List StartedHandler) (queue : String)
    (declared : List ScheduleUpsert) : Prop :=
  queue ∈ startedQueues handlers →
    ∀ schedule, schedule ∈ declaredOn config handlers queue ↔ schedule ∈ declared

section

variable {declared left : List ScheduleUpsert} {strays : List String} {schedulers : Schedulers}

theorem Near.erased (h : Near declared strays left schedulers) {key : String}
    (hkey : key ∉ declared.map ScheduleUpsert.key) :
    Near declared (strays.erase key) left (schedulers.erase key) := by
  refine ⟨?_, ?_⟩
  · intro other hother hprefixed
    obtain ⟨hne, hmem⟩ := AList.mem_erase.1 hother
    rw [List.mem_erase_of_ne hne]
    exact h.keys other hmem hprefixed
  · intro schedule hschedule
    have hne : schedule.key ≠ key := by
      rintro rfl
      exact hkey (List.mem_map_of_mem hschedule)
    rw [AList.lookup_erase_ne hne]
    exact h.written schedule hschedule

theorem Near.of_erase {key : String} (h : Near declared (strays.erase key) left schedulers) :
    Near declared strays left schedulers :=
  ⟨fun other hother hprefixed => (h.keys other hother hprefixed).imp_right List.mem_of_mem_erase,
    h.written⟩

theorem Near.inserted (hkeys : (declared.map ScheduleUpsert.key).Nodup) {schedule : ScheduleUpsert}
    (hschedule : schedule ∈ declared) (h : Near declared strays (schedule :: left) schedulers) :
    Near declared strays left (schedulers.insert schedule.key (toScheduler schedule)) := by
  refine ⟨?_, ?_⟩
  · intro key hkey hprefixed
    rcases (AList.mem_insert _).1 hkey with rfl | hkey
    · exact .inl (List.mem_map_of_mem hschedule)
    · exact h.keys key hkey hprefixed
  · intro other hother
    by_cases hsame : other.key = schedule.key
    · obtain rfl := List.inj_on_of_nodup_map hkeys hother hschedule hsame
      exact .inr (AList.lookup_insert _)
    · rw [AList.lookup_insert_ne hsame]
      refine (h.written other hother).imp_left fun hleft => ?_
      exact (List.mem_cons.1 hleft).resolve_left fun heq => hsame (heq ▸ rfl)

theorem Near.more (h : Near declared strays left schedulers) (schedule : ScheduleUpsert) :
    Near declared strays (schedule :: left) schedulers :=
  ⟨h.keys, fun other hother => (h.written other hother).imp_left (List.mem_cons_of_mem _)⟩

/-- Whoever declares the same brings the schedulers no farther. -/
theorem Near.touch (hkeys : (declared.map ScheduleUpsert.key).Nodup) {config : StartConfig}
    {handlers : List StartedHandler} {queue : String}
    (hagrees : Agrees config handlers queue declared)
    (h : Near declared strays left schedulers) {schedulers' : Schedulers}
    (htouch : Touch config handlers queue schedulers schedulers') :
    Near declared strays left schedulers' := by
  cases htouch with
  | same => exact h
  -- whoever erases declares the same, so what it erases is nothing that is declared
  | @erases key hstale =>
      refine (h.erased fun hkey => hstale.not_mem ?_).of_erase
      obtain ⟨schedule, hschedule, rfl⟩ := List.mem_map.1 hkey
      exact List.mem_map_of_mem ((hagrees hstale.started schedule).2 hschedule)
  | @inserts schedule hqueue hschedule =>
      exact (h.more schedule).inserted hkeys ((hagrees hqueue schedule).1 hschedule)

/-- Schedulers that are no way off are reconciled. -/
theorem Near.reconciled (hkeys : (declared.map ScheduleUpsert.key).Nodup)
    (h : Near declared [] [] schedulers) : Reconciled declared schedulers := by
  have hstand : ∀ schedule ∈ declared, schedulers.lookup schedule.key =
      some (toScheduler schedule) :=
    fun schedule hschedule => (h.written schedule hschedule).resolve_left List.not_mem_nil
  refine ⟨?_, fun schedule hschedule =>
    ⟨_, hstand schedule hschedule, carries_toScheduler schedule⟩⟩
  refine (List.perm_ext_iff_of_nodup ((AList.keys_nodup _).filter _) hkeys).2 fun key => ?_
  rw [List.mem_filter, ← AList.mem_keys]
  constructor
  · rintro ⟨hmem, hprefixed⟩
    exact (h.keys key hmem hprefixed).resolve_right List.not_mem_nil
  · intro hkey
    refine ⟨?_, isPrefixed_of_mem hkey⟩
    obtain ⟨schedule, hschedule, rfl⟩ := List.mem_map.1 hkey
    rw [← AList.lookup_isSome, hstand schedule hschedule]
    rfl

end

/-- How far a start is with a queue. -/
def RolloutPhase.NearOn (queue : String) (declared : List ScheduleUpsert)
    (schedulers : Schedulers) : RolloutPhase → Prop
  | .removing request left _ => request.queue = queue → Near declared left declared schedulers
  | .upserting request schedule left _ =>
      request.queue = queue → Near declared [] (schedule :: left) schedulers
  | _ => True

section

variable {config : StartConfig} {handlers : List StartedHandler} {queue : String}
variable {declared : List ScheduleUpsert} {schedulers : Schedulers}
variable {request : ReconcileRequest} {rest : List ReconcileRequest}

theorem nearOn_next (requests : List ReconcileRequest) :
    (RolloutPhase.next requests).NearOn queue declared schedulers := by
  cases requests <;> trivial

theorem nearOn_upsertsOf {left : List ScheduleUpsert}
    (h : request.queue = queue → Near declared [] left schedulers) :
    (upsertsOf request rest left).1.NearOn queue declared schedulers ∧
      (queue ∈ (upsertsOf request rest left).2 → Near declared [] [] schedulers) := by
  cases left with
  | nil => exact ⟨nearOn_next rest, fun hmem => h (List.mem_singleton.1 hmem).symm⟩
  | cons schedule left => exact ⟨h, fun hmem => absurd hmem List.not_mem_nil⟩

theorem nearOn_removesOf {left : List String}
    (hdeclared : request.queue = queue → request.declared = declared)
    (h : request.queue = queue → Near declared left declared schedulers) :
    (removesOf request rest left).1.NearOn queue declared schedulers ∧
      (queue ∈ (removesOf request rest left).2 → Near declared [] [] schedulers) := by
  cases left with
  | nil =>
      refine nearOn_upsertsOf fun hqueue => ?_
      rw [hdeclared hqueue]
      exact h hqueue
  | cons key left => exact ⟨h, fun hmem => absurd hmem List.not_mem_nil⟩

theorem RolloutPhase.NearOn.touch (hkeys : (declared.map ScheduleUpsert.key).Nodup)
    (hagrees : Agrees config handlers queue declared) {phase : RolloutPhase}
    (h : phase.NearOn queue declared schedulers) {schedulers' : Schedulers}
    (htouch : Touch config handlers queue schedulers schedulers') :
    phase.NearOn queue declared schedulers' := by
  cases phase with
  | removing request left rest => exact fun hqueue => (h hqueue).touch hkeys hagrees htouch
  | upserting request schedule left rest =>
      exact fun hqueue => (h hqueue).touch hkeys hagrees htouch
  | idle | reading | reconciled | rejected => trivial

/-- Where a start is with a queue once it has gone on. -/
theorem nearOn_goes {u : Rollout ι} {i : ι} {p : RolloutPhase × List String}
    (h : p.1.NearOn queue declared (u.schedulers queue) ∧
      (queue ∈ p.2 → Near declared [] [] (u.schedulers queue))) :
    ((u.goes i p).phases i).NearOn queue declared ((u.goes i p).schedulers queue) ∧
      ((i, queue) ∈ (u.goes i p).reconciled → (i, queue) ∈ u.reconciled ∨
        Near declared [] [] ((u.goes i p).schedulers queue)) := by
  rw [Rollout.goes_phases, Function.update_self, Rollout.goes_schedulers, Rollout.goes_reconciled]
  refine ⟨h.1, fun hmem => ?_⟩
  rcases List.mem_append.1 hmem with hmem | hmem
  · exact .inl hmem
  · obtain ⟨other, hother, heq⟩ := List.mem_map.1 hmem
    cases heq
    exact .inr (h.2 hother)

/-- **A start brings the schedulers of its queues nearer.** -/
theorem RolloutMove.near {s t : Rollout ι} {i : ι} (h : RolloutMove config handlers s i t)
    (hkeys : ((declaredOn config handlers queue).map ScheduleUpsert.key).Nodup)
    (hholds : (s.phases i).Holds config handlers)
    (hnear : (s.phases i).NearOn queue (declaredOn config handlers queue) (s.schedulers queue)) :
    (t.phases i).NearOn queue (declaredOn config handlers queue) (t.schedulers queue) ∧
      ((i, queue) ∈ t.reconciled → (i, queue) ∈ s.reconciled ∨
        Near (declaredOn config handlers queue) [] [] (t.schedulers queue)) := by
  cases h with
  | begins => exact nearOn_goes ⟨nearOn_next _, fun hmem => absurd hmem List.not_mem_nil⟩
  | @reads request rest hphase =>
      rw [hphase] at hholds
      have hdeclared := (hholds request List.mem_cons_self).2
      refine nearOn_goes (nearOn_removesOf (fun hqueue => hqueue ▸ hdeclared) ?_)
      rintro rfl
      -- what it reads is what stands there: every stray is among the keys it goes on to erase
      refine ⟨fun key hkey hprefixed => ?_, fun schedule hschedule => .inl hschedule⟩
      by_cases hmem : key ∈ (declaredOn config handlers request.queue).map ScheduleUpsert.key
      · exact .inl hmem
      · exact .inr (mem_staleKeys.2 ⟨hkey, hprefixed, hdeclared ▸ hmem⟩)
  | @removes request rest left key fate hphase hkey heffect =>
      rw [hphase] at hholds hnear
      have hdeclared := (hholds.1 request List.mem_cons_self).2
      have herased : request.queue = queue → Near (declaredOn config handlers queue)
          (left.erase key) (declaredOn config handlers queue)
          ((s.call request.queue fate fun schedulers =>
            schedulers.erase key).schedulers queue) := by
        intro hqueue
        rw [Rollout.call_schedulers, if_pos ⟨heffect, hqueue⟩]
        exact (hnear hqueue).erased (hqueue ▸ (hholds.2 key hkey).not_mem)
      have hnearer := @nearOn_removesOf _ _ _ request rest _
        (fun hqueue => hqueue ▸ hdeclared) herased
      refine (nearOn_goes hnearer).imp_right ?_
      exact fun hgoes hmem => (hgoes hmem).imp_left fun hmem => by simpa using hmem
  -- a start that rejects reconciles nothing any more
  | refused | fails | lingers | refuses =>
      rw [Rollout.goes_phases, Function.update_self]
      exact ⟨trivial, fun hmem => .inl (by simpa using hmem)⟩
  | @upserts request schedule left rest fate hphase heffect =>
      rw [hphase] at hholds hnear
      have hinserted : request.queue = queue → Near (declaredOn config handlers queue) [] left
          ((s.call request.queue fate fun schedulers =>
            schedulers.insert schedule.key (toScheduler schedule)).schedulers queue) := by
        intro hqueue
        rw [Rollout.call_schedulers, if_pos ⟨heffect, hqueue⟩]
        exact (hnear hqueue).inserted hkeys (hqueue ▸ hholds.2 List.mem_cons_self)
      refine (nearOn_goes (nearOn_upsertsOf hinserted)).imp_right ?_
      exact fun hgoes hmem => (hgoes hmem).imp_left fun hmem => by simpa using hmem

/-- What a start declares of a queue is written under distinct keys. -/
theorem nodup_declaredOn (h : checkStart config handlers = .ok ()) (queue : String) :
    ((declaredOn config handlers queue).map ScheduleUpsert.key).Nodup := by
  unfold declaredOn
  split
  · rename_i hdeclared
    exact nodup_keys (nodup_of_declares (nodup_of_checkStart h) hdeclared)
  · exact List.nodup_nil

end

/-- A step that changes the schedulers of a queue is one of a start that declares `declared` of
it. -/
def ChangesAgree (config : ι → StartConfig) (handlers : ι → List StartedHandler) (queue : String)
    (declared : List ScheduleUpsert) (s : Rollout ι) (p : ι × RolloutCall) : Prop :=
  ∀ t, rolloutRun config handlers s p = some t → t.schedulers queue ≠ s.schedulers queue →
    Agrees (config p.1) (handlers p.1) queue declared

/-- **A start that went through leaves exactly what it declares**: from the moment it has reconciled
a queue, as long as whoever changed the queue since it began declares the same, whatever their calls
come to and wherever they stop. -/
theorem rollouts_settle {schedulers : String → Schedulers} {acts acts' : List (ι × RolloutCall)}
    {r : ι} {queue : String} (h : (rolloutRun config handlers).exec
      (.start schedulers) acts = some s)
    (hidle : s.phases r = .idle) (h' : (rolloutRun config handlers).exec s acts' = some t)
    (hagree : (rolloutRun config handlers).Along
      (ChangesAgree config handlers queue (declaredOn (config r) (handlers r) queue)) s acts')
    (hdone : (r, queue) ∈ t.reconciled) :
    Reconciled (declaredOn (config r) (handlers r) queue) (t.schedulers queue) := by
  have hinv := rolloutInv (Machine.exec_append_iff.2 ⟨s, h, h'⟩)
  have hkeys := nodup_declaredOn (hinv.checked r (hinv.begun _ hdone)) queue
  have hrun := Machine.exec_invariant_along
    (P := fun u => RolloutInv config handlers u ∧
      (u.phases r).NearOn queue (declaredOn (config r) (handlers r) queue) (u.schedulers queue) ∧
      ((r, queue) ∈ u.reconciled →
        Near (declaredOn (config r) (handlers r) queue) [] [] (u.schedulers queue))) ?_ h'
    hagree ⟨rolloutInv h, ?_, fun hmem => absurd hidle ((rolloutInv h).begun _ hmem)⟩
  · exact (hrun.2.2 hdone).reconciled hkeys
  · rintro u p v hp ⟨hu, hnear, hreached⟩ hstep
    have hmove := rolloutRun_cases hstep
    -- a step that changes nothing is one the start itself could take
    obtain ⟨config', handlers', hagrees, htouch⟩ : ∃ config' handlers',
        Agrees config' handlers' queue (declaredOn (config r) (handlers r) queue) ∧
          Touch config' handlers' queue (u.schedulers queue) (v.schedulers queue) := by
      by_cases hsame : v.schedulers queue = u.schedulers queue
      · rw [hsame]
        exact ⟨config r, handlers r, fun _ _ => Iff.rfl, .same⟩
      · exact ⟨_, _, hp v hstep hsame, hmove.touches (hu.holds p.1) queue⟩
    have hstill : (r, queue) ∈ u.reconciled →
        Near (declaredOn (config r) (handlers r) queue) [] [] (v.schedulers queue) :=
      fun hmem => (hreached hmem).touch hkeys hagrees htouch
    refine ⟨hu.step hstep, ?_⟩
    by_cases hr : r = p.1
    -- a move of the start itself brings it nearer, and one of another takes nothing back
    · subst hr
      obtain ⟨hphase, hmem⟩ := hmove.near hkeys (hu.holds _) hnear
      exact ⟨hphase, fun h => (hmem h).elim hstill id⟩
    · rw [hmove.stands hr]
      exact ⟨hnear.touch hkeys hagrees htouch, fun h =>
        hstill ((hmove.reconciled_of_mem h).resolve_right hr)⟩
  · rw [hidle]
    trivial

/-! ### A start that nothing interleaves with -/

/-- What becomes of a call that Redis answers, or refuses without any effect. -/
def answeredFate : Except Thrown Unit → CallFate
  | .ok _ => .answers
  | .error error => .fails error false

/-- A queue has other schedulers. -/
def Rollout.put (s : Rollout ι) (queue : String) (schedulers : Schedulers) : Rollout ι :=
  { s with schedulers := Function.update s.schedulers queue schedulers }

/-- Where a start stands once a reconciliation of its own has settled. -/
def afterReconcile (request : ReconcileRequest) (rest : List ReconcileRequest) :
    Except Thrown Unit → RolloutPhase × List String
  | .ok _ => (.next rest, [request.queue])
  | .error error => (.rejected request.queue [] error, [])

/-- The writes of one reconciliation, call by call, up to the first that is refused. -/
def upsertCalls (i : ι) (answers : ReconcileAnswers) : List ScheduleUpsert → List (ι × RolloutCall)
  | [] => []
  | schedule :: left => (i, .upserts (answeredFate (answers.upsert schedule))) ::
      match answers.upsert schedule with
      | .ok _ => upsertCalls i answers left
      | .error _ => []

/-- One reconciliation, call by call: what is stale is read, the removals settle in their order,
also behind one that is refused, and the declared schedules are written. -/
def reconcileCalls (i : ι) (request : ReconcileRequest) (answers : ReconcileAnswers)
    (schedulers : Schedulers) : List (ι × RolloutCall) :=
  match answers.existing with
  | .error error => [(i, .reads (.error error))]
  | .ok _ =>
      let order := answers.order (staleKeys request.declared schedulers)
      (i, .reads (.ok ())) ::
        (order.map (fun key => (i, .removes key (answeredFate (answers.removal key)))) ++
          match order.mapM answers.removal with
          | .ok _ => upsertCalls i answers request.declared
          | .error _ => [])

/-- `await config.driver.reconcileSchedules(request)`, as one step. -/
def Rollout.reconcile (s : Rollout ι) (i : ι) (request : ReconcileRequest)
    (rest : List ReconcileRequest) (answers : ReconcileAnswers) : Rollout ι :=
  let (schedulers, outcome) :=
    reconcileSchedules request.declared answers (s.schedulers request.queue)
  (s.put request.queue schedulers).goes i (afterReconcile request rest outcome)

/-- The loop of `reconcileEveryQueue` as a plain function: what it leaves of the schedulers, and
where the start stands then.  Redis answers for each queue. -/
def reconcileEach (i : ι) (answers : String → ReconcileAnswers) :
    List ReconcileRequest → Rollout ι → Rollout ι
  | [], s => s
  | request :: rest, s =>
      match (reconcileSchedules request.declared (answers request.queue)
          (s.schedulers request.queue)).2 with
      | .ok _ => reconcileEach i answers rest (s.reconcile i request rest (answers request.queue))
      | .error _ => s.reconcile i request rest (answers request.queue)

/-- The same loop, call by call. -/
def loneCalls (i : ι) (answers : String → ReconcileAnswers) :
    List ReconcileRequest → Rollout ι → List (ι × RolloutCall)
  | [], _ => []
  | request :: rest, s =>
      reconcileCalls i request (answers request.queue) (s.schedulers request.queue) ++
        match (reconcileSchedules request.declared (answers request.queue)
            (s.schedulers request.queue)).2 with
        | .ok _ => loneCalls i answers rest (s.reconcile i request rest (answers request.queue))
        | .error _ => []

section

variable {request : ReconcileRequest} {rest : List ReconcileRequest}

theorem eraseAll_perm {keys keys' : List String} (h : keys.Perm keys') (schedulers : Schedulers) :
    eraseAll keys schedulers = eraseAll keys' schedulers := by
  have : RightCommutative fun (left : Schedulers) (key : String) => left.erase key :=
    ⟨fun left key key' => AList.erase_erase key key' left⟩
  exact h.foldl_eq schedulers

omit [DecidableEq ι] in
@[simp] theorem Rollout.put_schedulers (s : Rollout ι) (queue : String) (schedulers : Schedulers) :
    (s.put queue schedulers).schedulers queue = schedulers := Function.update_self _ _ _

omit [DecidableEq ι] in
@[simp] theorem Rollout.put_put (s : Rollout ι) (queue : String)
    (schedulers schedulers' : Schedulers) :
    (s.put queue schedulers).put queue schedulers' = s.put queue schedulers' := by
  simp [Rollout.put]

omit [DecidableEq ι] in
@[simp] theorem Rollout.put_self (s : Rollout ι) (queue : String) :
    s.put queue (s.schedulers queue) = s := by
  simp [Rollout.put]

/-- A start goes on from where it waited. -/
theorem Rollout.goes_goes (s : Rollout ι) (i : ι) (phase : RolloutPhase)
    (p : RolloutPhase × List String) : (s.goes i (phase, [])).goes i p = s.goes i p := by
  simp [Rollout.goes]

omit [DecidableEq ι] in
/-- A call that Redis answers, or refuses, has the effect it has in `reconcileSchedules`. -/
theorem call_answeredFate (s : Rollout ι) (queue : String) (answer : Except Thrown Unit)
    (effect : Schedulers → Schedulers) : s.call queue (answeredFate answer) effect =
      s.put queue (match answer with
        | .ok _ => effect (s.schedulers queue)
        | .error _ => s.schedulers queue) := by
  cases answer with
  | ok => rfl
  | error error => exact (s.put_self queue).symm

@[simp] theorem reply_answeredFate (answer : Except Thrown Unit) :
    (answeredFate answer).reply () = answer := by
  cases answer <;> rfl

theorem eraseAll_append (keys keys' : List String) (schedulers : Schedulers) :
    eraseAll (keys ++ keys') schedulers = eraseAll keys' (eraseAll keys schedulers) :=
  List.foldl_append

omit [DecidableEq ι] in
/-- A removal that Redis answers or refuses. -/
theorem call_erase (answers : ReconcileAnswers) (s : Rollout ι) (queue key : String) :
    (s.call queue (answeredFate (answers.removal key)) fun schedulers => schedulers.erase key) =
      s.put queue (eraseAll ([key].filter answers.removes) (s.schedulers queue)) := by
  rw [call_answeredFate]
  cases hremoval : answers.removal key <;> simp [ReconcileAnswers.removes, hremoval, eraseAll]

theorem Rollout.goes_put (s : Rollout ι) (i : ι) (p : RolloutPhase × List String) (queue : String)
    (schedulers : Schedulers) : (s.goes i p).put queue schedulers =
    (s.put queue schedulers).goes i p :=
  rfl

/-- The removals that are left behind a rejection. -/
theorem exec_lingers (config : ι → StartConfig) (handlers : ι → List StartedHandler)
    (answers : ReconcileAnswers) (queue : String) (error : Thrown) (i : ι)
    {left order : List String} (horder : order.Perm left) (s : Rollout ι) :
    (rolloutRun config handlers).exec (s.goes i (.rejected queue left error, []))
        (order.map fun key => (i, .removes key (answeredFate (answers.removal key)))) =
      some ((s.put queue (eraseAll (order.filter answers.removes) (s.schedulers queue))).goes i
        (.rejected queue [] error, [])) := by
  induction order generalizing left s with
  | nil =>
      obtain rfl := horder.symm.eq_nil
      simp [eraseAll]
  | cons key order ih =>
      have hkey : key ∈ left := horder.subset List.mem_cons_self
      have hrest : order.Perm (left.erase key) := by simpa using horder.erase key
      have hstep : rolloutRun config handlers (s.goes i (.rejected queue left error, []))
          (i, .removes key (answeredFate (answers.removal key))) =
            some ((s.put queue (eraseAll ([key].filter answers.removes)
              (s.schedulers queue))).goes i (.rejected queue (left.erase key) error, [])) := by
        simp only [rolloutRun, Rollout.goes_phases, Function.update_self, hkey, if_true, call_erase,
          Rollout.goes_schedulers, Rollout.goes_put, Rollout.goes_goes]
      rw [List.map_cons, Machine.exec_cons, hstep, Option.bind_some, ih hrest,
        Rollout.put_schedulers,
        Rollout.put_put, ← eraseAll_append, ← List.filter_append, List.singleton_append]

/-- The removals of a start, up to the first that is refused and behind it. -/
theorem exec_removes (config : ι → StartConfig) (handlers : ι → List StartedHandler)
    (answers : ReconcileAnswers) (request : ReconcileRequest) (rest : List ReconcileRequest) (i : ι)
    {left order : List String} (horder : order.Perm left) (s : Rollout ι) :
    (rolloutRun config handlers).exec (s.goes i (removesOf request rest left))
        (order.map fun key => (i, .removes key (answeredFate (answers.removal key)))) =
      some ((s.put request.queue
          (eraseAll (order.filter answers.removes) (s.schedulers request.queue))).goes i
        (match order.mapM answers.removal with
          | .ok _ => upsertsOf request rest request.declared
          | .error error => (.rejected request.queue [] error, []))) := by
  -- along the order in which the removals settle, which need not be the one they were asked in
  induction order generalizing left s with
  | nil =>
      obtain rfl := horder.symm.eq_nil
      simp [eraseAll, removesOf, pure, Except.pure]
  | cons key order ih =>
      have hkey : key ∈ left := horder.subset List.mem_cons_self
      have hrest : order.Perm (left.erase key) := by simpa using horder.erase key
      have hwaits : removesOf request rest left = (.removing request left rest, []) := by
        cases left with
        | nil => cases hkey
        | cons other left => rfl
      have hstep : rolloutRun config handlers (s.goes i (removesOf request rest left))
          (i, .removes key (answeredFate (answers.removal key))) =
            some ((s.put request.queue
                (eraseAll ([key].filter answers.removes) (s.schedulers request.queue))).goes i
              (match answers.removal key with
                | .ok _ => removesOf request rest (left.erase key)
                | .error error => (.rejected request.queue (left.erase key) error, []))) := by
        simp only [hwaits, rolloutRun, Rollout.goes_phases, Function.update_self, hkey, if_true,
          call_erase, Rollout.goes_schedulers, Rollout.goes_put, reply_answeredFate]
        cases answers.removal key <;> simp only [Rollout.goes_goes]
      rw [List.map_cons, Machine.exec_cons, hstep, Option.bind_some]
      have hfilter : (key :: order).filter answers.removes =
          [key].filter answers.removes ++ order.filter answers.removes := by
        rw [← List.filter_append, List.singleton_append]
      rw [hfilter, eraseAll_append]
      cases hremoval : answers.removal key with
      | ok =>
          rw [ih hrest, Rollout.put_schedulers, Rollout.put_put]
          cases hmapM : order.mapM answers.removal <;>
            simp [hremoval, hmapM, bind, Except.bind, pure, Except.pure]
      | error refusal =>
          rw [exec_lingers config handlers answers request.queue refusal i hrest,
            Rollout.put_schedulers, Rollout.put_put]
          simp [hremoval, bind, Except.bind]

/-- The writes of a start, up to the first that is refused. -/
theorem exec_upserts (config : ι → StartConfig) (handlers : ι → List StartedHandler)
    (answers : ReconcileAnswers) (request : ReconcileRequest) (rest : List ReconcileRequest) (i : ι)
    (left : List ScheduleUpsert) (s : Rollout ι) :
    (rolloutRun config handlers).exec (s.goes i (upsertsOf request rest left))
        (upsertCalls i answers left) =
      some ((s.put request.queue (upsertAll answers left (s.schedulers request.queue)).1).goes i
        (afterReconcile request rest (upsertAll answers left (s.schedulers request.queue)).2)) := by
  induction left generalizing s with
  | nil => simp [upsertCalls, upsertAll, upsertsOf, afterReconcile]
  | cons schedule left ih =>
      have hstep : rolloutRun config handlers (s.goes i (upsertsOf request rest (schedule :: left)))
          (i, .upserts (answeredFate (answers.upsert schedule))) =
            some (match answers.upsert schedule with
              | .ok _ => (s.put request.queue ((s.schedulers request.queue).insert schedule.key
                  (toScheduler schedule))).goes i (upsertsOf request rest left)
              | .error error => s.goes i
                  (.rejected request.queue [] (refusedSchedule schedule error), [])) := by
        simp only [upsertsOf, rolloutRun, Rollout.goes_phases, Function.update_self,
          call_answeredFate, reply_answeredFate, Rollout.goes_schedulers, Rollout.goes_put]
        cases answers.upsert schedule <;> simp only [Rollout.goes_goes, Rollout.put_self]
      rw [upsertCalls, Machine.exec_cons, hstep, Option.bind_some]
      cases hupsert : answers.upsert schedule with
      | ok =>
          refine (ih _).trans ?_
          simp [upsertAll, hupsert]
      | error refusal => simp [upsertAll, hupsert, afterReconcile]

/-- **One reconciliation that nothing interleaves with**, whatever Redis answers. -/
theorem exec_reconcile (config : ι → StartConfig) (handlers : ι → List StartedHandler) {i : ι}
    (hphase : s.phases i = .reading request rest) (answers : ReconcileAnswers) :
    (rolloutRun config handlers).exec s
        (reconcileCalls i request answers (s.schedulers request.queue)) =
      some (s.reconcile i request rest answers) := by
  unfold reconcileCalls
  cases hexisting : answers.existing with
  | error error =>
      simp only [Machine.exec_singleton]
      simp [rolloutRun, hphase, Rollout.reconcile, reconcileSchedules, hexisting, afterReconcile]
  | ok =>
      let stale := staleKeys request.declared (s.schedulers request.queue)
      have hread : rolloutRun config handlers s (i, .reads (.ok ())) =
          some (s.goes i (removesOf request rest stale)) := by
        simp only [rolloutRun, hphase]
        rfl
      have hremoves :=
        exec_removes config handlers answers request rest i (answers.order_perm stale) s
      have hleft := eraseAll_perm ((answers.order_perm stale).filter answers.removes)
        (s.schedulers request.queue)
      simp only [Machine.exec_cons, hread, Option.bind_some, Machine.exec_append,
        stale] at hremoves ⊢
      rw [hremoves, Option.bind_some]
      cases hmapM : (answers.order (staleKeys request.declared
          (s.schedulers request.queue))).mapM answers.removal with
      | error error =>
          simp [Rollout.reconcile, reconcileSchedules, hexisting, hmapM, hleft,
            afterReconcile, stale]
      | ok =>
          refine (exec_upserts config handlers answers request rest i request.declared _).trans ?_
          simp [Rollout.reconcile, reconcileSchedules, hexisting, hmapM, hleft, stale]

/-- The reconciliations of one start, one after the other. -/
theorem exec_loneCalls (config : ι → StartConfig) (handlers : ι → List StartedHandler) {i : ι}
    (answers : String → ReconcileAnswers) {requests : List ReconcileRequest}
    (hphase : s.phases i = .next requests) :
    (rolloutRun config handlers).exec s (loneCalls i answers requests s) =
      some (reconcileEach i answers requests s) := by
  induction requests generalizing s with
  | nil => rfl
  | cons request rest ih =>
      rw [loneCalls, reconcileEach, Machine.exec_append,
        exec_reconcile config handlers hphase (answers request.queue), Option.bind_some]
      cases houtcome : (reconcileSchedules request.declared (answers request.queue)
          (s.schedulers request.queue)).2 with
      | error error => rfl
      | ok _ =>
          refine ih ?_
          simp [Rollout.reconcile, houtcome, afterReconcile]

/-- **A start that nothing interleaves with reconciles the way `reconcileSchedules` does**, queue
after queue, whatever Redis answers and in whatever order the removals of a queue settle: its calls
leave the same schedulers, and it goes through or rejects with the same outcome. -/
theorem rollout_alone {i : ι} {requests : List ReconcileRequest} (hidle : s.phases i = .idle)
    (hcheck : checkStart (config i) (handlers i) = .ok ())
    (hrequests : reconcileRequests (config i).timezone (handlers i) = .ok requests)
    (answers : String → ReconcileAnswers) :
    (rolloutRun config handlers).exec s
        ((i, .begins) :: loneCalls i answers requests (s.goes i (.next requests, []))) =
      some (reconcileEach i answers requests (s.goes i (.next requests, []))) := by
  have hbegins : rolloutRun config handlers s (i, .begins) =
      some (s.goes i (.next requests, [])) := by
    simp [rolloutRun, hidle, hcheck, hrequests]
  rw [Machine.exec_cons, hbegins, Option.bind_some]
  exact exec_loneCalls config handlers answers (by simp)

end

end

/-! ### Two processes at once -/

/-- A queue on which a job that is gone left its scheduler. -/
def leftScheduler : Schedulers :=
  (∅ : Schedulers).insert "jubs.gone" (toScheduler
    ⟨.everyMs 1, none, writeEnvelope lineJob .null .schedule, deliveryDefaults⟩)

/-- A client that configures nothing, in both processes. -/
def plainConfig : Bool → StartConfig := fun _ => ⟨[], [], none, []⟩

/-- Both processes run the same version. -/
def sameHandlers : Bool → List StartedHandler := fun _ => [morningHandler]

/-- One process has found what is stale. -/
def foundStale : List (Bool × RolloutCall) := [(false, .begins), (false, .reads (.ok ()))]

/-- The other begins, and both take the same scheduler away. -/
def sameVersion : List (Bool × RolloutCall) :=
  [(true, .begins), (true, .reads (.ok ())), (true, .removes "jubs.gone" .answers),
    (false, .removes "jubs.gone" (.fails typeError true)), (true, .upserts .answers)]

theorem rollouts_contract_example : ∃ s t,
    (rolloutRun plainConfig sameHandlers).exec (.start fun _ => leftScheduler) foundStale = some s ∧
      (rolloutRun plainConfig sameHandlers).exec s sameVersion = some t ∧
        RolloutLaw plainConfig sameHandlers sameVersion s t :=
  ⟨_, _, rfl, rfl, @rollouts_contract Bool _ plainConfig sameHandlers _ _ (fun _ => leftScheduler)
    foundStale sameVersion rfl rfl⟩

theorem rollouts_settle_example : ∃ s t,
    (rolloutRun plainConfig sameHandlers).exec (.start fun _ => leftScheduler) foundStale = some s ∧
      (rolloutRun plainConfig sameHandlers).exec s sameVersion = some t ∧
        Reconciled (declaredOn (plainConfig true) (sameHandlers true) "mail")
          (t.schedulers "mail") :=
  ⟨_, _, rfl, rfl, @rollouts_settle Bool _ plainConfig sameHandlers _ _ (fun _ => leftScheduler)
    foundStale sameVersion true "mail" rfl rfl rfl
    (.of_forall (fun _ _ _ _ _ _ _ _ => Iff.rfl) _) List.mem_cons_self⟩

/-- The request of either process. -/
def mailRequest : ReconcileRequest :=
  ⟨"mail", declaredOn (plainConfig true) (sameHandlers true) "mail"⟩

/-- A process on its own takes what is stale away, and writes what it declares. -/
theorem rollout_alone_example : ∃ t,
    (rolloutRun plainConfig sameHandlers).exec (.start fun _ => leftScheduler)
        [(true, .begins), (true, .reads (.ok ())), (true, .removes "jubs.gone" .answers),
          (true, .upserts .answers)] = some t ∧
      t.schedulers "mail" = (reconcileSchedules mailRequest.declared granted leftScheduler).1 ∧
      t.reconciled = [(true, "mail")] :=
  ⟨_, @rollout_alone Bool _ plainConfig sameHandlers (.start fun _ => leftScheduler) true
    [mailRequest] rfl rfl rfl fun _ => granted, rfl, rfl⟩

/-- The handlers of an old version, whose job recurs, and of a new one, whose job does not. -/
def twoVersions : Bool → List StartedHandler
  | false => [morningHandler]
  | true => [⟨lineJob, none⟩]

/-- **Two versions at once may leave the schedulers of both**: the old one writes what the new one,
which has gone through, no longer declares. -/
theorem mixed_rollout_leaves : ∃ t,
    (rolloutRun plainConfig twoVersions).exec (.start fun _ => ∅)
        [(false, .begins), (false, .reads (.ok ())), (true, .begins), (true, .reads (.ok ())),
          (false, .upserts .answers)] = some t ∧
      (true, "mail") ∈ t.reconciled ∧
        ¬ Reconciled (declaredOn (plainConfig true) (twoVersions true) "mail")
          (t.schedulers "mail") := by
  refine ⟨_, rfl, List.mem_cons_self, fun h => ?_⟩
  exact absurd h.keys.length_eq (by decide)

end Jubs
