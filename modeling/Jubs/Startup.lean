/-
**Starting a runtime.**

`start` checks what it was given, declares every schedule, reconciles the schedules of one queue
after the other, and then asks for the consumers of all queues at once.  The driver may refuse any
of it, in any order, and a consumer that was opened beside one that was refused is closed again.

Main definitions:

* `Jubs.handlersByName`, `Jubs.checkStart` — what is refused before anything is awaited;
* `Jubs.declaredSchedules`, `Jubs.reconcileRequests` — what the driver is declared of every queue;
* `Jubs.startRun` — a start and its driver as one machine;
* `Jubs.Refusal` — why a start was rejected.

Main results:

* `Jubs.startRun_inv` — what every step of a start keeps;
* `Jubs.start_contract` — **what a start that was rejected leaves behind, and one that was not**.
-/

import Jubs.Machine
import Jubs.Queues
import Jubs.Schedules

set_option autoImplicit false

namespace Jubs

/-! ### What is refused at once -/

/-- A handler that is started: its definition, and the schedule of the definition. -/
structure StartedHandler where
  definition : JobDefinition
  schedule : Option Schedule

/-- `QueueLimiter`. -/
structure QueueLimiter where
  max : Number
  durationMs : Number

/-- `QueueTuning`. -/
structure QueueTuning where
  concurrency : Option Number
  limiter : Option QueueLimiter

/-- What a start reads of the client's configuration and of its own options. -/
structure StartConfig where
  definitions : List JobDefinition
  deadQueues : List String
  timezone : Option String
  tuning : List (String × QueueTuning)

/-- The loop of `handlersByName`: the first name that a handler before had. -/
def repeatedName : List String → List StartedHandler → Option String
  | _, [] => none
  | seen, handler :: handlers =>
      if handler.definition.name ∈ seen then some handler.definition.name
      else repeatedName (handler.definition.name :: seen) handlers

/-- `handlersByName(handlers)`.  The map is kept as the list itself, each name once. -/
def handlersByName (handlers : List StartedHandler) : Except Thrown (List StartedHandler) :=
  match repeatedName [] handlers with
  | some name => .error (plainError ("jubs: two handlers are registered for the job \"" ++ name ++
      "\" — a job name takes exactly one handler") none)
  | none => .ok handlers

/-- `assertEveryDefinitionRuns(definitions, byName, queues)`. -/
def assertEveryDefinitionRuns (definitions : List JobDefinition) (byName : List StartedHandler)
    (queues : List String) : Except Thrown Unit :=
  match definitions.find? fun definition => queues.contains definition.queue &&
      !(byName.map fun handler => handler.definition.name).contains definition.name with
  | some orphan => .error (plainError ("jubs: the job \"" ++ orphan.name ++
      "\" is registered on the started queue \"" ++ orphan.queue ++ "\" but no handler runs it " ++
      "— pass its handler to start(), or drop it from createJobs(\x7b definitions \x7d)") none)
  | none => .ok ()

/-- `assertEveryTunedQueueStarted(tuned, queues)`.  A stray queue without a name passes for none. -/
def assertEveryTunedQueueStarted (tuned queues : List String) : Except Thrown Unit :=
  let stray := (tuned.find? fun queue => !queues.contains queue).getD ""
  if stray = "" then .ok ()
  else .error (plainError ("jubs: start() was given tuning for the queue \"" ++ stray ++
    "\", which no handler starts — the started queues are " ++ quoted queues) none)

/-- `assertNoQueueConsumesADeadQueue(deadQueues, queues)`.  A queue without a name passes for
none. -/
def assertNoQueueConsumesADeadQueue (deadQueues queues : List String) : Except Thrown Unit :=
  let guarded := (deadQueues.find? fun queue => queues.contains (deadQueueName queue)).getD ""
  if guarded = "" then .ok ()
  else .error (plainError ("jubs: start() would open a worker on \"" ++ deadQueueName guarded ++
    "\", which is the dead queue of \"" ++ guarded ++ "\" — a dead queue is consumed by nobody, " ++
    "so rename that queue or drop \"" ++ guarded ++ "\" from createJobs(\x7b deadQueues \x7d)")
      none)

/-- The queues that are started. -/
def startedQueues (handlers : List StartedHandler) : List String :=
  queuesOf (handlers.map StartedHandler.definition)

/-- What `startRuntime` checks before it awaits anything. -/
def checkStart (config : StartConfig) (handlers : List StartedHandler) : Except Thrown Unit := do
  let byName ← handlersByName handlers
  let queues := startedQueues handlers
  assertEveryDefinitionRuns config.definitions byName queues
  assertEveryTunedQueueStarted (config.tuning.map Prod.fst) queues
  assertNoQueueConsumesADeadQueue (onceEach config.deadQueues) queues

/-! ### What the driver is asked for -/

/-- `ReconcileRequest`. -/
structure ReconcileRequest where
  queue : String
  declared : List ScheduleUpsert

/-- `ConsumeRequest`.  The `run` of every queue is that of the runtime. -/
structure ConsumeRequest where
  queue : String
  concurrency : Number
  limiter : Option QueueLimiter

/-- `declaredSchedules(config, handlers, queue)`, one answer for each schedule. -/
def declaredSchedules (timezone : Option String) (handlers : List StartedHandler) (queue : String) :
    List (Except Thrown ScheduleUpsert) :=
  (handlers.filter fun handler => handler.definition.queue = queue).filterMap fun handler =>
    handler.schedule.map (scheduleUpsert timezone handler.definition)

/-- The requests of `reconcileEveryQueue`, and an error when some schedule is refused. -/
def reconcileRequests (timezone : Option String) (handlers : List StartedHandler) :
    Except Thrown (List ReconcileRequest) :=
  (startedQueues handlers).mapM fun queue => do
    let declared ← (declaredSchedules timezone handlers queue).mapM id
    return ⟨queue, declared⟩

/-- `DEFAULT_CONCURRENCY`. -/
def defaultConcurrency : Number := 10

/-- `consumeRequest(queue, tuning, run)`. -/
def consumeRequest (queue : String) (tuning : Option QueueTuning) : ConsumeRequest where
  queue := queue
  concurrency := (tuning.bind QueueTuning.concurrency).getD defaultConcurrency
  limiter := tuning.bind QueueTuning.limiter

/-! ### The machine -/

/-- What a start and its driver do, as an observer sees it. -/
inductive StartEvent where
  /-- `driver.reconcileSchedules(request)` is called, or resolves. -/
  | reconcile (request : ReconcileRequest)
  | reconciled (queue : String)
  /-- `driver.consume(request)` is called, resolves with a consumer, or rejects. -/
  | consume (request : ConsumeRequest)
  | opened (queue : String)
  | refused (queue : String) (error : Thrown)
  /-- `consumer.close()` is called. -/
  | close (queue : String)
  /-- The cancellation sweep runs. -/
  | sweep

/-- Why a start was rejected. -/
inductive Refusal where
  | checked (error : Thrown)
  | schedule (error : Thrown)
  | reconcile (error : Thrown)
  | consume (error : Thrown)

/-- The refusals that are found before the driver is asked for anything. -/
def Refusal.early : Refusal → Bool
  | .checked _ | .schedule _ => true
  | .reconcile _ | .consume _ => false

/-- What became of one call of `driver.consume`. -/
inductive ConsumeFate where
  | pending
  | opened
  | refused (error : Thrown)

/-- Where a start stands. -/
inductive StartPhase where
  | checking
  | declaring
  /-- The driver reconciles the first of these requests. -/
  | reconciling (request : ReconcileRequest) (rest : List ReconcileRequest)
  /-- Every consumer was asked for, and some of the calls may be pending. -/
  | consuming
  /-- The consumers that were opened are closing, and these are pending. -/
  | closing (pending : List String) (error : Thrown)
  | rejected (refusal : Refusal)
  | running

/-- A start, the calls of `driver.consume` it made, and what was seen of it. -/
structure StartState where
  phase : StartPhase
  fates : List (String × ConsumeFate)
  log : List StartEvent

/-- A start that was just called. -/
def StartState.init : StartState := ⟨.checking, [], []⟩

/-- What happens next. -/
inductive StartAct where
  /-- The checks are made. -/
  | checks
  /-- The payloads and policies of all schedules are resolved. -/
  | declares
  /-- One of them is refused, of those a queue declares. -/
  | declareRefused (queue : String) (index : ℕ)
  /-- The driver answers the queue it reconciles. -/
  | reconciles
  | reconcileRefused (error : Thrown)
  /-- The driver answers one of the calls of `consume`. -/
  | opens (queue : String)
  | consumeRefused (queue : String) (error : Thrown)
  /-- All calls of `consume` have settled. -/
  | gathers
  /-- One of the consumers that are closed again has closed, or refuses to. -/
  | closes (queue : String)
  /-- All of them have. -/
  | throws
  /-- The interval of the cancellation sweep fires. -/
  | sweeps

/-- A pending call of a queue is answered. -/
def answerConsume (queue : String) (fate : ConsumeFate) (fates : List (String × ConsumeFate)) :
    List (String × ConsumeFate) :=
  fates.map fun p => if p.1 = queue then (p.1, fate) else p

/-- The queues whose consumer was opened. -/
def openedQueues (fates : List (String × ConsumeFate)) : List String :=
  fates.filterMap fun p => match p.2 with
    | .opened => some p.1
    | _ => none

/-- The errors of the calls that were refused, in the order of the calls. -/
def refusals (fates : List (String × ConsumeFate)) : List Thrown :=
  fates.filterMap fun p => match p.2 with
    | .refused error => some error
    | _ => none

/-- Whether a call of a queue is pending. -/
def isPending (queue : String) (fates : List (String × ConsumeFate)) : Bool :=
  fates.any fun p => match p.2 with
    | .pending => decide (p.1 = queue)
    | _ => false

/-- Whether every call has settled. -/
def allSettled (fates : List (String × ConsumeFate)) : Bool :=
  fates.all fun p => match p.2 with
    | .pending => false
    | _ => true

section

variable (config : StartConfig) (handlers : List StartedHandler)

/-- The requests of `openConsumers`. -/
def consumeRequests : List ConsumeRequest :=
  (startedQueues handlers).map fun queue => consumeRequest queue (config.tuning.lookup queue)

/-- The loop of `reconcileEveryQueue` goes on, or the consumers are asked for. -/
def goOn (s : StartState) : List ReconcileRequest → StartState
  | request :: rest =>
      { s with phase := .reconciling request rest, log := s.log ++ [.reconcile request] }
  | [] =>
      { phase := .consuming
        fates := (consumeRequests config handlers).map fun request => (request.queue, .pending)
        log := s.log ++ (consumeRequests config handlers).map .consume }

/-- `startRuntime(config, handlers, options)` and its driver. -/
def startRun : Machine StartState StartAct := fun s act =>
  match act, s.phase with
  | .checks, .checking =>
      match checkStart config handlers with
      | .error error => some { s with phase := .rejected (.checked error) }
      | .ok _ => some { s with phase := .declaring }
  | .declares, .declaring =>
      match reconcileRequests config.timezone handlers with
      | .error _ => none
      | .ok requests => some (goOn config handlers s requests)
  | .declareRefused queue index, .declaring =>
      -- several may be refused, and the first of them to settle rejects
      if queue ∈ startedQueues handlers then
        match (declaredSchedules config.timezone handlers queue)[index]? with
        | some (.error error) => some { s with phase := .rejected (.schedule error) }
        | _ => none
      else none
  | .reconciles, .reconciling request rest =>
      some (goOn config handlers { s with log := s.log ++ [.reconciled request.queue] } rest)
  | .reconcileRefused error, .reconciling _ _ =>
      some { s with phase := .rejected (.reconcile error) }
  | .opens queue, .consuming =>
      if isPending queue s.fates then
        some { s with fates := answerConsume queue .opened s.fates, log :=
          s.log ++ [.opened queue] }
      else none
  | .consumeRefused queue error, .consuming =>
      if isPending queue s.fates then
        some { s with
          fates := answerConsume queue (.refused error) s.fates
          log := s.log ++ [.refused queue error] }
      else none
  | .gathers, .consuming =>
      if allSettled s.fates then
        match refusals s.fates with
        | [] => some { s with phase := .running }
        | error :: _ => some { s with
            phase := .closing (openedQueues s.fates) error
            log := s.log ++ (openedQueues s.fates).map .close }
      else none
  | .closes queue, .closing pending error =>
      if queue ∈ pending then some { s with phase := .closing (pending.erase queue) error }
      else none
  | .throws, .closing pending error =>
      if pending = [] then some { s with phase := .rejected (.consume error) } else none
  | .sweeps, .running => some { s with log := s.log ++ [.sweep] }
  | _, _ => none

end

/-! ### What every step keeps -/

variable {config : StartConfig} {handlers : List StartedHandler} {s t : StartState}
variable {queues : List String}

/-- The queues that were reconciled. -/
def reconciledQueues (log : List StartEvent) : List String :=
  log.filterMap fun event => match event with
    | .reconciled queue => some queue
    | _ => none

/-- The queues whose consumer was opened, as the log has them. -/
def openedIn (log : List StartEvent) : List String :=
  log.filterMap fun event => match event with
    | .opened queue => some queue
    | _ => none

theorem reconciledQueues_append (log events : List StartEvent) :
    reconciledQueues (log ++ events) = reconciledQueues log ++ reconciledQueues events :=
  List.filterMap_append

theorem openedIn_append (log events : List StartEvent) :
    openedIn (log ++ events) = openedIn log ++ openedIn events := List.filterMap_append

/-- Nothing but the reconciliation of queues was seen. -/
def BeforeConsumers (log : List StartEvent) : Prop :=
  ∀ event ∈ log, (∃ request, event = .reconcile request) ∨ ∃ queue, event = .reconciled queue

/-- Behind the reconciliation of every queue, one consumer was asked for each. -/
structure Asked (queues : List String) (fates : List (String × ConsumeFate))
    (log : List StartEvent) : Prop where
  names : fates.map Prod.fst = queues
  opened : (openedIn log).Perm (openedQueues fates)
  behind : ∃ front back, log = front ++ back ∧ BeforeConsumers front ∧
    reconciledQueues front = queues

/-- What holds of a start in each of its phases. -/
def PhaseInv (queues : List String) (s : StartState) : Prop :=
  match s.phase with
  | .checking | .declaring => s.log = []
  | .reconciling request rest => BeforeConsumers s.log ∧
      reconciledQueues s.log ++ request.queue :: rest.map ReconcileRequest.queue = queues
  | .consuming => Asked queues s.fates s.log ∧ .sweep ∉ s.log ∧ ∀ queue, .close queue ∉ s.log
  | .closing _ _ => Asked queues s.fates s.log ∧ .sweep ∉ s.log ∧
      ∀ queue ∈ openedIn s.log, .close queue ∈ s.log
  | .rejected refusal => (refusal.early = true → s.log = []) ∧ .sweep ∉ s.log ∧
      ∀ queue ∈ openedIn s.log, .close queue ∈ s.log
  | .running => Asked queues s.fates s.log ∧ openedQueues s.fates = queues ∧
      ∀ queue, .close queue ∉ s.log

/-- What holds of a start. -/
structure StartInv (queues : List String) (s : StartState) : Prop where
  /-- Whatever is not the reconciliation of a queue stands behind that of all queues. -/
  behind : ∃ front back, s.log = front ++ back ∧ BeforeConsumers front ∧
    (back ≠ [] → reconciledQueues front = queues)
  phase : PhaseInv queues s

theorem BeforeConsumers.append {log : List StartEvent} (h : BeforeConsumers log)
    {event : StartEvent}
    (hevent : (∃ request, event = .reconcile request) ∨ ∃ queue, event = .reconciled queue) :
    BeforeConsumers (log ++ [event]) := by
  intro other hother
  rcases List.mem_append.1 hother with hother | hother
  · exact h other hother
  · rw [List.mem_singleton.1 hother]
    exact hevent

theorem BeforeConsumers.opened_nil {log : List StartEvent} (h : BeforeConsumers log) :
    openedIn log = [] := by
  refine List.filterMap_eq_nil_iff.2 fun event hevent => ?_
  rcases h event hevent with ⟨request, rfl⟩ | ⟨queue, rfl⟩ <;> rfl

theorem mem_openedIn {queue : String} {log : List StartEvent} :
    queue ∈ openedIn log ↔ .opened queue ∈ log := by
  rw [openedIn, List.mem_filterMap]
  constructor
  · rintro ⟨event, hevent, heq⟩
    cases event <;> simp only [Option.some.injEq, reduceCtorEq] at heq
    exact heq ▸ hevent
  · intro h
    exact ⟨_, h, rfl⟩

/-- What is seen later stands behind. -/
theorem Asked.append {fates : List (String × ConsumeFate)} {log events : List StartEvent}
    (h : Asked queues fates log) {fates' : List (String × ConsumeFate)}
    (hnames : fates'.map Prod.fst = fates.map Prod.fst)
    (hopened : (openedIn events ++ openedQueues fates).Perm (openedQueues fates')) :
    Asked queues fates' (log ++ events) := by
  obtain ⟨front, back, rfl, hbefore, hall⟩ := h.behind
  refine ⟨hnames.trans h.names, ?_, front, back ++ events, List.append_assoc _ _ _, hbefore, hall⟩
  rw [openedIn_append]
  exact (List.perm_append_comm.trans (h.opened.append_left _)).trans hopened

theorem Asked.split {fates : List (String × ConsumeFate)} {log : List StartEvent}
    (h : Asked queues fates log) : ∃ front back, log = front ++ back ∧ BeforeConsumers front ∧
      (back ≠ [] → reconciledQueues front = queues) := by
  obtain ⟨front, back, hsplit, hbefore, hall⟩ := h.behind
  exact ⟨front, back, hsplit, hbefore, fun _ => hall⟩

@[simp] theorem names_answerConsume (queue : String) (fate : ConsumeFate)
    (fates : List (String × ConsumeFate)) :
    (answerConsume queue fate fates).map Prod.fst = fates.map Prod.fst := by
  rw [answerConsume, List.map_map]
  refine List.map_congr_left fun p _ => ?_
  by_cases h : p.1 = queue <;> simp [h]

theorem isPending_iff {queue : String} {fates : List (String × ConsumeFate)} :
    isPending queue fates = true ↔ (queue, .pending) ∈ fates := by
  rw [isPending, List.any_eq_true]
  constructor
  · rintro ⟨⟨name, fate⟩, hmem, heq⟩
    cases fate with
    | pending => exact of_decide_eq_true heq ▸ hmem
    | opened => cases heq
    | refused error => cases heq
  · intro h
    exact ⟨_, h, decide_eq_true rfl⟩

theorem answerConsume_of_not_mem {queue : String} {fate : ConsumeFate}
    {fates : List (String × ConsumeFate)} (h : queue ∉ fates.map Prod.fst) :
    answerConsume queue fate fates = fates := by
  refine (List.map_congr_left fun p hp => ?_).trans (List.map_id fates)
  have hne : p.1 ≠ queue := fun heq => h (heq ▸ List.mem_map_of_mem hp)
  exact if_neg hne

/-- An answer is the fate of one call. -/
theorem exists_answerConsume {queue : String} {fates : List (String × ConsumeFate)}
    (hnodup : (fates.map Prod.fst).Nodup) (h : isPending queue fates = true) :
    ∃ front back, fates = front ++ (queue, .pending) :: back ∧ ∀ fate,
      answerConsume queue fate fates = front ++ (queue, fate) :: back := by
  obtain ⟨front, back, rfl⟩ := List.append_of_mem (isPending_iff.1 h)
  refine ⟨front, back, rfl, fun fate => ?_⟩
  rw [List.map_append, List.map_cons] at hnodup
  have hfront : queue ∉ front.map Prod.fst := fun hmem =>
    (List.disjoint_of_nodup_append hnodup) hmem List.mem_cons_self
  have hback : queue ∉ back.map Prod.fst := (List.nodup_cons.1 (List.nodup_append.1 hnodup).2.1).1
  have happend : answerConsume queue fate (front ++ (queue, .pending) :: back) =
      answerConsume queue fate front ++ answerConsume queue fate ((queue, .pending) :: back) :=
    List.map_append
  rw [happend, answerConsume_of_not_mem hfront]
  have hcons : answerConsume queue fate ((queue, .pending) :: back) =
      (queue, fate) :: answerConsume queue fate back := by
    rw [answerConsume, List.map_cons, if_pos rfl]
    rfl
  rw [hcons, answerConsume_of_not_mem hback]

theorem openedQueues_append (fates fates' : List (String × ConsumeFate)) :
    openedQueues (fates ++ fates') = openedQueues fates ++ openedQueues fates' :=
      List.filterMap_append

/-- Where every call has settled and none was refused, every consumer was opened. -/
theorem openedQueues_of_settled {fates : List (String × ConsumeFate)}
    (hsettled : allSettled fates = true)
    (hrefused : refusals fates = []) : openedQueues fates = fates.map Prod.fst := by
  induction fates with
  | nil => rfl
  | cons p fates ih =>
      obtain ⟨name, fate⟩ := p
      rw [allSettled, List.all_cons, Bool.and_eq_true] at hsettled
      cases fate with
      | pending => cases hsettled.1
      | refused error => cases hrefused
      | opened => exact congrArg (name :: ·) (ih hsettled.2 hrefused)

/-- Going on with the requests that are left. -/
theorem startInv_goOn {requests : List ReconcileRequest} (hbefore : BeforeConsumers s.log)
    (hqueues : reconciledQueues s.log ++ requests.map ReconcileRequest.queue =
      startedQueues handlers) :
    StartInv (startedQueues handlers) (goOn config handlers s requests) := by
  cases requests with
  | cons request rest =>
      have hlog := hbefore.append (Or.inl ⟨request, rfl⟩)
      refine ⟨⟨_, [], (List.append_nil _).symm, hlog, fun h => absurd rfl h⟩, hlog, ?_⟩
      change reconciledQueues (s.log ++ [.reconcile request]) ++ _ = _
      rw [reconciledQueues_append]
      simpa [reconciledQueues] using hqueues
  | nil =>
      have hnone : ∀ event ∈ (consumeRequests config handlers).map StartEvent.consume,
          ∃ request, event = .consume request := by
        intro event hevent
        obtain ⟨request, -, rfl⟩ := List.mem_map.1 hevent
        exact ⟨request, rfl⟩
      have hopened : openedIn ((consumeRequests config handlers).map StartEvent.consume) = [] := by
        refine List.filterMap_eq_nil_iff.2 fun event hevent => ?_
        obtain ⟨request, rfl⟩ := hnone event hevent
        rfl
      have hasked : Asked (startedQueues handlers)
          ((consumeRequests config handlers).map fun request => (request.queue, .pending))
          (s.log ++ (consumeRequests config handlers).map .consume) := by
        refine ⟨?_, ?_, s.log, _, rfl, hbefore, by simpa using hqueues⟩
        · rw [List.map_map, consumeRequests, List.map_map]
          exact List.map_id _
        · have hpending : openedQueues ((consumeRequests config handlers).map fun request =>
              (request.queue, ConsumeFate.pending)) = [] := by
            refine List.filterMap_eq_nil_iff.2 fun p hp => ?_
            obtain ⟨request, -, rfl⟩ := List.mem_map.1 hp
            rfl
          have hlog : openedIn (s.log ++ (consumeRequests config handlers).map .consume) = [] := by
            rw [openedIn_append]
            exact List.append_eq_nil_iff.2 ⟨hbefore.opened_nil, hopened⟩
          rw [hpending, hlog]
      have hmem : ∀ event, event ∈ s.log ++ (consumeRequests config handlers).map
          StartEvent.consume →
          (∃ request, event = .reconcile request) ∨ (∃ queue, event = .reconciled queue) ∨
            ∃ request, event = .consume request := by
        intro event hevent
        rcases List.mem_append.1 hevent with h | h
        · exact (hbefore event h).imp_right Or.inl
        · exact Or.inr (Or.inr (hnone event h))
      refine ⟨hasked.split, hasked, ?_, ?_⟩
      · intro h
        rcases hmem _ h with ⟨request, h⟩ | ⟨queue, h⟩ | ⟨request, h⟩ <;> cases h
      · intro queue h
        rcases hmem _ h with ⟨request, h⟩ | ⟨queue, h⟩ | ⟨request, h⟩ <;> cases h

theorem queues_of_requests {requests : List ReconcileRequest} {timezone : Option String}
    (h : reconcileRequests timezone handlers = .ok requests) :
    requests.map ReconcileRequest.queue = startedQueues handlers := by
  have hall := forall₂_of_mapM_eq_ok h
  clear h
  generalize startedQueues handlers = queues at hall
  induction hall with
  | nil => rfl
  | cons hfirst _ ih =>
      obtain ⟨declared, -, hrequest⟩ := bind_eq_ok.1 hfirst
      rw [List.map_cons, ih, ← Except.ok.inj hrequest]

/-- What holds of a start that is rejected before any consumer was asked for. -/
theorem BeforeConsumers.startInv {refusal : Refusal} (h : BeforeConsumers s.log)
    (hearly : refusal.early = true → s.log = []) :
    StartInv queues { s with phase := .rejected refusal } := by
  refine ⟨⟨s.log, [], (List.append_nil _).symm, h, fun hne => absurd rfl hne⟩, hearly, ?_, ?_⟩
  · intro hsweep
    rcases h _ hsweep with ⟨request, heq⟩ | ⟨queue, heq⟩ <;> cases heq
  · intro queue hqueue
    have hnone : openedIn s.log = [] := h.opened_nil
    change queue ∈ openedIn s.log at hqueue
    rw [hnone] at hqueue
    cases hqueue

theorem beforeConsumers_nil : BeforeConsumers [] := by
  intro event hevent
  cases hevent

/-- A call that is answered is one event, and the answer says whether a consumer was opened. -/
theorem startInv_answered {queue : String} {fate : ConsumeFate} {event : StartEvent}
    (hinv : StartInv (startedQueues handlers) s) (hconsuming : s.phase = .consuming)
    (hpending : isPending queue s.fates = true)
    (hopened : openedIn [event] = openedQueues [(queue, fate)]) (hsweep : event ≠ .sweep)
    (hclose : ∀ other, event ≠ .close other) :
    StartInv (startedQueues handlers)
      { s with fates := answerConsume queue fate s.fates, log := s.log ++ [event] } := by
  obtain ⟨hasked, hnoSweep, hnoClose⟩ : Asked (startedQueues handlers) s.fates s.log ∧
      .sweep ∉ s.log ∧ ∀ queue, .close queue ∉ s.log := by
    simpa [PhaseInv, hconsuming] using hinv.phase
  have hnodup : (s.fates.map Prod.fst).Nodup := hasked.names ▸ nodup_onceEach _
  obtain ⟨front, back, hfates, hanswer⟩ := exists_answerConsume hnodup hpending
  have hasked' : Asked (startedQueues handlers) (answerConsume queue fate s.fates)
      (s.log ++ [event]) := by
    refine hasked.append (names_answerConsume _ _ _) ?_
    have hsplit : openedQueues ((queue, fate) :: back) =
        openedQueues [(queue, fate)] ++ openedQueues back := openedQueues_append [_] back
    have hunanswered : openedQueues ((queue, .pending) :: back) = openedQueues back := rfl
    rw [hanswer fate, hfates, openedQueues_append, openedQueues_append, hopened, hsplit,
      hunanswered, ← List.append_assoc, ← List.append_assoc]
    exact List.perm_append_comm.append_right _
  refine ⟨hasked'.split, ?_⟩
  simp only [PhaseInv, hconsuming]
  refine ⟨hasked', ?_, ?_⟩
  · simpa using ⟨hnoSweep, hsweep.symm⟩
  · intro other
    simpa using ⟨hnoClose other, (hclose other).symm⟩

/-- **What every step of a start keeps.** -/
theorem startRun_inv {act : StartAct} (hinv : StartInv (startedQueues handlers) s)
    (h : startRun config handlers s act = some t) : StartInv (startedQueues handlers) t := by
  have hphase := hinv.phase
  unfold startRun at h
  split at h
  case h_1 hchecking =>
    have hlog : s.log = [] := by simpa [PhaseInv, hchecking] using hphase
    split at h <;> cases h
    · exact (hlog ▸ beforeConsumers_nil).startInv fun _ => hlog
    · exact ⟨hinv.behind, hlog⟩
  case h_2 hdeclaring =>
    have hlog : s.log = [] := by simpa [PhaseInv, hdeclaring] using hphase
    split at h
    · cases h
    · rename_i requests hrequests
      cases h
      refine startInv_goOn (hlog ▸ beforeConsumers_nil) ?_
      rw [hlog, queues_of_requests hrequests]
      rfl
  case h_3 queue index hdeclaring =>
    have hlog : s.log = [] := by simpa [PhaseInv, hdeclaring] using hphase
    split_ifs at h
    split at h
    · cases h
      exact (hlog ▸ beforeConsumers_nil).startInv fun _ => hlog
    · cases h
  case h_4 request rest hreconciling =>
    obtain ⟨hbefore, hqueues⟩ : BeforeConsumers s.log ∧ reconciledQueues s.log ++ request.queue ::
        rest.map ReconcileRequest.queue = startedQueues handlers := by
      simpa [PhaseInv, hreconciling] using hphase
    cases h
    refine startInv_goOn (hbefore.append (Or.inr ⟨_, rfl⟩)) ?_
    rw [← hqueues, reconciledQueues_append, List.append_assoc]
    rfl
  case h_5 error request rest hreconciling =>
    obtain ⟨hbefore, -⟩ : BeforeConsumers s.log ∧ reconciledQueues s.log ++ request.queue ::
        rest.map ReconcileRequest.queue = startedQueues handlers := by
      simpa [PhaseInv, hreconciling] using hphase
    cases h
    exact hbefore.startInv (by intro h; cases h)
  case h_6 queue hconsuming =>
    split_ifs at h with hpending
    cases h
    exact startInv_answered hinv hconsuming hpending rfl (by simp) (by simp)
  case h_7 queue error hconsuming =>
    split_ifs at h with hpending
    cases h
    exact startInv_answered hinv hconsuming hpending rfl (by simp) (by simp)
  case h_8 hconsuming =>
    obtain ⟨hasked, hsweep, hclose⟩ : Asked (startedQueues handlers) s.fates s.log ∧
        .sweep ∉ s.log ∧
        ∀ queue, .close queue ∉ s.log := by simpa [PhaseInv, hconsuming] using hphase
    split_ifs at h with hsettled
    split at h
    · rename_i hrefusals
      cases h
      exact ⟨hasked.split, hasked, (openedQueues_of_settled hsettled hrefusals).trans hasked.names,
        hclose⟩
    · rename_i error errors hrefusals
      cases h
      have hnone : openedIn ((openedQueues s.fates).map StartEvent.close) = [] := by
        refine List.filterMap_eq_nil_iff.2 fun event hevent => ?_
        obtain ⟨queue, -, rfl⟩ := List.mem_map.1 hevent
        rfl
      have hasked' : Asked (startedQueues handlers) s.fates
          (s.log ++ (openedQueues s.fates).map .close) := by
        refine hasked.append rfl ?_
        rw [hnone]
        exact List.Perm.refl _
      refine ⟨hasked'.split, hasked', ?_, ?_⟩
      · simpa using hsweep
      · intro queue hqueue
        have hopened := hasked'.opened.mem_iff.1 hqueue
        exact List.mem_append_right _ (List.mem_map_of_mem hopened)
  case h_9 queue pending error hclosing =>
    obtain ⟨hasked, hsweep, hclose⟩ : Asked (startedQueues handlers) s.fates s.log ∧
        .sweep ∉ s.log ∧
        ∀ queue ∈ openedIn s.log, .close queue ∈ s.log := by simpa [PhaseInv, hclosing] using hphase
    split_ifs at h
    cases h
    exact ⟨hasked.split, hasked, hsweep, hclose⟩
  case h_10 pending error hclosing =>
    obtain ⟨hasked, hsweep, hclose⟩ : Asked (startedQueues handlers) s.fates s.log ∧
        .sweep ∉ s.log ∧
        ∀ queue ∈ openedIn s.log, .close queue ∈ s.log := by simpa [PhaseInv, hclosing] using hphase
    split_ifs at h
    cases h
    exact ⟨hinv.behind, (by intro h; cases h), hsweep, hclose⟩
  case h_11 hrunning =>
    obtain ⟨hasked, hopened, hclose⟩ : Asked (startedQueues handlers) s.fates s.log ∧
        openedQueues s.fates = startedQueues handlers ∧ ∀ queue, .close queue ∉ s.log := by
      simpa [PhaseInv, hrunning] using hphase
    cases h
    have hasked' : Asked (startedQueues handlers) s.fates (s.log ++ [.sweep]) :=
      hasked.append rfl (List.Perm.refl _)
    refine ⟨hasked'.split, ?_⟩
    simp only [PhaseInv, hrunning]
    refine ⟨hasked', hopened, ?_⟩
    intro queue
    simpa using hclose queue
  case h_12 => cases h

/-! ### What was checked before -/

/-- Some schedule of a queue that is started is refused. -/
def ScheduleRefused (config : StartConfig) (handlers : List StartedHandler) : Prop :=
  ∃ queue ∈ startedQueues handlers, ∃ e, .error e ∈ declaredSchedules config.timezone handlers queue

theorem not_scheduleRefused {requests : List ReconcileRequest}
    (h : reconcileRequests config.timezone handlers = .ok requests) :
    ¬ScheduleRefused config handlers := by
  rintro ⟨queue, hqueue, e, he⟩
  obtain ⟨request, hrequest⟩ := exists_of_mapM_eq_ok h hqueue
  obtain ⟨declared, hdeclared, -⟩ := bind_eq_ok.1 hrequest
  obtain ⟨upsert, hupsert⟩ := exists_of_mapM_eq_ok hdeclared he
  cases hupsert

/-- What is known of the handlers in each phase of a start. -/
def Passed (config : StartConfig) (handlers : List StartedHandler) (s : StartState) : Prop :=
  match s.phase with
  | .checking => s.log = []
  | .declaring => s.log = [] ∧ checkStart config handlers = .ok ()
  | .rejected _ => s.log = [] ∨ (checkStart config handlers = .ok () ∧
      ¬ScheduleRefused config handlers)
  | _ => checkStart config handlers = .ok () ∧ ¬ScheduleRefused config handlers

theorem passed_goOn {requests : List ReconcileRequest}
    (h : checkStart config handlers = .ok () ∧ ¬ScheduleRefused config handlers) :
    Passed config handlers (goOn config handlers s requests) := by
  cases requests <;> exact h

/-- **The driver is asked for nothing before everything was checked.** -/
theorem startRun_passed {act : StartAct} (hpassed : Passed config handlers s)
    (h : startRun config handlers s act = some t) : Passed config handlers t := by
  unfold startRun at h
  split at h
  case h_1 hchecking =>
    have hlog : s.log = [] := by simpa [Passed, hchecking] using hpassed
    cases hcheck : checkStart config handlers with
    | error error =>
        rw [hcheck] at h
        cases h
        exact Or.inl hlog
    | ok =>
        rw [hcheck] at h
        cases h
        exact ⟨hlog, hcheck⟩
  case h_2 hdeclaring =>
    obtain ⟨-, hcheck⟩ : s.log = [] ∧ checkStart config handlers = .ok () := by
      simpa [Passed, hdeclaring] using hpassed
    split at h
    · cases h
    · rename_i requests hrequests
      cases h
      exact passed_goOn ⟨hcheck, not_scheduleRefused hrequests⟩
  case h_3 queue index hdeclaring =>
    obtain ⟨hlog, -⟩ : s.log = [] ∧ checkStart config handlers = .ok () := by
      simpa [Passed, hdeclaring] using hpassed
    split_ifs at h
    split at h
    · cases h
      exact Or.inl hlog
    · cases h
  case h_4 request rest hreconciling =>
    cases h
    exact passed_goOn (by simpa [Passed, hreconciling] using hpassed)
  case h_5 error request rest hreconciling =>
    cases h
    exact Or.inr (by simpa [Passed, hreconciling] using hpassed)
  case h_6 queue hconsuming =>
    split_ifs at h
    cases h
    simpa [Passed, hconsuming] using hpassed
  case h_7 queue error hconsuming =>
    split_ifs at h
    cases h
    simpa [Passed, hconsuming] using hpassed
  case h_8 hconsuming =>
    have hboth : checkStart config handlers = .ok () ∧ ¬ScheduleRefused config handlers := by
      simpa [Passed, hconsuming] using hpassed
    split_ifs at h
    split at h <;> cases h <;> exact hboth
  case h_9 queue pending error hclosing =>
    have hboth : checkStart config handlers = .ok () ∧ ¬ScheduleRefused config handlers := by
      simpa [Passed, hclosing] using hpassed
    split_ifs at h
    cases h
    exact hboth
  case h_10 pending error hclosing =>
    have hboth : checkStart config handlers = .ok () ∧ ¬ScheduleRefused config handlers := by
      simpa [Passed, hclosing] using hpassed
    split_ifs at h
    cases h
    exact Or.inr hboth
  case h_11 hrunning =>
    cases h
    simpa [Passed, hrunning] using hpassed
  case h_12 => cases h

/-! ### What a start leaves behind -/

/-- **What is owed by a start.** -/
structure StartLaw (config : StartConfig) (handlers : List StartedHandler) (s : StartState) :
    Prop where
  /-- Once it was rejected, every consumer it opened was closed, nothing is opened any more, and no
  sweep ran or runs. -/
  rejected : ∀ refusal, s.phase = .rejected refusal →
    (∀ queue, .opened queue ∈ s.log → .close queue ∈ s.log) ∧ .sweep ∉ s.log ∧
      ∀ act, startRun config handlers s act = none
  /-- One that was rejected for what it was given asked the driver for nothing. -/
  early : ∀ refusal, s.phase = .rejected refusal → refusal.early = true → s.log = []
  /-- The driver is asked for nothing when a check or a schedule is refused, however far it got. -/
  refused : checkStart config handlers ≠ .ok () ∨ ScheduleRefused config handlers → s.log = []
  /-- No consumer is asked for or opened before the schedules of every queue were reconciled. -/
  behind : ∀ front event back, s.log = front ++ event :: back →
    ((∃ request, event = .consume request) ∨ ∃ queue, event = .opened queue) →
      ∀ queue ∈ startedQueues handlers, .reconciled queue ∈ front
  /-- Once it resolved, each queue of the handlers has one consumer, which is open. -/
  running : s.phase = .running → (openedIn s.log).Perm (startedQueues handlers) ∧
    (startedQueues handlers).Nodup ∧ ∀ queue, .close queue ∉ s.log

theorem startInv_init : StartInv (startedQueues handlers) .init :=
  ⟨⟨[], [], rfl, beforeConsumers_nil, fun h => absurd rfl h⟩, rfl⟩

theorem mem_reconciledQueues {queue : String} {log : List StartEvent}
    (h : queue ∈ reconciledQueues log) : .reconciled queue ∈ log := by
  obtain ⟨event, hevent, heq⟩ := List.mem_filterMap.1 h
  cases event <;> simp only [Option.some.injEq, reduceCtorEq] at heq
  exact heq ▸ hevent

/-- **What a start that was rejected leaves behind, and one that was not**, whatever the driver
answers and in whatever order. -/
theorem start_contract (config : StartConfig) (handlers : List StartedHandler) {l : List StartAct}
    {s : StartState} (h : (startRun config handlers).exec .init l = some s) :
    StartLaw config handlers s := by
  have hinv : StartInv (startedQueues handlers) s :=
    Machine.exec_invariant (fun _ _ _ hinv hstep => startRun_inv hinv hstep) h startInv_init
  have hpassed : Passed config handlers s :=
    Machine.exec_invariant (fun _ _ _ hinv hstep => startRun_passed hinv hstep) h rfl
  refine ⟨?_, ?_, ?_, ?_, ?_⟩
  · intro refusal hrejected
    obtain ⟨-, hsweep, hclose⟩ : (refusal.early = true → s.log = []) ∧ .sweep ∉ s.log ∧
        ∀ queue ∈ openedIn s.log, .close queue ∈ s.log := by
      simpa [PhaseInv, hrejected] using hinv.phase
    refine ⟨fun queue hopened => hclose queue (mem_openedIn.2 hopened), hsweep, ?_⟩
    intro act
    cases act <;> simp [startRun, hrejected]
  · intro refusal hrejected hearly
    obtain ⟨hlog, -⟩ : (refusal.early = true → s.log = []) ∧ .sweep ∉ s.log ∧
        ∀ queue ∈ openedIn s.log, .close queue ∈ s.log := by
      simpa [PhaseInv, hrejected] using hinv.phase
    exact hlog hearly
  · intro hrefused
    by_contra hne
    have hboth : checkStart config handlers = .ok () ∧ ¬ScheduleRefused config handlers := by
      cases hphase : s.phase <;> simp_all [Passed]
    rcases hrefused with hcheck | hschedule
    · exact hcheck hboth.1
    · exact hboth.2 hschedule
  · intro front event back hsplit hevent queue hqueue
    obtain ⟨first, rest, hlog, hbefore, hall⟩ := hinv.behind
    -- the event does not stand among the reconciliations
    have hnot : event ∉ first := by
      intro hmem
      rcases hbefore event hmem with ⟨request, rfl⟩ | ⟨queue, rfl⟩ <;>
        rcases hevent with ⟨request, heq⟩ | ⟨queue, heq⟩ <;> cases heq
    rw [hlog] at hsplit
    rcases List.append_eq_append_iff.1 hsplit with ⟨middle, hfront, hrest⟩ | ⟨middle, hfirst, hback⟩
    · have hne : rest ≠ [] := by
        rintro rfl
        cases (List.append_eq_nil_iff.1 hrest.symm).2
      rw [hfront]
      refine List.mem_append_left _ (mem_reconciledQueues ?_)
      rw [hall hne]
      exact hqueue
    · cases middle with
      | nil =>
          have hne : rest ≠ [] := by
            rw [List.nil_append] at hback
            rw [← hback]
            exact List.cons_ne_nil _ _
          rw [List.append_nil] at hfirst
          rw [← hfirst]
          refine mem_reconciledQueues ?_
          rw [hall hne]
          exact hqueue
      | cons other middle =>
          obtain ⟨rfl, -⟩ := List.cons_eq_cons.1 hback
          refine absurd ?_ hnot
          rw [hfirst]
          exact List.mem_append_right _ List.mem_cons_self
  · intro hrunning
    obtain ⟨hasked, hopened, hclose⟩ : Asked (startedQueues handlers) s.fates s.log ∧
        openedQueues s.fates = startedQueues handlers ∧ ∀ queue, .close queue ∉ s.log := by
      simpa [PhaseInv, hrunning] using hinv.phase
    exact ⟨hopened ▸ hasked.opened, nodup_onceEach _, hclose⟩

/-- Two handlers on two queues. -/
def twoHandlers : List StartedHandler :=
  [⟨lineJob, none⟩, ⟨{ lineJob with name := "billing.charge", queue := "billing" }, none⟩]

/-- A consumer that is refused before the other one is opened. -/
def lateOpening : List StartAct :=
  [.checks, .declares, .reconciles, .reconciles, .consumeRefused "billing" typeError, .opens "mail",
    .gathers, .closes "mail", .throws]

theorem start_contract_example : ∃ s, (startRun ⟨[], [], none, []⟩ twoHandlers).exec .init
    lateOpening = some s ∧ s.phase = .rejected (.consume typeError) ∧ .opened "mail" ∈ s.log ∧
      StartLaw ⟨[], [], none, []⟩ twoHandlers s := by
  have hrun : ∃ s, (startRun ⟨[], [], none, []⟩ twoHandlers).exec .init lateOpening = some s ∧
      s.phase = .rejected (.consume typeError) ∧ .opened "mail" ∈ s.log := by
    refine ⟨_, rfl, rfl, ?_⟩
    simp
  obtain ⟨s, hexec, hphase, hopened⟩ := hrun
  exact ⟨s, hexec, hphase, hopened, start_contract _ _ hexec⟩

end Jubs
