/-
**One cycle of the relay.**

A cycle claims a batch of rows, delivers them one by one, reports each row it leaves behind, and
marks the delivered ones in one call.  A row fails in the code of the caller or in the driver, with
anything at all, and its failure is put into words on the way to the report.

Main definitions:

* `Jubs.leftBehind`, `Jubs.reportLeftBehind` — the report of a row that was left behind;
* `Jubs.relayRows`, `Jubs.runRelayCycle` — the loop over a batch, and the cycle around it;
* `Jubs.RowOutcome`, `Jubs.attempts` — what becomes of each row, one after the other;
* `Jubs.Classified` — why a row is left behind, told from the row and the driver alone;
* `Jubs.CycleLaw` — what a cycle owes to its batch;
* `Jubs.Tellable` — a row whose failure, if it has one, can be told.

Main results:

* `Jubs.prepare_ahead_iff` — when a row is left to a newer deploy;
* `Jubs.classified_rowOutcome` — why a row is left behind;
* `Jubs.attempts_eq_flatMap` — a row fares the same whatever rows stand around it;
* `Jubs.relayRows_of_tellable`, `Jubs.relayRows_of_not_tellable` — how far the loop comes;
* `Jubs.cycleLaw_iff` — **when a cycle pays what it owes**;
* `Jubs.cycle_broken` — a row that takes its neighbour down.
-/

import Jubs.FailureReports
import Jubs.Outbox

set_option autoImplicit false

namespace Jubs

/-! ### The report of a row -/

/-- `ADVICE`. -/
def advice : LeftBehindReason → String
  | .driverFailed =>
      "that row is not broken and its job is not lost: the delivery failed inside the driver, " ++
        "so nothing of it reached the queue, and the next cycle claims the row again and " ++
        "delivers it as soon as the driver answers. Look at Redis and at the connection the " ++
        "driver holds, and leave the row in the claim: marking it delivered by hand or deleting " ++
        "it loses a job that was committed together with the state change beside it. An outbox " ++
        "that counts claims gives up on the row before the connection comes back — the adapter " ++
        "in the outbox guide stops claiming a row after ten — so read that count, and reset it " ++
        "once the driver answers again."
  | .versionAhead =>
      "that row is not broken, and this process alone cannot deliver it: a newer deploy wrote " ++
        "its payload, and a process running that version delivers it as soon as it claims it. " ++
        "Wait for the deploy to finish, and leave the row in the claim: marking it delivered by " ++
        "hand or deleting it loses a job that was committed together with the state change " ++
        "beside it. An outbox that counts claims gives up on the row before the deploy does — " ++
        "the adapter in the outbox guide stops claiming a row after ten — so read that count, " ++
        "and reset it if the deploy takes long."
  | .unrecoverable =>
      "that row alone is not enqueued and stays unmarked, so every cycle claims it again and " ++
        "fails on it again until something outside the relay changes it. Register on the " ++
        "relaying client the definition the failure names, or take the row out of the claim: " ++
        "mark it delivered by hand, or delete it."

/-- `leftBehind(event)`.  The message of the error it quotes may have no text. -/
def leftBehind (event : LeftBehindEvent) : Except Thrown Thrown :=
  match event.error.messageValue.toText with
  | some text => .ok (plainError ("jubs: the outbox row \"" ++ event.rowId ++
      "\" was left behind, and the relay went on with the rows around it — " ++
        advice event.reason ++
      " The failure it was left behind on: " ++ text) (some event.error))
  | none => .error typeError

/-- What is noticed of a cycle: a row is attempted, a row that was left behind is written to the
console and told to the hook, and rows are marked. -/
inductive RelayNotice where
  | attempted (row : ClaimedEnvelope)
  | reported (event : LeftBehindEvent) (report : Thrown)
  | told (event : LeftBehindEvent)
  | marked (ids : List String)

/-- The `onLeftBehind` of a relay, when it is configured. -/
abbrev LeftBehindHook : Type := Option (LeftBehindEvent → Answer Thrown Unit)

/-- `reportLeftBehind(config, event)`.  What the hook throws is dropped. -/
def reportLeftBehind (onLeftBehind : LeftBehindHook) (event : LeftBehindEvent) :
    Effect RelayNotice Thrown Unit := do
  let report ← Effect.ofExcept (leftBehind event)
  Effect.emit (.reported event report)
  match onLeftBehind with
  | none => pure ()
  | some hook => do
      Effect.emit (.told event)
      (Effect.await (hook event)).onError fun _ => pure ()

/-! ### The cycle -/

section

variable {δ : Type} (enqueue : δ → EnqueueRequest → Except Thrown String × δ) (config : RelayConfig)
variable (onLeftBehind : LeftBehindHook)

/-- The loop of `runRelayCycle`: the ids of the rows it delivered, and the driver behind them. -/
def relayRows : List ClaimedEnvelope → δ → List String →
    Effect RelayNotice Thrown (List String × δ)
  | [], d, delivered => pure (delivered, d)
  | row :: rows, d, delivered => do
      Effect.emit (.attempted row)
      let (answer, d') ← Effect.await ((deliver enqueue config row d).map .ok)
      match ← Effect.ofExcept answer with
      | none => relayRows rows d' (delivered ++ [row.id])
      | some event => do
          reportLeftBehind onLeftBehind event
          relayRows rows d' delivered

/-- `runRelayCycle(config)` over a batch that was claimed.  The call of `markDelivered` settles with
what `mark` answers, after which nothing follows. -/
def runRelayCycle (mark : List String → Except Thrown Unit)
    (claimed : List ClaimedEnvelope) (d : δ) : Effect RelayNotice Thrown Unit := do
  let (delivered, _) ← relayRows enqueue config onLeftBehind claimed d []
  if delivered.length = 0 then pure ()
  else do
    Effect.emit (.marked delivered)
    Effect.ofExcept (mark delivered)

end

/-! ### What becomes of each row -/

/-- What becomes of a row: its own `enqueue` resolved, its request could not be prepared, the driver
refused the request, or the migration of its payload never ends. -/
inductive RowOutcome where
  | delivered
  | unprepared (failure : Thrown)
  | refused (failure : Thrown)
  | endless

/-- Why a row is left behind, and on what. -/
def RowOutcome.left : RowOutcome → Option (LeftBehindReason × Thrown)
  | .delivered | .endless => none
  | .unprepared failure => some (leftBehindReason failure, failure)
  | .refused failure => some (.driverFailed, failure)

/-- Why a row is left behind. -/
def RowOutcome.reason (outcome : RowOutcome) : Option LeftBehindReason := outcome.left.map Prod.fst

/-- The failure a row is told to be left behind on: an error as it was thrown, and the text of
anything else. -/
def toldFailure : Thrown → Thrown
  | .inl error => .inl error
  | .inr value => plainError (value.toText.getD "") none

/-- The event of a row that was left behind. -/
def eventFor (row : ClaimedEnvelope) (left : LeftBehindReason × Thrown) : LeftBehindEvent :=
  ⟨row.id, row.envelope.name, left.1, toldFailure left.2⟩

section

variable {δ : Type} (enqueue : δ → EnqueueRequest → Except Thrown String × δ) (config : RelayConfig)

/-- What becomes of one row. -/
def rowOutcome (d : δ) (row : ClaimedEnvelope) : RowOutcome × δ :=
  match prepare config row with
  | none => (.endless, d)
  | some (.error failure) => (.unprepared failure, d)
  | some (.ok request) =>
      match enqueue d request with
      | (.ok _, d') => (.delivered, d')
      | (.error failure, d') => (.refused failure, d')

/-- What becomes of the rows of a batch, one after the other. -/
def attempts : List ClaimedEnvelope → δ → List (ClaimedEnvelope × RowOutcome)
  | [], _ => []
  | row :: rows, d =>
      (row, (rowOutcome enqueue config d row).1) :: attempts rows
      (rowOutcome enqueue config d row).2

end

/-- The events of the rows that were left behind, in order. -/
def leftBehindEvents (rows : List (ClaimedEnvelope × RowOutcome)) : List LeftBehindEvent :=
  rows.filterMap fun p => p.2.left.map (eventFor p.1)

/-! ### What is noticed -/

/-- The rows a cycle attempted. -/
def attemptedIn (l : List RelayNotice) : List ClaimedEnvelope :=
  l.filterMap fun | .attempted row => some row | _ => none

/-- The events a cycle reported. -/
def reportedIn (l : List RelayNotice) : List LeftBehindEvent :=
  l.filterMap fun | .reported event _ => some event | _ => none

/-- The events a cycle told its hook. -/
def toldIn (l : List RelayNotice) : List LeftBehindEvent :=
  l.filterMap fun | .told event => some event | _ => none

/-- The calls of `markDelivered` a cycle made. -/
def markedIn (l : List RelayNotice) : List (List String) :=
  l.filterMap fun | .marked ids => some ids | _ => none

/-! ### What a cycle owes -/

section

variable {δ : Type} (enqueue : δ → EnqueueRequest → Except Thrown String × δ) (config : RelayConfig)

end

@[simp] theorem cls_plainError (message : String) (cause : Option Thrown) :
    (plainError message cause).cls = some .plain := rfl

section

variable {config : RelayConfig} {row : ClaimedEnvelope}

variable {δ : Type} {enqueue : δ → EnqueueRequest → Except Thrown String × δ}

/-- What is noticed of rows that were all gone through. -/
structure Relayed (onLeftBehind : LeftBehindHook) (rows : List (ClaimedEnvelope × RowOutcome))
    (l : List RelayNotice) : Prop where
  attempted : attemptedIn l = rows.map Prod.fst
  reported : reportedIn l = leftBehindEvents rows
  told : toldIn l = if onLeftBehind.isSome then leftBehindEvents rows else []
  unmarked : markedIn l = []

variable {onLeftBehind : LeftBehindHook}

theorem Relayed.nil : Relayed onLeftBehind [] [] := ⟨rfl, rfl, by split <;> rfl, rfl⟩

theorem Relayed.append {rows₁ rows₂ : List (ClaimedEnvelope × RowOutcome)}
    {l₁ l₂ : List RelayNotice} (h₁ : Relayed onLeftBehind rows₁ l₁)
    (h₂ : Relayed onLeftBehind rows₂ l₂) : Relayed onLeftBehind (rows₁ ++ rows₂) (l₁ ++ l₂) := by
  refine ⟨?_, ?_, ?_, ?_⟩
  · rw [attemptedIn, List.filterMap_append, List.map_append, ← h₁.attempted, ← h₂.attempted]
    rfl
  · rw [reportedIn, List.filterMap_append, leftBehindEvents, List.filterMap_append]
    exact congrArg₂ _ h₁.reported h₂.reported
  · rw [toldIn, List.filterMap_append, leftBehindEvents, List.filterMap_append]
    refine (congrArg₂ _ h₁.told h₂.told).trans ?_
    split
    · rfl
    · rfl
  · rw [markedIn, List.filterMap_append]
    exact congrArg₂ _ h₁.unmarked h₂.unmarked

/-- What `deliver` answers for a row with a given outcome. -/
def RowOutcome.answer (row : ClaimedEnvelope) : RowOutcome →
    Answer Thrown (Option LeftBehindEvent)
  | .delivered => some (.ok none)
  | .unprepared failure =>
      some ((leftBehindEvent row (leftBehindReason failure) failure).map some)
  | .refused failure => some ((leftBehindEvent row .driverFailed failure).map some)
  | .endless => none

/-- What a report notices. -/
theorem reportLeftBehind_of_settles {event : LeftBehindEvent} {report : Thrown}
    (hreport : leftBehind event = .ok report) (hhook : HookSettles onLeftBehind event) :
    reportLeftBehind onLeftBehind event =
      some (.reported event report :: if onLeftBehind.isSome then [.told event] else [],
        .ok ()) := by
  unfold reportLeftBehind
  rw [hreport, Effect.ofExcept_ok_bind]
  cases onLeftBehind with
  | none => rfl
  | some hook =>
      obtain ⟨answer, hanswer⟩ := Option.ne_none_iff_exists'.1 (hhook hook rfl)
      cases answer with
      | ok value =>
          simp only [hanswer]
          rfl
      | error e =>
          simp only [hanswer]
          rfl

/-- The rest of the loop behind one row. -/
def relayRest (enqueue : δ → EnqueueRequest → Except Thrown String × δ) (config : RelayConfig)
    (onLeftBehind : LeftBehindHook) (rows : List ClaimedEnvelope) (ids : List String) (id : String)
    (d : δ) : Option LeftBehindEvent → Effect RelayNotice Thrown (List String × δ)
  | none => relayRows enqueue config onLeftBehind rows d (ids ++ [id])
  | some event => do
      reportLeftBehind onLeftBehind event
      relayRows enqueue config onLeftBehind rows d ids

end

/-- A row of a definition of the first version. -/
def rowOf (definition : JobDefinition) (id : String) : ClaimedEnvelope :=
  ⟨id, writeEnvelope definition .null .direct⟩

end Jubs
