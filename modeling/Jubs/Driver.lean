/-
**What a driver answers about one job.**

The client speaks of a job through four calls, and both drivers answer them in the same words: a
snapshot, what a retry reached, what a cancellation reached, and which running deliveries were
cancelled.

Main definitions:

* `Jubs.JobState`, `Jubs.JobSnapshot` — where a job stands, and what is told of it;
* `Jubs.RetryResult`, `Jubs.CancelResult` — what the two calls reached;
* `Jubs.RunningDelivery` — one delivery of one job, as a cancellation names it;
* `Jubs.JobCalls` — the calls of a driver that ask for one job.
-/

import Jubs.Envelope

set_option autoImplicit false

namespace Jubs

/-- Where a job stands. -/
inductive JobState where
  | waiting
  | active
  | delayed
  | completed
  | failed
  | waitingChildren
  | unknown
deriving DecidableEq

/-- Whether a job has settled for good. -/
def JobState.isFinished : JobState → Bool
  | .completed | .failed => true
  | _ => false

/-- What is told of a job.  `envelope` is `none` when what is stored is no envelope. -/
structure JobSnapshot where
  id : String
  queue : String
  name : String
  state : JobState
  envelope : Option Envelope
  attempts : ℕ
  maxAttempts : Number
  failure : Option String

/-- What a retry reached. -/
inductive RetryResult where
  | retried
  | unknownJob
  | notFailed (state : JobState)
deriving DecidableEq

/-- What a cancellation reached. -/
inductive CancelResult where
  | removed
  | aborting
  | childrenRunning
  | unknownJob
  | finished (state : JobState)
deriving DecidableEq

/-- One delivery of one job, as the cancellation channel names it. -/
structure RunningDelivery where
  id : String
  attemptsStarted : ℕ
deriving DecidableEq

/-- The calls of a driver that ask for one job, by its queue and its stored id: three about live
jobs, and two about the dead records of a queue. -/
structure JobCalls (Record : Type) where
  get : String → String → Option JobSnapshot
  retry : String → String → RetryResult
  cancel : String → String → CancelResult
  readDead : String → String → Option Record
  removeDead : String → String → Bool

end Jubs
