/-
**The request of an enqueue, and the options Redis is given for it.**

`jobs.enqueue` turns a definition and a payload into a request, and the Redis driver turns the
request into the options BullMQ adds the job with.

Main definitions:

* `Jubs.EnqueueRequest`, `Jubs.directRequest` — the request of one enqueue;
* `Jubs.DeduplicationOptions`, `Jubs.JobsOptions` — the options of one job;
* `Jubs.toDeduplication`, `Jubs.toJobsOptions`, `Jubs.toEnqueueOptions` — from the one to the other.

Main results:

* `Jubs.id_toDeduplication` — the deduplication id is the resolved key;
* `Jubs.deduplication_toEnqueueOptions` — a job is deduplicated exactly by its delivery's `unique`.
-/

import Jubs.Delivery
import Jubs.Envelope
import Jubs.NumberOrder
import Mathlib.Data.Rat.Floor

set_option autoImplicit false

namespace Jubs

/-- The request of one enqueue.  `jobId` is the id the caller derived, when it derived one. -/
structure EnqueueRequest where
  queue : String
  envelope : Envelope
  delivery : Delivery
  jobId : Option String

/-- The request `jobs.enqueue` makes for a definition that waits on nothing. -/
def directRequest (definition : JobDefinition) (data : Value) : Except Thrown EnqueueRequest := do
  let validated ← validatePayload definition data
  let delivery ← resolveDelivery definition validated
  return ⟨definition.queue, writeEnvelope definition data .direct, delivery, none⟩

/-- BullMQ's deduplication of one job. -/
structure DeduplicationOptions where
  id : String
  ttl : Option Number
  extend : Bool
  replace : Bool
  keepLastIfActive : Bool

/-- The options one job is added with. -/
structure JobsOptions where
  attempts : Number
  backoffDelay : Number
  priority : Number
  removeOnCompleteAge : Number
  removeOnFailCount : Number
  deduplication : Option DeduplicationOptions
  delay : Option Number
  jobId : Option String
  ignoreDependencyOnFailure : Bool

/-- `Math.round(ms / 1_000)`. -/
def roundedSeconds : Number → Number
  | .finite ms => .finite (.ofInt ⌊ms.toRat / 1000 + 1 / 2⌋)
  | n => n

/-- `toDeduplication(unique)`. -/
def toDeduplication : ResolvedUnique → DeduplicationOptions
  | .noOverlap key => ⟨key, none, false, false, true⟩
  | .keepLast key ttlMs => ⟨key, some ttlMs, true, true, false⟩
  | .keepFirst key ttlMs => ⟨key, ttlMs, false, false, false⟩

/-- `toTemplateOptions(delivery)`. -/
def toTemplateOptions (delivery : Delivery) : JobsOptions where
  attempts := delivery.attempts
  backoffDelay := delivery.backoff.delayMs
  priority := delivery.priority
  removeOnCompleteAge := roundedSeconds delivery.keepCompletedForMs
  removeOnFailCount := delivery.keepFailedCount
  deduplication := none
  delay := none
  jobId := none
  ignoreDependencyOnFailure := false

/-- `toJobsOptions(delivery)`. -/
def toJobsOptions (delivery : Delivery) : JobsOptions :=
  { toTemplateOptions delivery with
    deduplication := delivery.unique.map toDeduplication
    delay := delivery.delayMs }

/-- `toEnqueueOptions(request)`. -/
def toEnqueueOptions (request : EnqueueRequest) : JobsOptions :=
  { toJobsOptions request.delivery with jobId := request.jobId }

/-- The deduplication id is the resolved key. -/
@[simp] theorem id_toDeduplication (unique : ResolvedUnique) :
    (toDeduplication unique).id = unique.key := by
  cases unique <;> rfl

/-- A job is deduplicated exactly by its delivery's `unique`. -/
theorem deduplication_toEnqueueOptions (request : EnqueueRequest) :
    (toEnqueueOptions request).deduplication = request.delivery.unique.map toDeduplication := rfl

end Jubs
