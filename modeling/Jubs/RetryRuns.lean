/-
**What a Redis retry did, and what a Redis get has seen.**

`get` reads the hash of a job in one round trip and its state in a second; `retry` does the same and
asks BullMQ for the move in a third, which BullMQ makes in one script and refuses for a job that is
not failed.  Workers, other clients and other calls act between any two of them.

Main definitions:

* `Jubs.StoredJob`, `Jubs.JobTable` — a job as Redis keeps it, and the jobs at one instant;
* `Jubs.Ask`, `Jubs.asksRun` — calls of `get` and `retry` in flight, among everybody else;
* `Jubs.AskTrue` — what an answer says of the instants of its call;
* `Jubs.AsksContract` — what holds of all the calls.

Main results:

* `Jubs.asks_contract` — **an answer was true while its call ran, and no failure is retried twice**.
-/

import Jubs.CancelRuns
import Jubs.Dispatch

set_option autoImplicit false

namespace Jubs

/-! ### The jobs -/

/-- A job as Redis keeps it: the properties of its hash, and the state it stands in.  A number of
attempts or a reason of a failure that was never stored is `none`. -/
structure StoredJob where
  name : String
  data : Value
  attemptsMade : ℕ
  attempts : Option Number
  failedReason : Option String
  state : JobState

/-- The jobs Redis keeps at one instant. -/
abbrev JobTable : Type := JobRef → Option StoredJob

/-- `job.getState()`: a job that is gone is `unknown`. -/
def JobTable.state (table : JobTable) (job : JobRef) : JobState :=
  ((table job).map StoredJob.state).getD .unknown

/-- Whether a job stands among the failed ones. -/
def JobTable.failed (table : JobTable) (job : JobRef) : Bool := table.state job = .failed

/-- `job.retry("failed", { resetAttemptsMade: true })` of a failed job: it waits again, as if it had
never been attempted. -/
def JobTable.retry (table : JobTable) (job : JobRef) : JobTable :=
  Function.update table job ((table job).map fun kept =>
    { kept with state := .waiting, attemptsMade := 0, failedReason := none })

/-! ### The calls -/

/-- `storedEnvelope(stored)`. -/
def storedEnvelope (stored : Value) : Option Envelope :=
  match readEnvelope stored with
  | .ok envelope => some envelope
  | .error _ => none

/-- What `get` tells of a job, out of the hash it read and the state it read after it. -/
def snapshotFor (job : JobRef) (read : StoredJob) (state : JobState) : JobSnapshot where
  id := job.2
  queue := job.1.name
  name := read.name
  state := state
  envelope := storedEnvelope read.data
  attempts := read.attemptsMade
  maxAttempts := read.attempts.getD 1
  failure := read.failedReason.filter (· ≠ "")

/-- What a call of `get` or of `retry` is answered with. -/
inductive AskAnswer where
  | snapshot (told : Option JobSnapshot)
  | retry (reached : RetryResult)

/-- Where a call stands: before its `getJob`, before its `getState`, before its `job.retry`, or
settled. -/
inductive AskStage where
  | reading
  | stating (read : StoredJob)
  | retrying
  | answered (answer : AskAnswer)
  | rejected

/-- A call of `get`, or of `retry`, for one job. -/
structure Ask where
  retries : Bool
  job : JobRef
  stage : AskStage

/-- A call after its `getJob`. -/
def Ask.readJob (ask : Ask) (table : JobTable) : Ask :=
  { ask with stage :=
      match table ask.job with
      | none => .answered (if ask.retries then .retry .unknownJob else .snapshot none)
      | some read => .stating read }

/-- A call after its `getState`. -/
def Ask.readState (ask : Ask) (read : StoredJob) (table : JobTable) : Ask :=
  { ask with stage :=
      if !ask.retries then
        .answered (.snapshot (some (snapshotFor ask.job read (table.state ask.job))))
      else if table.state ask.job ≠ .failed then
        .answered (.retry (.notFailed (table.state ask.job)))
      else .retrying }

variable {ι : Type}

/-- The jobs, the calls in flight with every instant of each, the last one first, and how often each
job came to be failed and was retried by one of the calls. -/
structure Asks (ι : Type) where
  now : JobTable
  asks : ι → Option Ask
  seen : ι → List JobTable
  falls : JobRef → ℕ
  retried : JobRef → ℕ

/-- The jobs before anybody asks. -/
def Asks.start (now : JobTable) : Asks ι :=
  ⟨now, fun _ => none, fun _ => [], fun _ => 0, fun _ => 0⟩

/-- What the jobs become, and who sees it. -/
def Asks.become (s : Asks ι) (next : JobTable) : Asks ι :=
  { s with
    now := next
    seen := fun i => next :: s.seen i
    falls := fun job => if !s.now.failed job && next.failed job then s.falls job +
      1 else s.falls job }

/-- What happens next. -/
inductive AskAct (ι : Type) where
  /-- Workers and other clients do to the jobs whatever they do. -/
  | others (next : JobTable)
  | calls (i : ι) (retries : Bool) (job : JobRef)
  | readsJob (i : ι)
  | readsState (i : ι)
  | retries (i : ι)
  /-- A round trip rejects. -/
  | rejects (i : ι)

section

variable [DecidableEq ι]

/-- A call has gone on. -/
def Asks.set (s : Asks ι) (i : ι) (ask : Ask) : Asks ι :=
  { s with asks := Function.update s.asks i (some ask) }

/-- The move of a failed job to those that wait is made, and refused for any other. -/
def Asks.retry (s : Asks ι) (i : ι) (ask : Ask) : Asks ι :=
  if s.now.failed ask.job then
    { (s.become (s.now.retry ask.job)).set i { ask with stage := .answered (.retry .retried) } with
      retried := Function.update s.retried ask.job (s.retried ask.job + 1) }
  else s.set i { ask with stage := .rejected }

/-- **Calls of `get` and `retry` of the Redis driver**, among workers and other clients. -/
def asksRun : Machine (Asks ι) (AskAct ι) := fun s act =>
  match act with
  | .others next => some (s.become next)
  | .calls i retries job =>
      if (s.asks i).isNone then
        some { s.set i ⟨retries, job, .reading⟩ with seen := Function.update s.seen i [s.now] }
      else none
  | .readsJob i => (s.asks i).bind fun ask =>
      match ask.stage with
      | .reading => some (s.set i (ask.readJob s.now))
      | _ => none
  | .readsState i => (s.asks i).bind fun ask =>
      match ask.stage with
      | .stating read => some (s.set i (ask.readState read s.now))
      | _ => none
  | .retries i => (s.asks i).bind fun ask =>
      match ask.stage with
      | .retrying => some (s.retry i ask)
      | _ => none
  | .rejects i => (s.asks i).bind fun ask =>
      match ask.stage with
      | .answered _ | .rejected => none
      | _ => some (s.set i { ask with stage := .rejected })

end

/-! ### What an answer says -/

/-- Two instants of a call, the first no later than the second. -/
def Ordered (seen : List JobTable) (earlier later : JobTable) : Prop :=
  ∃ after before, seen = after ++ later :: before ∧ earlier ∈ later :: before

/-- What an answer says of the instants of its call. -/
def AskTrue (job : JobRef) (seen : List JobTable) : AskAnswer → Prop
  /- No job answered to the id. -/
  | .snapshot none | .retry .unknownJob => ∃ table ∈ seen, table job = none
  /- The job was as told, except for the state, in which it stood no earlier. -/
  | .snapshot (some told) => ∃ earlier later read, Ordered seen earlier later ∧
      earlier job = some read ∧ told = snapshotFor job read (later.state job)
  /- The job stood in that state, and was there before. -/
  | .retry (.notFailed state) => state ≠ .failed ∧ ∃ earlier later, Ordered seen earlier later ∧
      earlier job ≠ none ∧ later.state job = state
  /- The job had failed, and the next instant it waited for its first attempt. -/
  | .retry .retried => ∃ after before table, seen = after ++ table.retry job :: table :: before ∧
      table.failed job = true

/-- What holds of the calls. -/
structure AsksContract (start : JobTable) (s : Asks ι) : Prop where
  /-- An answer is of the kind that was asked for, and was true while the call ran. -/
  answers : ∀ i ask, s.asks i = some ask → ∀ answer, ask.stage = .answered answer →
    AskTrue ask.job (s.seen i) answer ∧
      (ask.retries = true ↔ ∃ reached, answer = .retry reached)
  /-- A failure is retried once at most. -/
  once : ∀ job, s.retried job ≤ s.falls job + (start.failed job).toNat

/-! ### What every step keeps -/

/-- What is known of a call. -/
def AskStage.Known (retries : Bool) (job : JobRef) (seen : List JobTable) : AskStage → Prop
  | .stating read => ∃ table ∈ seen, table job = some read
  | .retrying => retries = true
  | .answered answer => AskTrue job seen answer ∧
      (retries = true ↔ ∃ reached, answer = .retry reached)
  | .reading | .rejected => True

/-- What holds of the calls in every state. -/
structure AsksInv (start : JobTable) (s : Asks ι) : Prop where
  now : ∀ i ask, s.asks i = some ask → s.seen i ≠ [] ∧ (s.seen i).head? = some s.now
  known : ∀ i ask, s.asks i = some ask → ask.stage.Known ask.retries ask.job (s.seen i)
  once : ∀ job, s.retried job + (s.now.failed job).toNat ≤ s.falls job + (start.failed job).toNat

variable {job : JobRef} {seen : List JobTable}

theorem Ordered.mono {earlier later : JobTable} (h : Ordered seen earlier later) (next : JobTable) :
    Ordered (next :: seen) earlier later := by
  obtain ⟨after, before, rfl, hearlier⟩ := h
  exact ⟨next :: after, before, rfl, hearlier⟩

/-- What was true of the instants so far is true of one more of them. -/
theorem AskTrue.mono {answer : AskAnswer} (h : AskTrue job seen answer) (next : JobTable) :
    AskTrue job (next :: seen) answer := by
  match answer, h with
  | .snapshot none, ⟨table, htable, hnone⟩ => exact ⟨table, List.mem_cons_of_mem _ htable, hnone⟩
  | .retry .unknownJob, ⟨table, htable, hnone⟩ =>
      exact ⟨table, List.mem_cons_of_mem _ htable, hnone⟩
  | .snapshot (some told), ⟨earlier, later, read, hordered, hread, htold⟩ =>
      exact ⟨earlier, later, read, hordered.mono next, hread, htold⟩
  | .retry (.notFailed state), ⟨hstate, earlier, later, hordered, hthere, hstood⟩ =>
      exact ⟨hstate, earlier, later, hordered.mono next, hthere, hstood⟩
  | .retry .retried, ⟨after, before, table, hseen, hfailed⟩ =>
      exact ⟨next :: after, before, table, by rw [hseen]; rfl, hfailed⟩

theorem AskStage.Known.mono {stage : AskStage} {retries : Bool} (h : stage.Known retries job seen)
    (next : JobTable) : stage.Known retries job (next :: seen) := by
  cases stage with
  | stating read =>
      obtain ⟨table, htable, hread⟩ := h
      exact ⟨table, List.mem_cons_of_mem _ htable, hread⟩
  | retrying => exact h
  | answered answer => exact ⟨h.1.mono next, h.2⟩
  | reading | rejected => trivial

/-- A job that is retried has failed no more. -/
theorem failed_retry (table : JobTable) (job job' : JobRef) :
    (table.retry job).failed job' = if job' = job then false else table.failed job' := by
  by_cases h : job' = job
  · subst h
    cases hkept : table job' <;> simp [JobTable.failed, JobTable.retry, JobTable.state, hkept]
  · have hother : table.retry job job' = table job' := Function.update_of_ne h _ _
    rw [if_neg h]
    unfold JobTable.failed JobTable.state
    rw [hother]

namespace AsksInv

variable {start : JobTable} {s t : Asks ι}

theorem init (start : JobTable) : AsksInv start (Asks.start start : Asks ι) := by
  constructor
  · intro i ask h
    cases h
  · intro i ask h
    cases h
  · intro job
    simp [Asks.start]

/-- The instant a call stands in is one of its own. -/
theorem seen_eq (h : AsksInv start s) {i : ι} {ask : Ask} (hi : s.asks i = some ask) :
    ∃ before, s.seen i = s.now :: before := by
  obtain ⟨hne, hhead⟩ := h.now i ask hi
  cases hseen : s.seen i with
  | nil => exact absurd hseen hne
  | cons table before =>
      rw [hseen] at hhead
      exact ⟨before, by rw [Option.some.inj hhead]⟩

/-- Another instant begins. -/
theorem become (h : AsksInv start s) (next : JobTable) : AsksInv start (s.become next) := by
  constructor
  · intro i ask hi
    exact ⟨List.cons_ne_nil _ _, rfl⟩
  · intro i ask hi
    exact (h.known i ask hi).mono next
  · intro job
    have honce := h.once job
    simp only [Asks.become]
    -- only from not failed to failed is a failure counted, and only that makes room for a retry
    cases hnow : s.now.failed job <;> cases hnext : next.failed job <;>
      simp_all <;> omega

variable [DecidableEq ι]

/-- A call goes on over the same instants. -/
theorem set (h : AsksInv start s) {i : ι} {ask ask' : Ask} (hi : s.asks i = some ask)
    (hknown : ask'.stage.Known ask'.retries ask'.job (s.seen i)) :
    AsksInv start (s.set i ask') := by
  constructor
  · intro j other hj
    by_cases hji : j = i
    · subst hji
      exact h.now j ask hi
    · exact h.now j other (by simpa [Asks.set, hji] using hj)
  · intro j other hj
    by_cases hji : j = i
    · subst hji
      obtain rfl : ask' = other := by simpa [Asks.set] using hj
      exact hknown
    · exact h.known j other (by simpa [Asks.set, hji] using hj)
  · exact h.once

/-- `getJob` finds no job, or the hash of one. -/
theorem readsJob (h : AsksInv start s) {i : ι} {ask : Ask} (hi : s.asks i = some ask) :
    AsksInv start (s.set i (ask.readJob s.now)) := by
  obtain ⟨before, hseen⟩ := h.seen_eq hi
  refine h.set hi ?_
  rw [hseen]
  unfold Ask.readJob
  cases hjob : s.now ask.job with
  | none =>
      cases hretries : ask.retries with
      | true => exact ⟨⟨s.now, List.mem_cons_self, hjob⟩, by simp⟩
      | false => exact ⟨⟨s.now, List.mem_cons_self, hjob⟩, by simp⟩
  | some read => exact ⟨s.now, List.mem_cons_self, hjob⟩

/-- `getState` finds the state of a job that was there before. -/
theorem readsState (h : AsksInv start s) {i : ι} {ask : Ask} {read : StoredJob}
    (hi : s.asks i = some ask) (hstage : ask.stage = .stating read) :
    AsksInv start (s.set i (ask.readState read s.now)) := by
  obtain ⟨before, hseen⟩ := h.seen_eq hi
  have hknown := h.known i ask hi
  rw [hstage] at hknown
  obtain ⟨earlier, hearlier, hread⟩ := hknown
  have hordered : Ordered (s.seen i) earlier s.now := ⟨[], before, hseen, hseen ▸ hearlier⟩
  refine h.set hi ?_
  unfold Ask.readState
  dsimp only
  split_ifs with hget hstate
  · have hretries : ask.retries = false := by simpa using hget
    exact ⟨⟨earlier, s.now, read, hordered, hread, rfl⟩, by simp [hretries]⟩
  · have hretries : ask.retries = true := by simpa using hget
    refine ⟨⟨hstate, earlier, s.now, hordered, ?_, rfl⟩, by simp [hretries]⟩
    rw [hread]
    exact Option.some_ne_none read
  · exact (show ask.retries = true by simpa using hget)

/-- A retry is made of a job that failed, or refused. -/
theorem retries (h : AsksInv start s) {i : ι} {ask : Ask} (hi : s.asks i = some ask)
    (hstage : ask.stage = .retrying) : AsksInv start (s.retry i ask) := by
  have hretries : ask.retries = true := by
    have hknown := h.known i ask hi
    rw [hstage] at hknown
    exact hknown
  obtain ⟨before, hseen⟩ := h.seen_eq hi
  unfold Asks.retry
  split_ifs with hfailed
  -- the move takes the job out of the failed ones, which pays for the retry that is counted
  · have hmoved : AsksInv start ((s.become (s.now.retry ask.job)).set i
        { ask with stage := .answered (.retry .retried) }) :=
      (h.become (s.now.retry ask.job)).set hi
        ⟨⟨[], before, s.now, by simp [Asks.become, hseen], hfailed⟩, by simp [hretries]⟩
    refine ⟨hmoved.now, hmoved.known, ?_⟩
    intro job
    have honce := h.once job
    have hafter := failed_retry s.now ask.job job
    simp only [Asks.set, Asks.become]
    by_cases hjob : job = ask.job
    · subst hjob
      rw [if_pos rfl] at hafter
      simp only [hfailed, hafter, Function.update_self, Bool.toNat_true,
        Bool.toNat_false] at honce ⊢
      simpa using honce
    · rw [if_neg hjob] at hafter
      simp only [hafter, Function.update_of_ne hjob]
      simpa using honce
  · exact h.set hi trivial

/-- **A step keeps what holds of the calls.** -/
theorem step (h : AsksInv start s) {act : AskAct ι} (hstep : asksRun s act = some t) :
    AsksInv start t := by
  cases act with
  | others next =>
      obtain rfl := Option.some.inj hstep
      exact h.become next
  | calls i retries job =>
      simp only [asksRun] at hstep
      split_ifs at hstep with hnew
      obtain rfl := Option.some.inj hstep
      constructor
      · intro j other hj
        by_cases hji : j = i
        · simp [hji, Asks.set]
        · simpa [hji, Asks.set] using h.now j other (by simpa [Asks.set, hji] using hj)
      · intro j other hj
        by_cases hji : j = i
        · subst hji
          obtain rfl := Option.some.inj ((Function.update_self j _ s.asks).symm.trans hj)
          trivial
        · simpa [hji, Asks.set] using h.known j other (by simpa [Asks.set, hji] using hj)
      · exact h.once
  | readsJob i =>
      obtain ⟨ask, hi, hstep⟩ := Option.bind_eq_some_iff.1 hstep
      split at hstep
      · obtain rfl := Option.some.inj hstep
        exact h.readsJob hi
      · cases hstep
  | readsState i =>
      obtain ⟨ask, hi, hstep⟩ := Option.bind_eq_some_iff.1 hstep
      split at hstep
      · rename_i read hstage
        obtain rfl := Option.some.inj hstep
        exact h.readsState hi hstage
      · cases hstep
  | retries i =>
      obtain ⟨ask, hi, hstep⟩ := Option.bind_eq_some_iff.1 hstep
      split at hstep
      · rename_i hstage
        obtain rfl := Option.some.inj hstep
        exact h.retries hi hstage
      · cases hstep
  | rejects i =>
      obtain ⟨ask, hi, hstep⟩ := Option.bind_eq_some_iff.1 hstep
      split at hstep
      · cases hstep
      · cases hstep
      · obtain rfl := Option.some.inj hstep
        exact h.set hi trivial

end AsksInv

/-- **An answer was true while its call ran, and no failure is retried twice**: any number of calls
of `get` and `retry`, among workers and other clients that do whatever they do. -/
theorem asks_contract [DecidableEq ι] {start : JobTable} {acts : List (AskAct ι)} {s : Asks ι}
    (h : asksRun.exec (.start start) acts = some s) : AsksContract start s := by
  have hinv : AsksInv start s :=
    Machine.exec_invariant (P := AsksInv start) (fun _ _ _ hs hstep => hs.step hstep) h
      (.init start)
  constructor
  · intro i ask hi answer hanswer
    have hknown := hinv.known i ask hi
    rw [hanswer] at hknown
    exact hknown
  · intro job
    exact Nat.le_trans (Nat.le_add_right _ _) (hinv.once job)

/-- A job that failed its only attempt. -/
def failedRef : JobRef := (⟨"invoices", by decide, by decide⟩, "7")

@[inherit_doc failedRef] def failedTable : JobTable :=
  Function.update (fun _ => none) failedRef
    (some ⟨"invoice.line", .null, 1, some 1, some "declined", .failed⟩)

/-- Two calls of `retry` read the one failure, and a `get` reads the job around the move of the
first. -/
def twoRetries : List (AskAct (Fin 3)) :=
  [.calls 0 true failedRef, .calls 1 true failedRef, .calls 2 false failedRef, .readsJob 0,
    .readsJob 1, .readsJob 2, .readsState 0, .readsState 1, .retries 0, .readsState 2, .retries 1]

/-- The first call retries the failure, and the second is refused. -/
theorem asks_contract_example : ∃ s, asksRun.exec (.start failedTable) twoRetries = some s ∧
    AsksContract failedTable s ∧ s.retried failedRef = 1 ∧ (s.asks 1).map Ask.stage =
      some .rejected :=
  ⟨_, rfl, @asks_contract (Fin 3) _ failedTable twoRetries _ rfl, rfl, rfl⟩

end Jubs
