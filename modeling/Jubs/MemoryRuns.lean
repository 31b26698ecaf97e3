/-
**The line of the memory driver over whole runs.**

Whatever calls are made on a driver, in whatever order and from inside which handlers, its line
holds the recorded jobs that wait, and what a job counts of its runs is what happened to it.

Main definitions:

* `Jubs.LineInv` — what the two arrays and the awaited runs have to do with each other;
* `Jubs.endedSince`, `Jubs.deliveriesOf` — what a log says of the runs of one job;
* `Jubs.LogInv` — what the counts of a job have to do with the log;
* `Jubs.MemoryContract` — what holds of a driver in every state.

Main results:

* `Jubs.LineInv.step`, `Jubs.LogInv.step` — a call keeps both;
* `Jubs.memory_contract` — **the line and the counts are right in every run**.
-/

import Jubs.MemoryDriver
import Mathlib.Data.List.Nodup

set_option autoImplicit false

namespace Jubs

/-! ### The arrays -/

/-- What the two arrays and the awaited runs of a driver have to do with each other. -/
structure LineInv (m : MemoryDriver) : Prop where
  made : ∀ ref ∈ m.recorded, ref < m.made
  recorded : m.recorded.Nodup
  pending : m.pending.Nodup
  running : m.running.Nodup
  line : ∀ ref, ref ∈ m.pending ↔ ref ∈ m.recorded ∧ (m.jobs ref).state = .waiting
  flight : ∀ ref, ref ∈ m.running ↔ ref ∈ m.recorded ∧ (m.jobs ref).state = .active
  states : ∀ ref ∈ m.recorded, (m.jobs ref).state = .waiting ∨ (m.jobs ref).state = .active ∨
    (m.jobs ref).state.isFinished = true

theorem spliceOut_of_mem {list : List ℕ} {x : ℕ} (h : x ∈ list) : spliceOut list x = list.erase x :=
  if_pos h

namespace LineInv

variable {m : MemoryDriver}

theorem start : LineInv memoryDriver := by
  constructor <;> simp [memoryDriver]

theorem not_mem_made (h : LineInv m) : m.made ∉ m.recorded :=
  fun hmem => Nat.lt_irrefl _ (h.made _ hmem)

/-- A job in line is recorded. -/
theorem recorded_of_pending (h : LineInv m) {ref : ℕ} (href : ref ∈ m.pending) :
    ref ∈ m.recorded ∧ (m.jobs ref).state = .waiting := (h.line ref).1 href

theorem record (h : LineInv m) {job : MemoryJob} (hjob : job.state = .waiting) :
    LineInv (m.record job) := by
  have hnew := h.not_mem_made
  have hpending : m.made ∉ m.pending := fun hmem => hnew (h.recorded_of_pending hmem).1
  have hrunning : m.made ∉ m.running := fun hmem => hnew ((h.flight _).1 hmem).1
  constructor
  · intro ref href
    rcases List.mem_append.1 href with href | href
    · exact Nat.lt_succ_of_lt (h.made ref href)
    · rw [List.mem_singleton.1 href]
      exact Nat.lt_succ_self _
  · exact List.nodup_append_comm.1 (List.nodup_cons.2 ⟨hnew, h.recorded⟩)
  · exact List.nodup_append_comm.1 (List.nodup_cons.2 ⟨hpending, h.pending⟩)
  · exact h.running
  · intro ref
    by_cases href : ref = m.made
    · simp [MemoryDriver.record, href, hjob]
    · simpa [MemoryDriver.record, href] using h.line ref
  · intro ref
    by_cases href : ref = m.made
    · simp [MemoryDriver.record, href, hjob, hrunning]
    · simpa [MemoryDriver.record, href] using h.flight ref
  · intro ref hmem
    by_cases href : ref = m.made
    · simp [MemoryDriver.record, href, hjob]
    · have hmem : ref ∈ m.recorded := by simpa [MemoryDriver.record, href] using hmem
      simpa [MemoryDriver.record, href] using h.states ref hmem

theorem start_job (h : LineInv m) {ref : ℕ} (href : ref ∈ m.pending) : LineInv (m.start ref) := by
  obtain ⟨hrecorded, hwaiting⟩ := h.recorded_of_pending href
  have hidle : ref ∉ m.running := by
    intro hmem
    have hactive := ((h.flight ref).1 hmem).2
    rw [hwaiting] at hactive
    cases hactive
  constructor
  · exact h.made
  · exact h.recorded
  · rw [MemoryDriver.start, spliceOut_of_mem href]
    exact h.pending.erase ref
  · exact List.nodup_append_comm.1 (List.nodup_cons.2 ⟨hidle, h.running⟩)
  · intro r
    by_cases hr : r = ref
    · simp [MemoryDriver.start, MemoryDriver.modify, spliceOut_of_mem href, hr,
        h.pending.mem_erase_iff]
    · simpa [MemoryDriver.start, MemoryDriver.modify, spliceOut_of_mem href, hr,
        h.pending.mem_erase_iff] using h.line r
  · intro r
    by_cases hr : r = ref
    · simp [MemoryDriver.start, MemoryDriver.modify, hr, hrecorded]
    · simpa [MemoryDriver.start, MemoryDriver.modify, hr] using h.flight r
  · intro r hmem
    by_cases hr : r = ref
    · simp [MemoryDriver.start, MemoryDriver.modify, hr]
    · simpa [MemoryDriver.start, MemoryDriver.modify, hr] using h.states r hmem

theorem finish (h : LineInv m) {ref : ℕ} (href : ref ∈ m.running) {state : JobState}
    (hstate : state.isFinished = true) (failure : Value → Value) :
    LineInv (m.finish ref state failure) := by
  obtain ⟨hrecorded, hactive⟩ := (h.flight ref).1 href
  have hout : ref ∉ m.pending := by
    intro hmem
    have hwaiting := ((h.line ref).1 hmem).2
    rw [hactive] at hwaiting
    cases hwaiting
  constructor
  · exact h.made
  · exact h.recorded
  · exact h.pending
  · exact h.running.erase ref
  · intro r
    by_cases hr : r = ref
    · have hwait : state ≠ .waiting := by
        rintro rfl
        cases hstate
      simp [MemoryDriver.finish, MemoryDriver.modify, hr, hout, hwait]
    · simpa [MemoryDriver.finish, MemoryDriver.modify, hr] using h.line r
  · intro r
    by_cases hr : r = ref
    · have hact : state ≠ .active := by
        rintro rfl
        cases hstate
      simp [MemoryDriver.finish, MemoryDriver.modify, hr, h.running.mem_erase_iff, hact]
    · simpa [MemoryDriver.finish, MemoryDriver.modify, hr, h.running.mem_erase_iff] using h.flight r
  · intro r hmem
    by_cases hr : r = ref
    · simp [MemoryDriver.finish, MemoryDriver.modify, hr, hstate]
    · simpa [MemoryDriver.finish, MemoryDriver.modify, hr] using h.states r hmem

theorem putBack (h : LineInv m) {ref : ℕ} (href : ref ∈ m.running) : LineInv (m.putBack ref) := by
  obtain ⟨hrecorded, hactive⟩ := (h.flight ref).1 href
  have hout : ref ∉ m.pending := by
    intro hmem
    have hwaiting := ((h.line ref).1 hmem).2
    rw [hactive] at hwaiting
    cases hwaiting
  constructor
  · exact h.made
  · exact h.recorded
  · exact List.nodup_cons.2 ⟨hout, h.pending⟩
  · exact h.running.erase ref
  · intro r
    by_cases hr : r = ref
    · simp [MemoryDriver.putBack, MemoryDriver.modify, hr, hrecorded]
    · simpa [MemoryDriver.putBack, MemoryDriver.modify, hr] using h.line r
  · intro r
    by_cases hr : r = ref
    · simp [MemoryDriver.putBack, MemoryDriver.modify, hr, h.running.mem_erase_iff]
    · simpa [MemoryDriver.putBack, MemoryDriver.modify, hr, h.running.mem_erase_iff] using h.flight
        r
  · intro r hmem
    by_cases hr : r = ref
    · simp [MemoryDriver.putBack, MemoryDriver.modify, hr]
    · simpa [MemoryDriver.putBack, MemoryDriver.modify, hr] using h.states r hmem

theorem requeue (h : LineInv m) {ref : ℕ} (href : ref ∈ m.recorded)
    (hfailed : (m.jobs ref).state = .failed) : LineInv (m.requeue ref) := by
  have hout : ref ∉ m.pending := by
    intro hmem
    have hwaiting := ((h.line ref).1 hmem).2
    rw [hfailed] at hwaiting
    cases hwaiting
  have hidle : ref ∉ m.running := by
    intro hmem
    have hactive := ((h.flight ref).1 hmem).2
    rw [hfailed] at hactive
    cases hactive
  constructor
  · exact h.made
  · exact h.recorded
  · exact List.nodup_append_comm.1 (List.nodup_cons.2 ⟨hout, h.pending⟩)
  · exact h.running
  · intro r
    by_cases hr : r = ref
    · simp [MemoryDriver.requeue, MemoryDriver.modify, hr, href]
    · simpa [MemoryDriver.requeue, MemoryDriver.modify, hr] using h.line r
  · intro r
    by_cases hr : r = ref
    · simp [MemoryDriver.requeue, MemoryDriver.modify, hr, hidle]
    · simpa [MemoryDriver.requeue, MemoryDriver.modify, hr] using h.flight r
  · intro r hmem
    by_cases hr : r = ref
    · simp [MemoryDriver.requeue, MemoryDriver.modify, hr]
    · simpa [MemoryDriver.requeue, MemoryDriver.modify, hr] using h.states r hmem

theorem remove (h : LineInv m) {ref : ℕ} (href : ref ∈ m.recorded)
    (hunfinished : (m.jobs ref).state.isFinished = false)
    (hinactive : (m.jobs ref).state ≠ .active) : LineInv (m.remove ref) := by
  have hwaiting : (m.jobs ref).state = .waiting := by
    rcases h.states ref href with hstate | hstate | hstate
    · exact hstate
    · exact absurd hstate hinactive
    · rw [hunfinished] at hstate
      cases hstate
  have hin : ref ∈ m.pending := (h.line ref).2 ⟨href, hwaiting⟩
  have hrecorded : (m.remove ref).recorded = m.recorded.erase ref := spliceOut_of_mem href
  have hpending : (m.remove ref).pending = m.pending.erase ref := spliceOut_of_mem hin
  constructor
  · intro r hr
    rw [hrecorded] at hr
    exact h.made r (List.mem_of_mem_erase hr)
  · rw [hrecorded]
    exact h.recorded.erase ref
  · rw [hpending]
    exact h.pending.erase ref
  · exact h.running
  · intro r
    rw [hpending, hrecorded, h.pending.mem_erase_iff, h.recorded.mem_erase_iff, and_assoc]
    exact and_congr_right fun _ => h.line r
  · intro r
    rw [hrecorded, h.recorded.mem_erase_iff, and_assoc]
    -- the job that is removed waits, so no run of it is awaited
    constructor
    · intro hr
      refine ⟨?_, (h.flight r).1 hr⟩
      rintro rfl
      exact hinactive ((h.flight r).1 hr).2
    · rintro ⟨-, hr⟩
      exact (h.flight r).2 hr
  · intro r hr
    rw [hrecorded] at hr
    exact h.states r (List.mem_of_mem_erase hr)

/-- **A call keeps the arrays in step.** -/
theorem step {m' : MemoryDriver} {call : MemoryCall} {events : List MemoryEvent} (h : LineInv m)
    (hstep : MemoryStep m call m' events) : LineInv m' := by
  cases hstep with
  | stays consumers paused marked =>
      exact ⟨h.made, h.recorded, h.pending, h.running, h.line, h.flight, h.states⟩
  | answers _ => exact h
  | records _ _ _ _ => exact h.record rfl
  | starts hfirst => exact h.start_job (MemoryDriver.runnable_eq_some hfirst).1
  | finishes hinFlight hfinished => exact h.finish hinFlight hfinished _
  | putsBack hinFlight => exact h.putBack hinFlight
  | requeues hfound hfailed => exact h.requeue (MemoryDriver.jobAt_eq_some hfound).1 hfailed
  | removes hfound hunfinished hinactive =>
      exact h.remove (MemoryDriver.jobAt_eq_some hfound).1 hunfinished hinactive

end LineInv

/-! ### What a log says of one job -/

/-- The job an event is about. -/
def MemoryEvent.ref : MemoryEvent → ℕ
  | .answered _ _ ref | .inLine ref | .delivered ref _ | .ended ref | .putBack ref | .removed ref =>
      ref

/-- One event more in the count of the runs of a job that ended since it was last put in line. -/
def tally (ref ended : ℕ) : MemoryEvent → ℕ
  | .inLine r => if r = ref then 0 else ended
  | .ended r => if r = ref then ended + 1 else ended
  | _ => ended

/-- How many runs of a job ended since an enqueue or a retry last put it in line. -/
def endedSince (ref : ℕ) (log : List MemoryEvent) : ℕ := log.foldl (tally ref) 0

/-- What the runs of a job were handed, in order. -/
def deliveriesOf (ref : ℕ) (log : List MemoryEvent) : List JobDelivery :=
  log.filterMap fun event => match event with
    | .delivered r delivery => if r = ref then some delivery else none
    | _ => none

theorem endedSince_append (ref : ℕ) (l l' : List MemoryEvent) :
    endedSince ref (l ++ l') = l'.foldl (tally ref) (endedSince ref l) := List.foldl_append

theorem endedSince_concat (ref : ℕ) (l : List MemoryEvent) (event : MemoryEvent) :
    endedSince ref (l ++ [event]) = tally ref (endedSince ref l) event :=
      endedSince_append ref l [event]

theorem deliveriesOf_append (ref : ℕ) (l l' : List MemoryEvent) :
    deliveriesOf ref (l ++ l') = deliveriesOf ref l ++ deliveriesOf ref l' := List.filterMap_append

/-- Events of other jobs count nothing. -/
theorem tally_of_ne {ref ended : ℕ} {event : MemoryEvent} (h : event.ref ≠ ref) :
    tally ref ended event = ended := by
  cases event <;> first | rfl | exact if_neg h

/-- A log that is about other jobs holds no delivery of a job. -/
theorem deliveriesOf_eq_nil {ref : ℕ} {log : List MemoryEvent}
    (h : ∀ event ∈ log, event.ref ≠ ref) :
    deliveriesOf ref log = [] := by
  refine List.filterMap_eq_nil_iff.2 ?_
  intro event hevent
  have hne := h event hevent
  cases event <;> first | rfl | exact if_neg hne

/-- What the counts of the jobs of a driver have to do with its log. -/
structure LogInv (m : MemoryDriver) (log : List MemoryEvent) : Prop where
  known : ∀ event ∈ log, event.ref < m.made
  attempts : ∀ ref ∈ m.recorded, (m.jobs ref).attempts = endedSince ref log
  unfinished : ∀ ref ∈ m.recorded, (m.jobs ref).state.isFinished = false → endedSince ref log = 0
  once : ∀ front ref, front <+: log → endedSince ref front ≤ 1
  starts : ∀ ref ∈ m.recorded, (deliveriesOf ref log).map JobDelivery.attemptsStarted =
    List.range' 1 (m.jobs ref).attemptsStarted
  removed : ∀ ref, .removed ref ∈ log → ref ∉ m.recorded
  quiet : ∀ l l' ref delivery, log = l ++ .delivered ref delivery :: l' → .removed ref ∉ l

/-- What a recorded job counts is what the log says of it. -/
structure Tallied (m : MemoryDriver) (log : List MemoryEvent) (ref : ℕ) : Prop where
  attempts : (m.jobs ref).attempts = endedSince ref log
  unfinished : (m.jobs ref).state.isFinished = false → endedSince ref log = 0
  starts : (deliveriesOf ref log).map JobDelivery.attemptsStarted =
    List.range' 1 (m.jobs ref).attemptsStarted

namespace LogInv

variable {m m' : MemoryDriver} {log : List MemoryEvent}

theorem start : LogInv memoryDriver [] := by
  constructor
  · simp
  · simp [memoryDriver]
  · simp [memoryDriver]
  · intro front ref hfront
    rw [List.prefix_nil.1 hfront]
    exact Nat.zero_le 1
  · simp [memoryDriver]
  · simp
  · simp

theorem tallied (h : LogInv m log) {ref : ℕ} (href : ref ∈ m.recorded) : Tallied m log ref :=
  ⟨h.attempts ref href, h.unfinished ref href, h.starts ref href⟩

/-- One event more: the jobs it is not about count as before, so what has to be shown is about the
job it names. -/
theorem event (h : LogInv m log) {e : MemoryEvent} (ref : ℕ) (hevent : e.ref = ref)
    (hmade : m.made ≤ m'.made) (href : ref < m'.made)
    (hothers : ∀ r ∈ m'.recorded, r ≠ ref → r ∈ m.recorded ∧ m'.jobs r = m.jobs r)
    (hone : endedSince ref (log ++ [e]) ≤ 1)
    (hself : ref ∈ m'.recorded → Tallied m' (log ++ [e]) ref)
    (hremoved : .removed ref ∈ log ++ [e] → ref ∉ m'.recorded)
    (hquiet : ∀ delivery, e = .delivered ref delivery → ref ∈ m.recorded) :
    LogInv m' (log ++ [e]) := by
  subst hevent
  have hended : ∀ r, r ≠ e.ref → endedSince r (log ++ [e]) = endedSince r log := by
    intro r hr
    rw [endedSince_append]
    exact tally_of_ne (Ne.symm hr)
  have hdeliveries : ∀ r, r ≠ e.ref → deliveriesOf r (log ++ [e]) = deliveriesOf r log := by
    intro r hr
    rw [deliveriesOf_append, @deliveriesOf_eq_nil r [e], List.append_nil]
    intro e' he'
    rw [List.mem_singleton.1 he']
    exact Ne.symm hr
  have htallied : ∀ r ∈ m'.recorded, Tallied m' (log ++ [e]) r := by
    intro r hr
    by_cases heq : r = e.ref
    · exact heq ▸ hself (heq ▸ hr)
    · obtain ⟨hrecorded, hjob⟩ := hothers r hr heq
      have hr := h.tallied hrecorded
      refine ⟨?_, ?_, ?_⟩
      · rw [hjob, hended r heq, hr.attempts]
      · rw [hjob, hended r heq]
        exact hr.unfinished
      · rw [hjob, hdeliveries r heq, hr.starts]
  constructor
  · intro e' he'
    rcases List.mem_append.1 he' with he' | he'
    · exact Nat.lt_of_lt_of_le (h.known e' he') hmade
    · exact List.mem_singleton.1 he' ▸ href
  · exact fun r hr => (htallied r hr).attempts
  · exact fun r hr => (htallied r hr).unfinished
  · intro front r hfront
    rcases List.prefix_concat_iff.1 hfront with rfl | hfront
    · by_cases heq : r = e.ref
      · exact heq ▸ hone
      · rw [hended r heq]
        exact h.once log r (List.prefix_refl log)
    · exact h.once front r hfront
  · exact fun r hr => (htallied r hr).starts
  · intro r hr hrecorded
    by_cases heq : r = e.ref
    · exact hremoved (heq ▸ hr) (heq ▸ hrecorded)
    · rcases List.mem_append.1 hr with hr | hr
      · exact h.removed r hr (hothers r hrecorded heq).1
      · exact heq (congrArg MemoryEvent.ref (List.mem_singleton.1 hr))
  · intro l l' r delivery hsplit
    -- the delivery is the last event, or it stands in the log
    rcases List.eq_nil_or_concat l' with rfl | ⟨rest, last, rfl⟩
    · obtain ⟨rfl, hlast⟩ := List.append_inj' hsplit rfl
      obtain rfl := List.singleton_inj.1 hlast
      exact fun hr => h.removed r hr (hquiet delivery rfl)
    · rw [List.concat_eq_append, ← List.cons_append, ← List.append_assoc] at hsplit
      exact h.quiet l rest r delivery (List.append_inj' hsplit rfl).1

/-- A job whose counts and deliveries an event leaves alone counts as before. -/
theorem tallied_of_same (h : LogInv m log) {ref : ℕ} (href : ref ∈ m.recorded) {e : MemoryEvent}
    (hended : tally ref (endedSince ref log) e = endedSince ref log)
    (hdelivered : deliveriesOf ref [e] = [])
    (hattempts : (m'.jobs ref).attempts = (m.jobs ref).attempts)
    (hstarts : (m'.jobs ref).attemptsStarted = (m.jobs ref).attemptsStarted)
    (hfinished : (m'.jobs ref).state.isFinished = false → (m.jobs ref).state.isFinished = false) :
    Tallied m' (log ++ [e]) ref := by
  have hold := h.tallied href
  refine ⟨?_, ?_, ?_⟩
  · rw [hattempts, hold.attempts, endedSince_concat, hended]
  · intro hunfinished
    rw [endedSince_concat, hended, hold.unfinished (hfinished hunfinished)]
  · rw [hstarts, deliveriesOf_append, hdelivered, List.append_nil, hold.starts]

/-- Any other event than a removal leaves the removals as they were. -/
theorem removed_of_append {ref : ℕ} {e : MemoryEvent} (h : .removed ref ∈ log ++ [e])
    (he : e ≠ .removed ref) : .removed ref ∈ log :=
  (List.mem_append.1 h).resolve_right fun hlast => he (List.mem_singleton.1 hlast).symm

/-- An enqueue that is answered counts nothing. -/
theorem answered (h : LogInv m log) {queue id : String} {ref : ℕ} (href : ref < m.made) :
    LogInv m (log ++ [.answered queue id ref]) := by
  refine h.event ref rfl (Nat.le_refl _) href ?_ ?_ ?_ ?_ ?_
  · exact fun r hr _ => ⟨hr, rfl⟩
  · rw [endedSince_concat]
    exact h.once log ref (List.prefix_refl log)
  · intro hr
    exact h.tallied_of_same hr rfl rfl rfl rfl fun hunfinished => hunfinished
  · exact fun hremoved => h.removed ref (removed_of_append hremoved (by simp))
  · intro delivery hdelivery
    cases hdelivery

theorem record (h : LogInv m log) {job : MemoryJob} (hattempts : job.attempts = 0)
    (hstarts : job.attemptsStarted = 0) : LogInv (m.record job) (log ++ [.inLine m.made]) := by
  have hnew : ∀ event ∈ log, event.ref ≠ m.made := fun event hevent =>
    Nat.ne_of_lt (h.known event hevent)
  have hzero : endedSince m.made (log ++ [.inLine m.made]) = 0 := by
    rw [endedSince_concat]
    exact if_pos rfl
  have hjob : (m.record job).jobs m.made = job := Function.update_self _ _ _
  refine h.event m.made rfl (Nat.le_succ _) (Nat.lt_succ_self _) ?_ ?_ ?_ ?_ ?_
  · intro r hr hne
    exact ⟨by simpa [MemoryDriver.record, hne] using hr, Function.update_of_ne hne _ _⟩
  · exact hzero ▸ Nat.zero_le 1
  · intro _
    refine ⟨?_, fun _ => hzero, ?_⟩
    · rw [hjob, hattempts, hzero]
    · rw [hjob, hstarts, deliveriesOf_append, deliveriesOf_eq_nil hnew]
      rfl
  · exact fun hremoved => absurd rfl (hnew _ (removed_of_append hremoved (by simp)))
  · intro delivery hdelivery
    cases hdelivery

section

variable (hline : LineInv m)

include hline

theorem start_job (h : LogInv m log) {ref : ℕ} (href : ref ∈ m.pending) :
    LogInv (m.start ref)
      (log ++ [.delivered ref (MemoryDriver.delivery ((m.start ref).jobs ref))]) := by
  obtain ⟨hrecorded, hwaiting⟩ := hline.recorded_of_pending href
  have hjob : (m.start ref).jobs ref = { m.jobs ref with
      state := .active, attemptsStarted := (m.jobs ref).attemptsStarted + 1 } :=
    Function.update_self _ _ _
  have hold := h.tallied hrecorded
  refine h.event ref rfl (Nat.le_refl _) (hline.made ref hrecorded) ?_ ?_ ?_ ?_ ?_
  · exact fun r hr hne => ⟨hr, Function.update_of_ne hne _ _⟩
  · rw [endedSince_concat]
    exact h.once log ref (List.prefix_refl log)
  · intro _
    refine ⟨?_, ?_, ?_⟩
    · rw [hjob, endedSince_concat]
      exact hold.attempts
    · intro _
      rw [endedSince_concat]
      exact hold.unfinished (by rw [hwaiting]; rfl)
    · -- the run is handed the next number
      rw [deliveriesOf_append, List.map_append, hold.starts, hjob, List.range'_concat]
      simp [deliveriesOf, MemoryDriver.delivery, Nat.add_comm]
  · exact fun hremoved => h.removed ref (removed_of_append hremoved (by simp))
  · exact fun _ _ => hrecorded

theorem finish (h : LogInv m log) {ref : ℕ} (href : ref ∈ m.running) {state : JobState}
    (hstate : state.isFinished = true) (failure : Value → Value) :
    LogInv (m.finish ref state failure) (log ++ [.ended ref]) := by
  obtain ⟨hrecorded, hactive⟩ := (hline.flight ref).1 href
  have hold := h.tallied hrecorded
  have hjob : (m.finish ref state failure).jobs ref = { m.jobs ref with
      state := state
      attempts := (m.jobs ref).attempts + 1
      failure := failure (m.jobs ref).failure } := Function.update_self _ _ _
  have hended : endedSince ref (log ++ [.ended ref]) = endedSince ref log + 1 := by
    rw [endedSince_concat]
    exact if_pos rfl
  -- the run that ends is the first to end since its job was put in line
  have hzero : endedSince ref log = 0 := hold.unfinished (by rw [hactive]; rfl)
  refine h.event ref rfl (Nat.le_refl _) (hline.made ref hrecorded) ?_ ?_ ?_ ?_ ?_
  · exact fun r hr hne => ⟨hr, Function.update_of_ne hne _ _⟩
  · rw [hended, hzero]
  · intro _
    refine ⟨?_, ?_, ?_⟩
    · rw [hjob, hended, hold.attempts]
    · intro hunfinished
      rw [hjob, hstate] at hunfinished
      cases hunfinished
    · rw [hjob, deliveriesOf_append]
      simpa [deliveriesOf] using hold.starts
  · exact fun hremoved => h.removed ref (removed_of_append hremoved (by simp))
  · intro delivery hdelivery
    cases hdelivery

theorem putBack (h : LogInv m log) {ref : ℕ} (href : ref ∈ m.running) :
    LogInv (m.putBack ref) (log ++ [.putBack ref]) := by
  obtain ⟨hrecorded, hactive⟩ := (hline.flight ref).1 href
  have hjob : (m.putBack ref).jobs ref = { m.jobs ref with state := .waiting } :=
    Function.update_self _ _ _
  refine h.event ref rfl (Nat.le_refl _) (hline.made ref hrecorded) ?_ ?_ ?_ ?_ ?_
  · exact fun r hr hne => ⟨hr, Function.update_of_ne hne _ _⟩
  · rw [endedSince_concat]
    exact h.once log ref (List.prefix_refl log)
  · intro _
    refine h.tallied_of_same hrecorded rfl rfl (by rw [hjob]) (by rw [hjob]) ?_
    intro _
    rw [hactive]
    rfl
  · exact fun hremoved => h.removed ref (removed_of_append hremoved (by simp))
  · intro delivery hdelivery
    cases hdelivery

theorem requeue (h : LogInv m log) {ref : ℕ} (href : ref ∈ m.recorded) :
    LogInv (m.requeue ref) (log ++ [.inLine ref]) := by
  have hold := h.tallied href
  have hjob : (m.requeue ref).jobs ref = { m.jobs ref with
      state := .waiting, attempts := 0, failure := .undefined } := Function.update_self _ _ _
  have hzero : endedSince ref (log ++ [.inLine ref]) = 0 := by
    rw [endedSince_concat]
    exact if_pos rfl
  refine h.event ref rfl (Nat.le_refl _) (hline.made ref href) ?_ ?_ ?_ ?_ ?_
  · exact fun r hr hne => ⟨hr, Function.update_of_ne hne _ _⟩
  · exact hzero ▸ Nat.zero_le 1
  · intro _
    refine ⟨?_, fun _ => hzero, ?_⟩
    · rw [hjob, hzero]
    · rw [hjob, deliveriesOf_append]
      simpa [deliveriesOf] using hold.starts
  · exact fun hremoved => h.removed ref (removed_of_append hremoved (by simp))
  · intro delivery hdelivery
    cases hdelivery

theorem remove (h : LogInv m log) {ref : ℕ} (href : ref ∈ m.recorded) :
    LogInv (m.remove ref) (log ++ [.removed ref]) := by
  have hrecorded : (m.remove ref).recorded = m.recorded.erase ref := spliceOut_of_mem href
  have hout : ref ∉ (m.remove ref).recorded := by
    rw [hrecorded]
    exact hline.recorded.not_mem_erase
  refine h.event ref rfl (Nat.le_refl _) (hline.made ref href) ?_ ?_ ?_ ?_ ?_
  · intro r hr _
    rw [hrecorded] at hr
    exact ⟨List.mem_of_mem_erase hr, rfl⟩
  · rw [endedSince_concat]
    exact h.once log ref (List.prefix_refl log)
  · exact fun hr => absurd hr hout
  · exact fun _ => hout
  · intro delivery hdelivery
    cases hdelivery

/-- **A call keeps the counts right.** -/
theorem step (h : LogInv m log) {call : MemoryCall} {events : List MemoryEvent}
    (hstep : MemoryStep m call m' events) : LogInv m' (log ++ events) := by
  cases hstep with
  | stays consumers paused marked =>
      rw [List.append_nil]
      exact ⟨h.known, h.attempts, h.unfinished, h.once, h.starts, h.removed, h.quiet⟩
  | answers hfound => exact h.answered (hline.made _ (MemoryDriver.jobAt_eq_some hfound).1)
  | records _ _ _ _ =>
      rw [List.append_cons]
      exact (h.record rfl rfl).answered (Nat.lt_succ_self _)
  | starts hfirst => exact h.start_job hline (MemoryDriver.runnable_eq_some hfirst).1
  | finishes hinFlight hfinished => exact h.finish hline hinFlight hfinished _
  | putsBack hinFlight => exact h.putBack hline hinFlight
  | requeues hfound _ => exact h.requeue hline (MemoryDriver.jobAt_eq_some hfound).1
  | removes hfound _ _ => exact h.remove hline (MemoryDriver.jobAt_eq_some hfound).1

end

end LogInv

/-! ### What holds in every state -/

/-- Whether an event is the end of a run of a job. -/
def MemoryEvent.ends (ref : ℕ) : MemoryEvent → Bool
  | .ended r => r = ref
  | _ => false

/-- What holds of a driver and of what happened on it. -/
structure MemoryContract (s : MemoryRun) : Prop where
  /-- The line holds the recorded jobs that wait, each once. -/
  line : s.driver.pending.Nodup ∧ ∀ ref, ref ∈ s.driver.pending ↔
    ref ∈ s.driver.recorded ∧ (s.driver.jobs ref).state = .waiting
  /-- A `runNext` takes the first job of a queue that is not paused out of the line, runs it, and
  touches no other job. -/
  next : ∀ ref m', s.driver.runNext = .ok (ref, m') →
    (∃ before after, s.driver.pending = before ++ ref :: after ∧ m'.pending = before ++ after ∧
      (∀ r ∈ before, s.driver.paused (s.driver.jobs r).queue = true) ∧
      s.driver.paused (s.driver.jobs ref).queue = false) ∧
    m'.running = s.driver.running ++ [ref] ∧ ∀ r, r ≠ ref → m'.jobs r = s.driver.jobs r
  /-- It does run that job, once the queue has a consumer. -/
  runs : ∀ before after ref, s.driver.pending = before ++ ref :: after →
    (∀ r ∈ before, s.driver.paused (s.driver.jobs r).queue = true) →
    s.driver.paused (s.driver.jobs ref).queue = false →
    s.driver.consumers (s.driver.jobs ref).queue = true → ∃ m', s.driver.runNext = .ok (ref, m')
  /-- Between two times a job is put in line, at most one run of it ends. -/
  once : ∀ before during after ref, s.log = before ++ .inLine ref :: (during ++ after) →
    .inLine ref ∉ during → during.countP (MemoryEvent.ends ref) ≤ 1
  /-- A removed job is in neither array, and no run is handed it afterwards. -/
  removed : ∀ ref, .removed ref ∈ s.log → ref ∉ s.driver.recorded ∧ ref ∉ s.driver.pending ∧
    ∀ l l' delivery, s.log = l ++ .delivered ref delivery :: l' → .removed ref ∉ l
  /-- A job counts the runs that ended since it was last put in line. -/
  attempts : ∀ ref ∈ s.driver.recorded, (s.driver.jobs ref).attempts = endedSince ref s.log
  /-- The runs of a job are handed `1, 2, 3, …`, and the job stands at the last of them. -/
  starts : ∀ ref ∈ s.driver.recorded,
    (deliveriesOf ref s.log).map JobDelivery.attemptsStarted =
      List.range' 1 (s.driver.jobs ref).attemptsStarted

/-- While a job is not put in line, the runs of it that end are counted one by one. -/
theorem foldl_tally {ref : ℕ} {log : List MemoryEvent} (h : .inLine ref ∉ log) (ended : ℕ) :
    log.foldl (tally ref) ended = ended + log.countP (MemoryEvent.ends ref) := by
  induction log generalizing ended with
  | nil => rfl
  | cons event log ih =>
      obtain ⟨hevent, hlog⟩ := not_or.1 (List.mem_cons.not.1 h)
      rw [List.foldl_cons, ih hlog, List.countP_cons]
      cases event with
      | inLine r =>
          have hne : r ≠ ref := fun heq => hevent (by rw [heq])
          simp [tally, MemoryEvent.ends, hne]
      | ended r =>
          by_cases hr : r = ref
          · simp only [tally, MemoryEvent.ends, hr, if_true, decide_true]
            omega
          · simp [tally, MemoryEvent.ends, hr]
      | answered _ _ _ | delivered _ _ | putBack _ | removed _ => simp [tally, MemoryEvent.ends]

/-- What is counted of a job right after it was put in line. -/
theorem endedSince_inLine {ref : ℕ} {before during : List MemoryEvent} (h : .inLine ref ∉ during) :
    endedSince ref (before ++ .inLine ref :: during) = during.countP (MemoryEvent.ends ref) := by
  have hzero : tally ref (endedSince ref before) (.inLine ref) = 0 := if_pos rfl
  rw [endedSince_append, List.foldl_cons, hzero, foldl_tally h, Nat.zero_add]

/-- What a `runNext` does to the line. -/
theorem LineInv.next {m m' : MemoryDriver} (h : LineInv m) {ref : ℕ}
    (hrun : m.runNext = .ok (ref, m')) :
    (∃ before after, m.pending = before ++ ref :: after ∧ m'.pending = before ++ after ∧
      (∀ r ∈ before, m.paused (m.jobs r).queue = true) ∧ m.paused (m.jobs ref).queue = false) ∧
    m'.running = m.running ++ [ref] ∧ ∀ r, r ≠ ref → m'.jobs r = m.jobs r := by
  obtain ⟨hfirst, -, rfl⟩ := MemoryDriver.runNext_eq_ok_iff.1 hrun
  obtain ⟨hunpaused, before, after, hpending, hbefore⟩ := List.find?_eq_some_iff_append.1 hfirst
  refine ⟨⟨before, after, hpending, ?_, ?_, ?_⟩, rfl, ?_⟩
  · have hmem : ref ∈ m.pending := by simp [hpending]
    have hout : ref ∉ before := by
      have hnodup := h.pending
      rw [hpending, List.nodup_middle, List.nodup_cons] at hnodup
      exact fun hin => hnodup.1 (List.mem_append_left _ hin)
    rw [MemoryDriver.start, spliceOut_of_mem hmem, hpending, List.erase_append_right _ hout,
      List.erase_cons_head]
  · intro r hr
    simpa using hbefore r hr
  · simpa using hunpaused
  · intro r hr
    exact Function.update_of_ne hr _ _

/-- The arrays and the counts are in step after every run of calls. -/
theorem memoryRun_inv {calls : List MemoryCall} {s : MemoryRun}
    (h : memoryRun.exec .start calls = some s) : LineInv s.driver ∧ LogInv s.driver s.log := by
  refine Machine.exec_invariant (P := fun s => LineInv s.driver ∧ LogInv s.driver s.log) ?_ h
    ⟨LineInv.start, LogInv.start⟩
  rintro s call t ⟨hline, hlog⟩ hstep
  obtain ⟨events, hstep, ht⟩ := memoryRun_cases hstep
  rw [ht]
  exact ⟨hline.step hstep, hlog.step hline hstep⟩

/-- **The line and the counts are right in every run**: whatever calls are made in whatever order,
from inside handlers too, and however runs overlap. -/
theorem memory_contract {calls : List MemoryCall} {s : MemoryRun}
    (h : memoryRun.exec .start calls = some s) : MemoryContract s := by
  obtain ⟨hline, hlog⟩ := memoryRun_inv h
  constructor
  · exact ⟨hline.pending, hline.line⟩
  · exact fun ref m' hrun => hline.next hrun
  · intro before after ref hpending hbefore hunpaused hconsumer
    have hfirst : s.driver.runnable = some ref := by
      refine List.find?_eq_some_iff_append.2 ⟨by simpa using hunpaused, before, after, hpending, ?_⟩
      intro r hr
      simpa using hbefore r hr
    exact ⟨_, MemoryDriver.runNext_eq_ok_iff.2 ⟨hfirst, hconsumer, rfl⟩⟩
  · intro before during after ref hsplit hduring
    have hfront : before ++ .inLine ref :: during <+: s.log := ⟨after, by simp [hsplit]⟩
    rw [← endedSince_inLine hduring]
    exact hlog.once _ ref hfront
  · intro ref hremoved
    have hout := hlog.removed ref hremoved
    refine ⟨hout, ?_, fun l l' delivery hsplit => hlog.quiet l l' ref delivery hsplit⟩
    exact fun hmem => hout (hline.recorded_of_pending hmem).1
  · exact hlog.attempts
  · exact hlog.starts

/-- A request for a line on the queue `mail`. -/
def lineRequest (jobId : Option String) : EnqueueRequest where
  queue := "mail"
  envelope := writeEnvelope lineJob .null .direct
  delivery := deliveryDefaults
  jobId := jobId

/-- A job whose lease was held is run again and fails, is retried, and is cancelled. -/
def retriedCalls : List MemoryCall :=
  [.enqueue (lineRequest none), .consume "mail", .runNext, .settle 0 (.error (leaseHeldError "7")),
    .drain, .settle 0 (.error typeError), .retry "mail" "1", .cancel "mail" "1"]

/-- The line and the counts of that job are right. -/
theorem memory_contract_example :
    ∃ s, memoryRun.exec .start retriedCalls = some s ∧ MemoryContract s :=
  ⟨_, rfl, @memory_contract retriedCalls _ rfl⟩

end Jubs
