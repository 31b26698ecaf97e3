/-
**The ids of the memory driver.**

A job that is enqueued without an id of its own gets the number of jobs that are recorded then.  A
cancel takes a job out of the record, so the number can be an id some job of the queue already has,
and from then on every call that names the younger job reaches the older one.

Main definitions:

* `Jubs.UniqueIds` — no two recorded jobs of one queue share an id;
* `Jubs.NamesKept` — an id an enqueue answered with finds the job it was answered for;
* `Jubs.FreshCall` — an enqueue that numbers its job does not hit an id of its queue.

Main results:

* `Jubs.uniqueIds_step_iff` — a call keeps the ids apart exactly when it is such a call;
* `Jubs.ids_unique_iff` — **the ids of a run stay apart exactly when every call is such a call**;
* `Jubs.ids_repeat` — three enqueues and a cancel after which two jobs share an id.
-/

import Jubs.MemoryRuns

set_option autoImplicit false

namespace Jubs

/-! ### What ids must do, and the condition -/

/-- No two recorded jobs of one queue share an id. -/
def UniqueIds (m : MemoryDriver) : Prop :=
  ∀ ref ∈ m.recorded, ∀ ref' ∈ m.recorded, (m.jobs ref).queue = (m.jobs ref').queue →
    (m.jobs ref).id = (m.jobs ref').id → ref = ref'

/-- An id that an enqueue answered with is the id of the very job it was answered for, until that
job is removed: `get`, `retry` and `cancel` all look a job up by `jobAt`. -/
def NamesKept (s : MemoryRun) : Prop :=
  ∀ queue id ref, .answered queue id ref ∈ s.log → ref ∈ s.driver.recorded →
    s.driver.jobAt queue id = some ref

/-- Whether the driver takes a request. -/
def MemoryDriver.Takes (request : EnqueueRequest) : Prop :=
  (∀ key ∈ request.delivery.keys, key ∈ acceptedDelivery) ∧
  (storedData request.envelope).isSome = true

/-- An enqueue of a job without an id of its own finds the next number free on its queue. -/
def FreshCall (s : MemoryRun) : MemoryCall → Prop
  | .enqueue request => MemoryDriver.Takes request → request.jobId.getD "" = "" →
      ∀ ref ∈ s.driver.recorded, (s.driver.jobs ref).queue = request.queue →
        (s.driver.jobs ref).id ≠ toString (s.driver.recorded.length + 1)
  | _ => True

/-! ### The identity of a job -/

/-- The job of every answer of a log is the job the answer names. -/
def NamedInv (s : MemoryRun) : Prop :=
  ∀ queue id ref, .answered queue id ref ∈ s.log →
    ref < s.driver.made ∧ (s.driver.jobs ref).queue = queue ∧ (s.driver.jobs ref).id = id

section

variable {m m' : MemoryDriver} {call : MemoryCall} {events : List MemoryEvent}

theorem update_identity (m : MemoryDriver) {r : ℕ} {job : MemoryJob}
    (hqueue : job.queue = (m.jobs r).queue) (hid : job.id = (m.jobs r).id) (ref : ℕ) :
    (Function.update m.jobs r job ref).queue = (m.jobs ref).queue ∧
      (Function.update m.jobs r job ref).id = (m.jobs ref).id := by
  by_cases hr : ref = r
  · simp [hr, hqueue, hid]
  · simp [hr]

/-- A job keeps its queue and its id. -/
theorem MemoryStep.identity (h : MemoryStep m call m' events) {ref : ℕ} (href : ref < m.made) :
    ref < m'.made ∧ (m'.jobs ref).queue = (m.jobs ref).queue ∧
      (m'.jobs ref).id = (m.jobs ref).id := by
  cases h with
  | stays _ _ _ | answers _ | removes _ _ _ => exact ⟨href, rfl, rfl⟩
  | records _ _ _ _ =>
      have hne : ref ≠ m.made := Nat.ne_of_lt href
      refine ⟨Nat.lt_succ_of_lt href, ?_⟩
      simp [MemoryDriver.record, hne]
  | starts _ | finishes _ _ | putsBack _ | requeues _ _ =>
      refine ⟨href, ?_⟩
      apply update_identity <;> rfl

/-! ### Jobs found by their ids -/

/-- Where ids are unique, a job is found by its own. -/
theorem UniqueIds.jobAt (h : UniqueIds m) {ref : ℕ} (href : ref ∈ m.recorded) :
    m.jobAt (m.jobs ref).queue (m.jobs ref).id = some ref := by
  cases hfound : m.jobAt (m.jobs ref).queue (m.jobs ref).id with
  | none =>
      have hnone := List.find?_eq_none.1 hfound ref href
      simp at hnone
  | some other =>
      obtain ⟨hother, hqueue, hid⟩ := MemoryDriver.jobAt_eq_some hfound
      rw [h other hother ref href hqueue hid]

/-- A request that carries no id of its own meets no kept job. -/
theorem already_of_empty {request : EnqueueRequest} (h : request.jobId.getD "" = "") :
    m.already request = none := by
  unfold MemoryDriver.already
  cases hjobId : request.jobId with
  | none => rfl
  | some jobId =>
      rw [hjobId] at h
      exact if_pos h

/-- A request that carries no id of its own is numbered. -/
theorem freshId_of_empty {request : EnqueueRequest} (h : request.jobId.getD "" = "") :
    m.freshId request = toString (m.recorded.length + 1) := by
  unfold MemoryDriver.freshId
  cases hjobId : request.jobId with
  | none => rfl
  | some jobId =>
      rw [hjobId] at h
      exact if_pos h

/-- An id that a request carries is on no recorded job of its queue, once no kept job was found. -/
theorem freshId_of_carried {request : EnqueueRequest} (h : request.jobId.getD "" ≠ "")
    (hnew : m.already request = none) {ref : ℕ} (href : ref ∈ m.recorded)
    (hqueue : (m.jobs ref).queue = request.queue) : (m.jobs ref).id ≠ m.freshId request := by
  obtain ⟨jobId, hjobId⟩ : ∃ jobId, request.jobId = some jobId := by
    cases hjobId : request.jobId with
    | none => simp [hjobId] at h
    | some jobId => exact ⟨jobId, rfl⟩
  have hne : jobId ≠ "" := by simpa [hjobId] using h
  have hfresh : m.freshId request = jobId := by simp [MemoryDriver.freshId, hjobId, hne]
  have hnone : m.jobAt request.queue jobId = none := by
    simpa [MemoryDriver.already, hjobId, hne] using hnew
  rw [hfresh]
  intro hid
  have hmiss := List.find?_eq_none.1 hnone ref href
  simp [hqueue, hid] at hmiss

/-- A request the driver takes, and meets no kept job, is recorded. -/
theorem enqueue_of_takes {request : EnqueueRequest} (h : MemoryDriver.Takes request)
    (hnew : m.already request = none) :
    ∃ envelope, m.enqueue request = .ok (m.made, m.record (m.newJob request envelope)) := by
  obtain ⟨haccepted, hstored⟩ := h
  obtain ⟨envelope, henvelope⟩ := Option.isSome_iff_exists.1 hstored
  have hrejected : (request.delivery.keys.find? fun key => key ∉ acceptedDelivery) = none := by
    simpa using haccepted
  refine ⟨envelope, ?_⟩
  rw [MemoryDriver.enqueue, hrejected, hnew, henvelope]

end

/-! ### One call -/

section

variable {s t : MemoryRun} {call : MemoryCall}

/-- A numbered job that hits an id of its queue ends the uniqueness. -/
theorem not_uniqueIds_of_hit (hline : LineInv s.driver) {request : EnqueueRequest}
    (h : memoryRun s (.enqueue request) = some t) (htakes : MemoryDriver.Takes request)
    (hempty : request.jobId.getD "" = "") {ref : ℕ} (href : ref ∈ s.driver.recorded)
    (hqueue : (s.driver.jobs ref).queue = request.queue)
    (hid : (s.driver.jobs ref).id = toString (s.driver.recorded.length + 1)) :
    ¬ UniqueIds t.driver := by
  obtain ⟨envelope, henqueue⟩ := enqueue_of_takes htakes (already_of_empty hempty)
  have ht : t.driver = s.driver.record (s.driver.newJob request envelope) := by
    have hact : t.driver = (s.driver.actEnqueue request).1 :=
      (congrArg MemoryRun.driver (Option.some.inj h)).symm
    rw [hact, MemoryDriver.actEnqueue, henqueue]
  have hne : ref ≠ s.driver.made := Nat.ne_of_lt (hline.made ref href)
  intro hunique
  rw [ht] at hunique
  refine hne (hunique ref ?_ s.driver.made ?_ ?_ ?_)
  · simp [MemoryDriver.record, href]
  · simp [MemoryDriver.record]
  · simp [MemoryDriver.record, MemoryDriver.newJob, hne, hqueue]
  · simp [MemoryDriver.record, MemoryDriver.newJob, hne, hid, freshId_of_empty hempty]

/-- The recorded jobs after a call that records none are among those before, and are the same
jobs. -/
theorem UniqueIds.of_subset {m m' : MemoryDriver} (h : UniqueIds m)
    (hrecorded : ∀ ref ∈ m'.recorded, ref ∈ m.recorded ∧
      (m'.jobs ref).queue = (m.jobs ref).queue ∧ (m'.jobs ref).id = (m.jobs ref).id) :
    UniqueIds m' := by
  intro ref href ref' href' hqueue hid
  obtain ⟨hmem, hqueue₁, hid₁⟩ := hrecorded ref href
  obtain ⟨hmem', hqueue₂, hid₂⟩ := hrecorded ref' href'
  refine h ref hmem ref' hmem' ?_ ?_
  · rw [← hqueue₁, ← hqueue₂, hqueue]
  · rw [← hid₁, ← hid₂, hid]

/-- A job recorded under an id no job of its queue has keeps the ids apart. -/
theorem UniqueIds.record {m : MemoryDriver} (h : UniqueIds m) (hline : LineInv m) {job : MemoryJob}
    (hnew : ∀ ref ∈ m.recorded, (m.jobs ref).queue = job.queue → (m.jobs ref).id ≠ job.id) :
    UniqueIds (m.record job) := by
  have hold : ∀ ref ∈ m.recorded, (m.record job).jobs ref = m.jobs ref := fun ref href =>
    Function.update_of_ne (Nat.ne_of_lt (hline.made ref href)) _ _
  have hjob : (m.record job).jobs m.made = job := Function.update_self _ _ _
  have hmem : ∀ ref ∈ (m.record job).recorded, ref ∈ m.recorded ∨ ref = m.made := by
    intro ref href
    simpa [MemoryDriver.record] using href
  intro ref href ref' href' hqueue hid
  rcases hmem ref href with hr | rfl <;> rcases hmem ref' href' with hr' | rfl
  · rw [hold ref hr, hold ref' hr'] at hqueue hid
    exact h ref hr ref' hr' hqueue hid
  · rw [hold ref hr, hjob] at hqueue hid
    exact absurd hid (hnew ref hr hqueue)
  · rw [hjob, hold ref' hr'] at hqueue hid
    exact absurd hid.symm (hnew ref' hr' hqueue.symm)
  · rfl

/-- **A call keeps the ids apart exactly when it finds its number free.** -/
theorem uniqueIds_step_iff (hline : LineInv s.driver) (hunique : UniqueIds s.driver)
    (h : memoryRun s call = some t) : UniqueIds t.driver ↔ FreshCall s call := by
  constructor
  · intro hunique'
    cases call with
    | enqueue request =>
        intro htakes hempty ref href hqueue hid
        exact not_uniqueIds_of_hit hline h htakes hempty href hqueue hid hunique'
    | _ => trivial
  · intro hfresh
    obtain ⟨events, hstep, -⟩ := memoryRun_cases h
    have hsame := fun ref href => (hstep.identity (hline.made ref href)).2
    generalize t.driver = m' at hstep hsame
    cases hstep with
    | records hasked haccepted hstored hnew =>
        rename_i request envelope
        subst hasked
        refine hunique.record hline ?_
        intro ref href hqueue
        by_cases hempty : request.jobId.getD "" = ""
        · have hnumber := hfresh ⟨haccepted, Option.isSome_iff_exists.2 ⟨_, hstored⟩⟩
            hempty ref href
            hqueue
          show (s.driver.jobs ref).id ≠ s.driver.freshId request
          rw [freshId_of_empty hempty]
          exact hnumber
        · exact freshId_of_carried hempty hnew href hqueue
    | removes hfound _ _ =>
        refine hunique.of_subset ?_
        intro ref href
        have hmem := (MemoryDriver.jobAt_eq_some hfound).1
        have href : ref ∈ spliceOut s.driver.recorded _ := href
        rw [spliceOut_of_mem hmem] at href
        exact ⟨List.mem_of_mem_erase href, rfl, rfl⟩
    | _ => exact hunique.of_subset fun ref href => ⟨href, hsame ref href⟩

end

/-! ### Whole runs -/

/-- What the calls keep in any run. -/
structure IdInv (s : MemoryRun) : Prop where
  line : LineInv s.driver
  named : NamedInv s

theorem IdInv.start : IdInv .start := by
  refine ⟨LineInv.start, ?_⟩
  intro queue id ref h
  cases h

theorem IdInv.step {s t : MemoryRun} {call : MemoryCall} (hinv : IdInv s)
    (h : memoryRun s call = some t) : IdInv t := by
  obtain ⟨events, hstep, hlog⟩ := memoryRun_cases h
  refine ⟨hinv.line.step hstep, ?_⟩
  intro queue id ref hanswered
  rw [hlog] at hanswered
  rcases List.mem_append.1 hanswered with hold | hnew
  · obtain ⟨hmade, hqueue, hid⟩ := hinv.named queue id ref hold
    obtain ⟨hmade', hqueue', hid'⟩ := hstep.identity hmade
    exact ⟨hmade', hqueue'.trans hqueue, hid'.trans hid⟩
  · generalize t.driver = m' at hstep
    cases hstep with
    | answers hfound =>
        cases List.mem_singleton.1 hnew
        obtain ⟨hrecorded, hqueue, hid⟩ := MemoryDriver.jobAt_eq_some hfound
        exact ⟨hinv.line.made _ hrecorded, hqueue, hid⟩
    | records _ _ _ _ =>
        have hnew := (List.mem_cons.1 hnew).resolve_left (by intro h; cases h)
        cases List.mem_singleton.1 hnew
        refine ⟨Nat.lt_succ_self _, ?_, ?_⟩ <;> simp [MemoryDriver.record, MemoryDriver.newJob]
    | _ => simp at hnew

/-- Unique ids find the jobs they were answered for. -/
theorem NamesKept.of_unique {s : MemoryRun} (hinv : IdInv s) (h : UniqueIds s.driver) :
    NamesKept s := by
  intro queue id ref hanswered href
  obtain ⟨-, rfl, rfl⟩ := hinv.named queue id ref hanswered
  exact h.jobAt href

/-- **The ids of a run stay apart exactly when every enqueue that numbers its job finds the number
free**, and then every id names the job it was answered for. -/
theorem ids_unique_iff {calls : List MemoryCall} {s : MemoryRun}
    (h : memoryRun.exec .start calls = some s) :
    (∀ front t, front <+: calls → memoryRun.exec .start front = some t →
      UniqueIds t.driver ∧ NamesKept t) ↔ memoryRun.Along FreshCall .start calls := by
  have hunique : UniqueIds memoryDriver := by
    intro ref href
    cases href
  have hiff := Machine.forall_prefix_iff_along (I := IdInv) (P := fun t => UniqueIds t.driver)
    (fun _ _ _ hinv hstep => hinv.step hstep)
    (fun _ _ _ hinv hids hstep => uniqueIds_step_iff hinv.line hids hstep) h IdInv.start hunique
  rw [← hiff]
  constructor
  · exact fun hall front t hfront ht => (hall front t hfront ht).1
  · intro hall front t hfront ht
    have hinv : IdInv t :=
      Machine.exec_invariant (fun _ _ _ hinv hstep => IdInv.step hinv hstep) ht IdInv.start
    have hids := hall front t hfront ht
    exact ⟨hids, NamesKept.of_unique hinv hids⟩

/-- Two jobs are enqueued, the first is cancelled, and a third is enqueued. -/
def repeatedCalls : List MemoryCall :=
  [.enqueue (lineRequest none), .enqueue (lineRequest none), .cancel "mail" "1",
    .enqueue (lineRequest none)]

/-- **Two jobs share an id**: the third job is answered with the id of the second, and every call
that names it reaches the second. -/
theorem ids_repeat : ∃ s, memoryRun.exec .start repeatedCalls = some s ∧ ¬ UniqueIds s.driver ∧
    .answered "mail" "2" 2 ∈ s.log ∧ s.driver.jobAt "mail" "2" = some 1 := by
  refine ⟨_, rfl, ?_, ?_, rfl⟩
  · intro h
    exact absurd (h 1 (by decide) 2 (by decide) rfl rfl) (by decide)
  · exact List.mem_append_right _ (List.mem_cons_of_mem _ List.mem_cons_self)

/-- A job is numbered, and one is enqueued under an id of its own. -/
def carriedCalls : List MemoryCall :=
  [.enqueue (lineRequest none), .enqueue (lineRequest (some "outbox-7"))]

/-- The ids of those two jobs are apart. -/
theorem ids_unique_example : ∃ s, memoryRun.exec .start carriedCalls = some s ∧
    UniqueIds s.driver ∧ NamesKept s := by
  obtain ⟨s, h⟩ : ∃ s, memoryRun.exec .start carriedCalls = some s := ⟨_, rfl⟩
  refine ⟨s, h, (ids_unique_iff h).2 ?_ carriedCalls s (List.prefix_refl _) h⟩
  refine Machine.Along.cons ?_ rfl (Machine.Along.cons ?_ rfl trivial)
  · intro _ _ ref href
    cases href
  · intro _ hempty
    exact absurd hempty (by decide)

end Jubs
