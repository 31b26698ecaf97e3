/-
**What the handlers of a flow read, over whole runs.**

Every step over a flow moves one job, and tells at most its parent; a removal takes a job and all
that is below it.  Each keeps the ledgers in agreement with the children, so a handler is entered
over the values of all its children — unless a child was removed from a slot named `__proto__`,
whose count nothing remembers.

Main definitions:

* `Jubs.Wakes` — what a step does to the jobs it is not about;
* `Jubs.SparesProto` — a step that removes no child that fills a slot named `__proto__`.

Main results:

* `Jubs.flowRun_step` — every such step keeps the invariant;
* `Jubs.handler_reads_children` — **a handler is entered only once every child completed, and reads
  what the children returned**, in every run of such steps;
* `Jubs.handler_misses_child` — a run in which a removed child goes unnoticed.
-/

import Jubs.FlowReads
import Mathlib.Logic.Equiv.List

set_option autoImplicit false

namespace Jubs

/-! ### What a step leaves alone -/

/-- A status that is unchanged, or a parent that was woken. -/
def Wakes (old new : JobStatus) : Prop := new = old ∨ (old = .waitingChildren ∧ new = .waiting)

theorem Wakes.place {old new : JobStatus} (h : Wakes old new) : new.place = old.place := by
  rcases h with rfl | ⟨rfl, rfl⟩ <;> rfl

theorem Wakes.removed {old new : JobStatus} (h : Wakes old new) (hnew : new ≠ .removed) :
    old ≠ .removed := by
  rcases h with rfl | ⟨rfl, rfl⟩
  · exact hnew
  · simp

theorem Wakes.not_removed {old new : JobStatus} (h : Wakes old new) (hold : old ≠ .removed) :
    new ≠ .removed := by
  rcases h with rfl | ⟨rfl, rfl⟩
  · exact hold
  · simp

theorem Wakes.completed {old new : JobStatus} (h : Wakes old new) {value : Value}
    {stored : String} : new = .completed value stored ↔ old = .completed value stored := by
  rcases h with rfl | ⟨rfl, rfl⟩
  · rfl
  · simp

theorem Wakes.children {old new : JobStatus} (h : Wakes old new)
    {children : List (String × Value)} (hnew : new.children = some children) :
    old.children = some children := by
  rcases h with rfl | ⟨rfl, rfl⟩
  · exact hnew
  · cases hnew

theorem wakes_wake (r : JobRecord) : Wakes r.status r.wake.status := by
  unfold JobRecord.wake
  cases hs : r.status with
  | waitingChildren =>
      simp only
      split_ifs
      · exact Or.inr ⟨rfl, rfl⟩
      · exact Or.inl rfl
  | _ => exact Or.inl rfl

theorem wakes_hear (r : JobRecord) (child : FlowJob) (status : JobStatus) :
    Wakes r.status (r.hear child status).status := by
  cases status with
  | completed value stored =>
      exact wakes_wake { r with ledger := r.ledger.complete child.key stored }
  | failed reason =>
      simp only [JobRecord.hear]
      split_ifs
      · exact wakes_wake { r with ledger := r.ledger.fail child.key reason }
      · exact Or.inl rfl
  | removed => exact wakes_wake { r with ledger := r.ledger.drop child.key }
  | _ => exact Or.inl rfl

/-- Telling a parent leaves every other job alone. -/
theorem tellParent_of_ne {s : FlowRun} {job : FlowJob} {i : ℕ} {p q : Path} {status : JobStatus}
    (h : q ≠ p) : s.tellParent job (i :: p) status q = s q := Function.update_of_ne h _ _

theorem tellParent_parent (s : FlowRun) (job : FlowJob) (i : ℕ) (p : Path) (status : JobStatus) :
    s.tellParent job (i :: p) status p = (s p).hear job status := Function.update_self _ _ _

theorem wakes_tellParent (s : FlowRun) (job : FlowJob) (p : Path) (status : JobStatus) (q : Path) :
    Wakes (s q).status (s.tellParent job p status q).status := by
  cases p with
  | nil => exact Or.inl rfl
  | cons i p =>
      by_cases hq : q = p
      · subst hq
        rw [tellParent_parent]
        exact wakes_hear _ _ _
      · rw [tellParent_of_ne hq]
        exact Or.inl rfl

/-! ### Each step keeps the invariant -/

/-- A job moves that was neither completed nor removed, and the others are left alone or woken. -/
theorem FlowInv.move {flow : Flow} {s t : FlowRun} {p : Path} (h : FlowInv flow s)
    (hothers : ∀ q, q ≠ p → Wakes (s q).status (t q).status)
    (hremoved : (s p).status ≠ .removed)
    (hcompleted : ∀ value stored, (s p).status ≠ .completed value stored)
    (hnew : (t p).status ≠ .removed)
    (hstored : ∀ value stored, (t p).status = .completed value stored →
      storedResult value = some stored)
    (hread : ∀ job children, flow.jobAt p = some job → (t p).status.children = some children →
      FullyRead job s p children)
    (hledger : ∀ q job, flow.jobAt q = some job → (s q).status ≠ .removed →
      (t q).ledger.Agrees (flow.keys q job) (t.places q job)) : FlowInv flow t := by
  have hback : ∀ q, (t q).status ≠ .removed → (s q).status ≠ .removed := by
    intro q hq
    by_cases hqp : q = p
    · exact hqp ▸ hremoved
    · exact (hothers q hqp).removed hq
  have hforth : ∀ q, (s q).status ≠ .removed → (t q).status ≠ .removed := by
    intro q hq
    by_cases hqp : q = p
    · exact hqp ▸ hnew
    · exact (hothers q hqp).not_removed hq
  have hkept : ∀ q value stored, (s q).status = .completed value stored →
      (t q).status = .completed value stored := by
    intro q value stored hq
    by_cases hqp : q = p
    · exact absurd (hqp ▸ hq) (hcompleted value stored)
    · exact (hothers q hqp).completed.2 hq
  refine ⟨?_, ?_, ?_, ?_⟩
  · intro q job hq ht
    exact hledger q job hq (hback q ht)
  · intro q value stored hq
    by_cases hqp : q = p
    · exact hstored value stored (hqp ▸ hq)
    · exact h.stored q value stored ((hothers q hqp).completed.1 hq)
  · intro q job hq ht i hi
    exact hforth _ (h.spared q job hq (hback q ht) i hi)
  · intro q job children hq hchildren
    by_cases hqp : q = p
    · subst hqp
      exact (hread job children hq hchildren).of_completed fun i => hkept _
    · exact (h.read q job children hq ((hothers q hqp).children hchildren)).of_completed
        fun i => hkept _

theorem Stays.place {job : FlowJob} {r : JobRecord} {status : JobStatus} (h : Stays job r status) :
    r.status.place = .pending ∧ status.place = .pending := by
  cases h with
  | quiet hold hnew => exact ⟨hold, hnew⟩
  | enters hold => exact ⟨by rw [hold]; rfl, rfl⟩
  | reads hold => exact ⟨by rw [hold]; rfl, rfl⟩

theorem ne_removed_of_pending {status : JobStatus} (h : status.place = .pending) :
    status ≠ .removed := by
  rintro rfl
  cases h

theorem ne_completed_of_pending {status : JobStatus} (h : status.place = .pending) (value : Value)
    (stored : String) : status ≠ .completed value stored := by
  rintro rfl
  cases h

theorem setStatus_ledger (s : FlowRun) (p : Path) (status : JobStatus) (q : Path) :
    (s.setStatus p status q).ledger = (s q).ledger := by
  by_cases hq : q = p
  · subst hq
    rw [FlowRun.setStatus, Function.update_self]
  · rw [FlowRun.setStatus, Function.update_of_ne hq]

theorem setStatus_of_ne {s : FlowRun} {p q : Path} (status : JobStatus) (h : q ≠ p) :
    s.setStatus p status q = s q := Function.update_of_ne h _ _

theorem setStatus_inv {flow : Flow} {s : FlowRun} {p : Path} {job : FlowJob} {status : JobStatus}
    (h : FlowInv flow s) (hjob : flow.jobAt p = some job) (hs : Stays job (s p) status) :
    FlowInv flow (s.setStatus p status) := by
  have hself : (s.setStatus p status p).status = status := by
    rw [FlowRun.setStatus, Function.update_self]
  have hold := ne_removed_of_pending hs.place.1
  refine h.move (fun q hq => Or.inl (by rw [setStatus_of_ne status hq])) hold
    (ne_completed_of_pending hs.place.1) ?_ ?_ ?_ ?_
  · rw [hself]
    exact ne_removed_of_pending hs.place.2
  · intro value stored hp
    rw [hself] at hp
    exact absurd hp (ne_completed_of_pending hs.place.2 value stored)
  · intro job' children hjob' hchildren
    obtain rfl : job = job' := Option.some.inj (hjob.symm.trans hjob')
    rw [hself] at hchildren
    cases hs with
    | quiet _ _ hnone => simp [hnone] at hchildren
    | enters hready =>
        exact h.read p job children hjob (by rw [hready]; exact hchildren)
    | reads _ hprocessed hfailed hread =>
        obtain rfl := Option.some.inj hchildren
        exact fullyRead_of_read h hjob hold hprocessed hfailed hread
  · intro q job' hq hremoved
    have hplaces : (s.setStatus p status).places q job' = s.places q job' := by
      funext i
      unfold FlowRun.places
      by_cases hi : (i : ℕ) :: q = p
      · rw [hi, hself, hs.place.1, hs.place.2]
      · rw [setStatus_of_ne status hi]
    rw [setStatus_ledger, hplaces]
    exact h.ledger q job' hq hremoved

theorem Flow.key_of_jobAt {flow : Flow} {p : Path} {job : FlowJob} (h : flow.jobAt p = some job) :
    job.key = flow.key p := by
  rw [Flow.key, h]
  rfl

/-- The ledger of a parent that heard of a child. -/
theorem agrees_hear {flow : Flow} {p : Path} {parent : FlowJob}
    (hparent : flow.jobAt p = some parent)
    {r : JobRecord} {place : Fin parent.size → Ledger.Place String String}
    (h : r.ledger.Agrees (flow.keys p parent) place) {i : Fin parent.size} {child : FlowJob}
    (hchild : flow.jobAt (i :: p) = some child) {old status : JobStatus}
    (hold : place i = old.place) (hs : Settles old status) :
    (r.hear child status).ledger.Agrees (flow.keys p parent)
      (Function.update place i status.place) := by
  have hkeys := Flow.key_injective hparent
  have hkey : child.key = flow.keys p parent i := Flow.key_of_jobAt hchild
  cases hs with
  | completes hpending hstored =>
      simp only [JobRecord.hear, JobRecord.wake, hkey]
      exact h.complete hkeys (hold.trans hpending) _
  | fails hpending reason =>
      have hignore : child.opts.ignoreDependencyOnFailure = true := by
        obtain ⟨slot, -, -, hjob⟩ := Flow.jobAt_child hparent i
        rw [hjob] at hchild
        exact Option.some.inj hchild ▸ rfl
      simp only [JobRecord.hear, JobRecord.wake, hkey, hignore, if_true]
      exact h.fail hkeys (hold.trans hpending) _
  | retried hfailed =>
      simp only [JobRecord.hear, hkey]
      exact h.revive hkeys (hold.trans (by rw [hfailed]; rfl))

theorem settle_self (s : FlowRun) (job : FlowJob) (p : Path) (status : JobStatus) :
    (s.settle job p status p).status = status := by
  have hself : (s.setStatus p status p).status = status := by
    rw [FlowRun.setStatus, Function.update_self]
  cases p with
  | nil => exact hself
  | cons i p => rw [FlowRun.settle, tellParent_of_ne (List.cons_ne_self i p), hself]

theorem wakes_settle (s : FlowRun) (job : FlowJob) {p q : Path} (status : JobStatus) (h : q ≠ p) :
    Wakes (s q).status (s.settle job p status q).status := by
  have hwakes := wakes_tellParent (s.setStatus p status) job p status q
  rwa [setStatus_of_ne status h] at hwakes

theorem Settles.new {old status : JobStatus} (h : Settles old status) :
    old ≠ .removed ∧ (∀ value stored, old ≠ .completed value stored) ∧ status ≠ .removed ∧
      (∀ value stored, status = .completed value stored → storedResult value = some stored) ∧
      status.children = none := by
  cases h with
  | completes hold hstored =>
      refine ⟨ne_removed_of_pending hold, ne_completed_of_pending hold, by simp, ?_, rfl⟩
      rintro _ _ ⟨⟩
      exact hstored
  | fails hold reason =>
      exact ⟨ne_removed_of_pending hold, ne_completed_of_pending hold, by simp, by simp, rfl⟩
  | retried hold =>
      subst hold
      exact ⟨by simp, by simp, by simp, by simp, rfl⟩

theorem settle_inv {flow : Flow} {s : FlowRun} {p : Path} {job : FlowJob} {status : JobStatus}
    (h : FlowInv flow s) (hjob : flow.jobAt p = some job) (hs : Settles (s p).status status) :
    FlowInv flow (s.settle job p status) := by
  obtain ⟨hremoved, hcompleted, hnew, hstored, hchildren⟩ := hs.new
  refine h.move (fun q hq => wakes_settle s job status hq) hremoved hcompleted ?_ ?_ ?_ ?_
  · rwa [settle_self]
  · rwa [settle_self]
  · intro job' children _ hread
    rw [settle_self, hchildren] at hread
    cases hread
  · intro q job' hq hqs
    -- the children of another parent are left where they were
    have hothers : (∀ i : Fin job'.size, (i : ℕ) :: q ≠ p) →
        (s.settle job p status).places q job' = s.places q job' := by
      intro hne
      funext i
      exact (wakes_settle s job status (hne i)).place
    cases p with
    | nil =>
        rw [hothers fun i => List.cons_ne_nil _ _]
        exact (setStatus_ledger s [] status q).symm ▸ h.ledger q job' hq hqs
    | cons i p =>
        by_cases hqp : q = p
        · subst hqp
          obtain ⟨parent, hparent, hi⟩ := Flow.jobAt_cons hjob
          obtain rfl : job' = parent := Option.some.inj (hq.symm.trans hparent)
          have hplaces : (s.settle job (i :: q) status).places q job' =
              Function.update (s.places q job') ⟨i, hi⟩ status.place := by
            funext j
            by_cases hj : j = ⟨i, hi⟩
            · subst hj
              rw [Function.update_self]
              exact congrArg JobStatus.place (settle_self s job (i :: q) status)
            · rw [Function.update_of_ne hj]
              refine (wakes_settle s job status ?_).place
              intro heq
              exact hj (Fin.ext (List.cons.inj heq).1)
          have hhear : s.settle job (i :: q) status q = (s q).hear job status := by
            rw [FlowRun.settle, tellParent_parent, setStatus_of_ne status
              (List.cons_ne_self i q).symm]
          rw [hplaces, hhear]
          exact agrees_hear hq (h.ledger q job' hq hqs) hjob rfl hs
        · rw [hothers fun j heq => hqp (List.cons.inj heq).2, FlowRun.settle, tellParent_of_ne hqp,
            setStatus_ledger]
          exact h.ledger q job' hq hqs

/-! ### Removing a child and everything below it -/

/-- A step that removes no child that fills a slot named `__proto__`. -/
def SparesProto (flow : Flow) : Path × JobAct → Prop
  | (i :: p, .remove) => ∀ parent, flow.jobAt p = some parent → ∀ hi : i < parent.size,
      parent.slotOf ⟨i, hi⟩ ≠ "__proto__"
  | _ => True

theorem prune_of_not_suffix {s : FlowRun} {p q : Path} (h : ¬ p <:+ q) :
    s.prune p q = s q := if_neg h

/-- What a removal leaves of a job: nothing below the one removed, and the others as they were. -/
theorem status_removed {s : FlowRun} {job : FlowJob} {p q : Path} :
    (p <:+ q ∧ ((s.prune p).tellParent job p .removed q).status = .removed) ∨
      (¬ p <:+ q ∧ Wakes (s q).status ((s.prune p).tellParent job p .removed q).status) := by
  have hwakes := wakes_tellParent (s.prune p) job p .removed q
  by_cases hpq : p <:+ q
  · refine Or.inl ⟨hpq, ?_⟩
    have hgone : (s.prune p q).status = .removed := by rw [FlowRun.prune, if_pos hpq]
    rw [hgone] at hwakes
    rcases hwakes with heq | ⟨hold, -⟩
    · exact heq
    · cases hold
  · rw [prune_of_not_suffix hpq] at hwakes
    exact Or.inr ⟨hpq, hwakes⟩

theorem prune_inv {flow : Flow} {s : FlowRun} {p : Path} {job : FlowJob} (h : FlowInv flow s)
    (hjob : flow.jobAt p = some job) (hs : (s p).status.removable = true)
    (hspares : SparesProto flow (p, .remove)) :
    FlowInv flow ((s.prune p).tellParent job p .removed) := by
  have hpending := place_of_removable hs
  have hkept : ∀ q, ((s.prune p).tellParent job p .removed q).status ≠ .removed →
      ¬ p <:+ q ∧ Wakes (s q).status ((s.prune p).tellParent job p .removed q).status := by
    intro q hq
    rcases @status_removed s job p q with ⟨-, hgone⟩ | hkept
    · exact absurd hgone hq
    · exact hkept
  refine ⟨?_, ?_, ?_, ?_⟩
  · intro q job' hq ht
    obtain ⟨hbelow, hwakes⟩ := hkept q ht
    have hledger := h.ledger q job' hq (hwakes.removed ht)
    cases p with
    | nil => exact absurd List.nil_suffix hbelow
    | cons i p =>
        by_cases hqp : q = p
        · subst hqp
          obtain ⟨parent, hparent, hi⟩ := Flow.jobAt_cons hjob
          obtain rfl : job' = parent := Option.some.inj (hq.symm.trans hparent)
          have hplaces : ((s.prune (i :: q)).tellParent job (i :: q) .removed).places q job' =
              Function.update (s.places q job') ⟨i, hi⟩ .gone := by
            funext j
            rcases @status_removed s job (i :: q) (j :: q) with ⟨hsuffix, hgone⟩ | ⟨hsuffix, hj⟩
            · obtain rfl : (⟨i, hi⟩ : Fin job'.size) = j :=
                Fin.ext (List.cons.inj (hsuffix.eq_of_length rfl)).1
              rw [Function.update_self, FlowRun.places, hgone]
              rfl
            · rw [Function.update_of_ne, FlowRun.places, hj.place]
              · rfl
              · rintro rfl
                exact hsuffix (List.suffix_refl _)
          rw [hplaces, tellParent_parent, prune_of_not_suffix hbelow]
          simp only [JobRecord.hear, JobRecord.wake, Flow.key_of_jobAt hjob]
          exact hledger.drop (i := ⟨i, hi⟩) (Flow.key_injective hq) hpending
        · have hplaces : ((s.prune (i :: p)).tellParent job (i :: p) .removed).places q job' =
              s.places q job' := by
            funext j
            rcases @status_removed s job (i :: p) (j :: q) with ⟨hsuffix, -⟩ | ⟨-, hj⟩
            · rcases List.suffix_cons_iff.1 hsuffix with heq | hsuffix
              · exact absurd (List.cons.inj heq).2.symm hqp
              · exact absurd hsuffix hbelow
            · exact hj.place
          rw [hplaces, tellParent_of_ne hqp, prune_of_not_suffix hbelow]
          exact hledger
  · intro q value stored hq
    obtain ⟨-, hwakes⟩ := hkept q (by simp [hq])
    exact h.stored q value stored (hwakes.completed.1 hq)
  · intro q job' hq ht i hi
    obtain ⟨hbelow, hwakes⟩ := hkept q ht
    have hchild := h.spared q job' hq (hwakes.removed ht) i hi
    rcases @status_removed s job p (i :: q) with ⟨hsuffix, -⟩ | ⟨-, hw⟩
    · rcases List.suffix_cons_iff.1 hsuffix with rfl | hsuffix
      · exact absurd hi (hspares job' hq i.2)
      · exact absurd hsuffix hbelow
    · exact hw.not_removed hchild
  · intro q job' children hq hchildren
    have ht : ((s.prune p).tellParent job p .removed q).status ≠ .removed := by
      intro hgone
      rw [hgone] at hchildren
      cases hchildren
    obtain ⟨hbelow, hwakes⟩ := hkept q ht
    refine (h.read q job' children hq (hwakes.children hchildren)).of_completed ?_
    intro i value stored hi
    rcases @status_removed s job p (i :: q) with ⟨hsuffix, -⟩ | ⟨-, hw⟩
    · rcases List.suffix_cons_iff.1 hsuffix with rfl | hsuffix
      · rw [hi] at hs
        cases hs
      · exact absurd hsuffix hbelow
    · exact hw.completed.2 hi

/-! ### Whole runs -/

/-- One step keeps the invariant, unless it removes a child that fills a slot named `__proto__`. -/
theorem flowRun_step {flow : Flow} {s t : FlowRun} {act : Path × JobAct} (h : FlowInv flow s)
    (hspares : SparesProto flow act) (hstep : flowRun flow s act = some t) : FlowInv flow t := by
  obtain ⟨p, act⟩ := act
  obtain ⟨job, hjob, ⟨status, hs, rfl⟩ | ⟨status, hs, rfl⟩ | ⟨rfl, hs, rfl⟩⟩ := flowRun_cases hstep
  · exact setStatus_inv h hjob hs
  · exact settle_inv h hjob hs
  · exact prune_inv h hjob hs hspares

/-- A flow that was just added. -/
theorem flowInv_added (flow : Flow) : FlowInv flow flow.added := by
  have hrecord : ∀ p job, flow.jobAt p = some job → flow.added p = addedRecord flow job p := by
    intro p job hjob
    simp [Flow.added, hjob]
  have hstatus : ∀ p job, flow.jobAt p = some job →
      (flow.added p).status = .waiting ∨ (flow.added p).status = .waitingChildren := by
    intro p job hjob
    rw [hrecord p job hjob, addedRecord]
    split_ifs <;> simp
  have hchild : ∀ p job, flow.jobAt p = some job → ∀ i : Fin job.size,
      (flow.added (i :: p)).status.place = .pending := by
    intro p job hjob i
    obtain ⟨slot, -, -, hi⟩ := Flow.jobAt_child hjob i
    rcases hstatus _ _ hi with hi | hi <;> rw [hi] <;> rfl
  have hquiet : ∀ p, (flow.added p).status.children = none ∧
      ∀ value stored, (flow.added p).status ≠ .completed value stored := by
    intro p
    cases hjob : flow.jobAt p with
    | none => simp [Flow.added, hjob, JobStatus.children]
    | some job => rcases hstatus p job hjob with hs | hs <;> simp [hs, JobStatus.children]
  refine ⟨?_, ?_, ?_, ?_⟩
  · intro p job hjob _
    have hplaces : flow.added.places p job = fun _ => .pending := funext (hchild p job hjob)
    have hkeys : ((childPaths job p).map flow.key).toFinset =
        Finset.univ.image (flow.keys p job) := by
      ext key
      simp [childPaths, Flow.keys, Fin.exists_iff]
    rw [hplaces, hrecord p job hjob, addedRecord, hkeys]
    exact Ledger.agrees_start _
  · intro p value stored hp
    exact absurd hp ((hquiet p).2 value stored)
  · intro p job hjob _ i _
    exact ne_removed_of_pending (hchild p job hjob i)
  · intro p job children _ hchildren
    rw [(hquiet p).1] at hchildren
    cases hchildren

/-- **A handler is entered only once every child of its job completed, and it reads what the
children returned**, in every run that removes no child from a slot named `__proto__`. -/
theorem handler_reads_children {flow : Flow} {l : List (Path × JobAct)} {s : FlowRun}
    (h : (flowRun flow).exec flow.added l = some s) (hl : ∀ act ∈ l, SparesProto flow act) :
    ∀ p job children, flow.jobAt p = some job → (s p).status = .running children →
      FullyRead job s p children := by
  have hinv : FlowInv flow s := Machine.exec_invariant_of (P := FlowInv flow)
    (Q := SparesProto flow) (fun _ _ _ hspares hs hstep => flowRun_step hs hspares hstep) h hl
    (flowInv_added flow)
  intro p job children hjob hrunning
  exact hinv.read p job children hjob (by rw [hrunning]; rfl)

/-! ### A flow of one line -/

/-- A summary that waits on its lines in a slot of a given name. -/
def slottedJob (slot : String) : JobDefinition :=
  { lineJob with name := "invoice.summary", awaits := [⟨slot, true, lineJob⟩] }

/-- The node of a line. -/
def lineNode : FlowNode := composedNode lineJob .null deliveryDefaults []

/-- The node of a summary over one line. -/
def slottedNode (slot : String) : FlowNode :=
  composedNode (slottedJob slot) .null deliveryDefaults [(slot, [some ⟨slot, lineNode⟩])]

theorem composeFlow_slotted (slot : String) :
    composeFlow (slottedJob slot) .null (.obj [(slot, .arr [.null])]) = .ok (slottedNode slot) := by
  have hget : (Value.obj [(slot, .arr [.null])]).get slot = .arr [.null] := by simp [Value.get]
  have hfilled : assertAwaitsInput (slottedJob slot) (.obj [(slot, .arr [.null])]) =
      .ok (.obj [(slot, .arr [.null])]) := by
    simp [assertAwaitsInput, slotsOf, slottedJob, isRecord, hget, Value.isUndefined, Value.isArray,
      Value.places]
  have hslot : composeSlot ⟨slot, true, lineJob⟩ (composeFlow lineJob)
      (.obj [(slot, .arr [.null])]) =
      .ok [some ⟨slot, lineNode⟩] := by
    simp only [composeSlot, hget]
    rfl
  have hslots : composeSlots [⟨slot, true, lineJob⟩] (.obj [(slot, .arr [.null])]) =
      .ok [(slot, [some ⟨slot, lineNode⟩])] := by
    rw [composeSlots, hslot]
    rfl
  rw [slottedJob, lineJob, composeFlow]
  refine bind_eq_ok.2 ⟨_, hfilled, bind_eq_ok.2
    ⟨.null, rfl, bind_eq_ok.2 ⟨deliveryDefaults, rfl, ?_⟩⟩⟩
  exact bind_eq_ok.2 ⟨_, hslots, rfl⟩

/-- Different texts for different paths. -/
def pathUuid (p : Path) : Uuid where
  text := String.ofList (List.replicate (Encodable.encode p) 'a')
  plain := by
    intro c hc
    rw [String.toList_ofList] at hc
    rw [List.eq_of_mem_replicate hc]
    decide

theorem pathUuid_injective : Function.Injective pathUuid := by
  intro p q h
  have hlist : List.replicate (Encodable.encode p) 'a' = List.replicate (Encodable.encode q) 'a' :=
    String.ofList_injective (congrArg Uuid.text h)
  have hlength := congrArg List.length hlist
  rw [List.length_replicate, List.length_replicate] at hlength
  exact Encodable.encode_injective hlength

theorem wellDefined_line : WellDefined lineJob :=
  .intro (defineJob_plain rfl rfl rfl rfl) List.nodup_nil (by intro slot hslot; cases hslot)

theorem wellDefined_slotted {slot : String} (h : straySeparator slot = none) :
    WellDefined (slottedJob slot) := by
  have hawaits : assertAwaits (slottedJob slot) = .ok () := by
    simp [assertAwaits, slottedJob, lineJob, declaresUnique, assertSlots, h]
  refine .intro (defineJob_unversioned rfl rfl rfl hawaits) (List.nodup_singleton _) ?_
  intro s hs
  obtain rfl := List.mem_singleton.1 hs
  exact wellDefined_line

/-- A summary over one line. -/
def slottedFlow (slot : String) (h : straySeparator slot = none) : Flow where
  definition := slottedJob slot
  node := slottedNode slot
  uuid := pathUuid
  defined := wellDefined_slotted h
  composed := ⟨_, _, composeFlow_slotted slot⟩
  fresh := pathUuid_injective

/-- The summary of that flow. -/
def slottedRoot (slot : String) : FlowJob :=
  ⟨slottedJob slot, slottedNode slot, toFlowOptions (slottedNode slot)⟩

/-- The line of that flow. -/
def slottedLine (slot : String) : FlowJob :=
  ⟨lineJob, lineNode, toDependentOptions ⟨slot, lineNode⟩ (pathUuid [0])⟩

theorem noSeparator_lines : straySeparator "lines" = none := rfl

theorem noSeparator_proto : straySeparator "__proto__" = none := rfl

variable {slot : String} {hslot : straySeparator slot = none}

theorem slottedFlow_root : (slottedFlow slot hslot).jobAt [] = some (slottedRoot slot) := rfl

theorem slottedFlow_line : (slottedFlow slot hslot).jobAt [0] = some (slottedLine slot) := by
  obtain ⟨s, hs, -, hline⟩ := Flow.jobAt_child (@slottedFlow_root slot hslot) ⟨0, Nat.one_pos⟩
  obtain rfl := List.mem_singleton.1 hs
  exact hline

theorem added_root : (slottedFlow slot hslot).added [] =
    ⟨.waitingChildren, .start {(slottedLine slot).key}⟩ := by
  have hpaths : childPaths (slottedRoot slot) [] = [[0]] := rfl
  have hkey : (slottedFlow slot hslot).key [0] = (slottedLine slot).key := by
    rw [Flow.key, slottedFlow_line]
    rfl
  have hadded : (slottedFlow slot hslot).added [] =
      addedRecord (slottedFlow slot hslot) (slottedRoot slot) [] := rfl
  rw [hadded, addedRecord, hpaths, List.map_singleton, hkey]
  rfl

theorem added_line : (slottedFlow slot hslot).added [0] = ⟨.waiting, .start ∅⟩ := by
  rw [Flow.added, slottedFlow_line]
  rfl

theorem flowRun_eq {flow : Flow} {p : Path} {job : FlowJob} (h : flow.jobAt p = some job)
    (s : FlowRun) (act : JobAct) : flowRun flow s (p, act) = stepAt job s p act := by
  simp [flowRun, h]

theorem setStatus_self (s : FlowRun) (p : Path) (status : JobStatus) :
    s.setStatus p status p = ⟨status, (s p).ledger⟩ := Function.update_self _ _ _

/-- The only child fills a slot named `__proto__` and is removed; its parent is handed out, reads
that slot as empty, and enters its handler. -/
theorem handler_misses_child : ∃ s,
    (flowRun (slottedFlow "__proto__" noSeparator_proto)).exec
      (slottedFlow "__proto__" noSeparator_proto).added
      [([0], .remove), ([], .deliver), ([], .read [] []), ([], .enter)] = some s ∧
    (s []).status = .running [("__proto__", .arr [])] ∧ (s [0]).status = .removed ∧
    ¬ FullyRead (slottedRoot "__proto__") s [] [("__proto__", .arr [])] := by
  let flow := slottedFlow "__proto__" noSeparator_proto
  let root := slottedRoot "__proto__"
  let line := slottedLine "__proto__"
  let removed : FlowRun := (flow.added.prune [0]).tellParent line [0] .removed
  let delivered := removed.setStatus [] .active
  let read := delivered.setStatus [] (.ready [("__proto__", .arr [])])
  let entered := read.setStatus [] (.running [("__proto__", .arr [])])
  have hremove : stepAt line flow.added [0] .remove = some removed := by
    have hline : flow.added [0] = ⟨.waiting, .start ∅⟩ := added_line
    have hpaths : line.node.paths [0] = [[0]] := rfl
    rw [stepAt, if_pos]
    rw [hline, hpaths]
    exact ⟨rfl, by rw [List.all_cons, hline]; rfl⟩
  have hroot : removed [] = ⟨.waiting, ⟨∅, ∅, ∅⟩⟩ := by
    have hnot : ¬ ([0] : Path) <:+ [] := by decide
    have hadded : flow.added [] = ⟨.waitingChildren, .start {line.key}⟩ := added_root
    show (flow.added.prune [0]).tellParent line [0] .removed [] = _
    rw [tellParent_parent, prune_of_not_suffix hnot, hadded]
    simp [JobRecord.hear, JobRecord.wake, Ledger.drop, Ledger.start]
  have hdeliver : stepAt root removed [] .deliver = some delivered := by
    simp only [stepAt, hroot]
    rfl
  have hchildren : readChildren root (readFlowLua [] [] 0) = some (.ok [("__proto__", .arr [])]) :=
    rfl
  have hactive : delivered [] = ⟨.active, ⟨∅, ∅, ∅⟩⟩ := by
    show removed.setStatus [] .active [] = _
    rw [setStatus_self, hroot]
  have hread : stepAt root delivered [] (.read [] []) = some read := by
    simp only [stepAt, hactive, Finset.card_empty, hchildren]
    rfl
  have henter : stepAt root read [] .enter = some entered := by
    have hready : (read []).status = .ready [("__proto__", .arr [])] :=
      congrArg JobRecord.status (setStatus_self delivered [] _)
    simp only [stepAt, hready]
    rfl
  have hgone : (entered [0]).status = .removed := by
    rcases @status_removed flow.added line [0] [0] with ⟨-, hgone⟩ | ⟨hnot, -⟩
    · exact hgone
    · exact absurd (List.suffix_refl _) hnot
  refine ⟨entered, ?_, congrArg JobRecord.status (setStatus_self read [] _), hgone, ?_⟩
  · refine Machine.exec_cons_iff.2 ⟨removed, (flowRun_eq slottedFlow_line _ _).trans hremove, ?_⟩
    refine Machine.exec_cons_iff.2 ⟨delivered, hdeliver, ?_⟩
    exact Machine.exec_cons_iff.2 ⟨read, hread, Machine.exec_singleton.2 henter⟩
  · rintro ⟨returned, order, hcompleted, -⟩
    obtain ⟨stored, hline⟩ := hcompleted ⟨0, Nat.one_pos⟩
    rw [hgone] at hline
    cases hline

/-- What a summary reads once its only line returned nothing. -/
theorem readChildren_line : readChildren (slottedRoot "lines")
    (readFlowLua [((slottedLine "lines").key, "null")] [] 0) =
      some (.ok [("lines", .arr [.null])]) := by
  have hkey : (slottedLine "lines").key = (slottedFlow "lines" noSeparator_lines).key [0] :=
    Flow.key_of_jobAt slottedFlow_line
  have hnull : childValue "null" = .null := by
    have hparse : Json.parse "null" = some .null := Json.parse_stringify .null
    rw [childValue, hparse]
    rfl
  have hresult : readResult ((slottedLine "lines").key, "null") = ⟨"lines", .null⟩ := by
    rw [hkey, ← hnull]
    exact Flow.readResult_child (@slottedFlow_root "lines" noSeparator_lines)
      ⟨0, Nat.one_pos⟩ "null"
  let state : FlowState := ⟨[⟨"lines", .null⟩], [], 0⟩
  have hstate : readFlowState (readFlowLua [((slottedLine "lines").key, "null")] [] 0) = state := by
    rw [readFlowState_readFlowLua, List.map_singleton, hresult]
    rfl
  have hshort : childrenShort (slottedJob "lines") (some [("lines", 1)]) state = none := by
    refine childrenShort_eq_none_iff.2 ?_
    intro slot hslot
    obtain rfl := List.mem_singleton.1 hslot
    refine ⟨rfl, ?_⟩
    intro n hn
    obtain rfl : (1 : Number) = n := Value.num.inj hn
    exact Number.lt_natCast 1 1
  have hread : childrenRead (slottedJob "lines") (some [("lines", 1)]) state =
      .ok [("lines", .arr [.null])] := childrenRead_eq_ok_iff.2 ⟨rfl, rfl, hshort, rfl⟩
  have hslots : slotsOf (slottedJob "lines") ≠ [] := by simp [slotsOf, slottedJob]
  have hchildren : ∀ envelope : Envelope, envelope.slots = some [("lines", 1)] →
      (childrenFor (some (.ok state)) (slottedJob "lines") envelope :
        Effect Empty Thrown (List (String × Value))) =
          some ([], .ok [("lines", .arr [.null])]) := by
    intro envelope hcounts
    rw [childrenFor, if_neg hslots]
    exact Effect.bind_eq_ok_iff.2 ⟨state, [], [], rfl, by rw [hcounts, hread]; rfl, rfl⟩
  rw [readChildren, hstate]
  exact congrArg (Option.map Prod.snd) (hchildren ⟨1, "invoice.summary", .null, .flow, _⟩ rfl)

/-- The line is run and returns nothing, and the summary over it is handed out. -/
def linesRun : List (Path × JobAct) :=
  [([0], .deliver), ([0], .read [] []), ([0], .enter), ([0], .complete .null), ([], .deliver),
    ([], .read [((slottedLine "lines").key, "null")] []), ([], .enter)]

/-- A summary over one line enters its handler, and reads what the line returned. -/
theorem handler_reads_children_example : ∃ s,
    (flowRun (slottedFlow "lines" noSeparator_lines)).exec
      (slottedFlow "lines" noSeparator_lines).added linesRun = some s ∧
    (s []).status = .running [("lines", .arr [.null])] ∧
    FullyRead (slottedRoot "lines") s [] [("lines", .arr [.null])] := by
  let flow := slottedFlow "lines" noSeparator_lines
  let root := slottedRoot "lines"
  let line := slottedLine "lines"
  let s₁ := flow.added.setStatus [0] .active
  let s₂ := s₁.setStatus [0] (.ready [])
  let s₃ := s₂.setStatus [0] (.running [])
  let s₄ := s₃.settle line [0] (.completed .null "null")
  let s₅ := s₄.setStatus [] .active
  let s₆ := s₅.setStatus [] (.ready [("lines", .arr [.null])])
  let s₇ := s₆.setStatus [] (.running [("lines", .arr [.null])])
  have hline : flow.added [0] = ⟨.waiting, .start ∅⟩ := added_line
  have hactive : s₁ [0] = ⟨.active, .start ∅⟩ := by
    show flow.added.setStatus [0] .active [0] = _
    rw [setStatus_self, hline]
  have hready : s₂ [0] = ⟨.ready [], .start ∅⟩ := by
    show s₁.setStatus [0] (.ready []) [0] = _
    rw [setStatus_self, hactive]
  have hrunning : s₃ [0] = ⟨.running [], .start ∅⟩ := by
    show s₂.setStatus [0] (.running []) [0] = _
    rw [setStatus_self, hready]
  have hdeliver : stepAt line flow.added [0] .deliver = some s₁ := by
    simp only [stepAt, hline]
    rfl
  have hread : stepAt line s₁ [0] (.read [] []) = some s₂ := by
    have hnone : readChildren line (readFlowLua [] [] 0) = some (.ok []) := rfl
    simp only [stepAt, hactive, Ledger.start, Finset.card_empty, hnone]
    rfl
  have henter : stepAt line s₂ [0] .enter = some s₃ := by
    simp only [stepAt, hready]
    rfl
  have hcomplete : stepAt line s₃ [0] (.complete .null) = some s₄ := by
    have hstored : storedResult .null = some "null" := rfl
    rw [stepAt, hrunning, if_pos ⟨rfl, rfl⟩, hstored]
    rfl
  -- the parent hears of its line, and is woken by it
  have hwoken : s₄ [] = ⟨.waiting, ⟨∅, AList.singleton line.key "null", ∅⟩⟩ := by
    have hadded : flow.added [] = ⟨.waitingChildren, .start {line.key}⟩ := added_root
    have hroot : s₃.setStatus [0] (.completed .null "null") [] = flow.added [] := rfl
    show (s₃.setStatus [0] (.completed .null "null")).tellParent line [0]
      (.completed .null "null") [] = _
    rw [tellParent_parent, hroot, hadded]
    simp [JobRecord.hear, JobRecord.wake, Ledger.complete, Ledger.start]
  have hreached : s₅ [] = ⟨.active, ⟨∅, AList.singleton line.key "null", ∅⟩⟩ := by
    show s₄.setStatus [] .active [] = _
    rw [setStatus_self, hwoken]
  have hhanded : stepAt root s₄ [] .deliver = some s₅ := by
    simp only [stepAt, hwoken]
    rfl
  have hall : stepAt root s₅ [] (.read [(line.key, "null")] []) = some s₆ := by
    have hperm : (hashOf (AList.singleton line.key "null")).Perm [(line.key, "null")] := .refl _
    have hnone : (hashOf ∅).Perm [] := .refl _
    simp only [stepAt, hreached, Finset.card_empty]
    rw [if_pos ⟨hperm, hnone⟩, readChildren_line]
    rfl
  have hentered : stepAt root s₆ [] .enter = some s₇ := by
    have hsix : (s₆ []).status = .ready [("lines", .arr [.null])] :=
      congrArg JobRecord.status (setStatus_self s₅ [] _)
    simp only [stepAt, hsix]
    rfl
  have hrun : (flowRun flow).exec flow.added linesRun = some s₇ := by
    refine Machine.exec_cons_iff.2 ⟨s₁, (flowRun_eq slottedFlow_line _ _).trans hdeliver, ?_⟩
    refine Machine.exec_cons_iff.2 ⟨s₂, (flowRun_eq slottedFlow_line _ _).trans hread, ?_⟩
    refine Machine.exec_cons_iff.2 ⟨s₃, (flowRun_eq slottedFlow_line _ _).trans henter, ?_⟩
    refine Machine.exec_cons_iff.2 ⟨s₄, (flowRun_eq slottedFlow_line _ _).trans hcomplete, ?_⟩
    refine Machine.exec_cons_iff.2 ⟨s₅, hhanded, ?_⟩
    exact Machine.exec_cons_iff.2 ⟨s₆, hall, Machine.exec_singleton.2 hentered⟩
  have hstatus : (s₇ []).status = .running [("lines", .arr [.null])] :=
    congrArg JobRecord.status (setStatus_self s₆ [] _)
  have hspares : ∀ act ∈ linesRun, SparesProto flow act := by simp [linesRun, SparesProto]
  exact ⟨s₇, hrun, hstatus, handler_reads_children hrun hspares [] root _ rfl hstatus⟩

end Jubs
