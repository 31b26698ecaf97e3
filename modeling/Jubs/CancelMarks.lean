/-
**A sweep aborts only what a cancel marked, and each mark once.**

A mark names a job and one of the counts its deliveries are told apart by.  While an id stays with
one job, the counts of its deliveries differ, so that a mark names at most one of them, whichever
runtime holds it and however many deliveries of the job run beside it; and a sweep that finds it
takes the mark away.

Main definitions:

* `Jubs.DeliveryInv`, `Jubs.DistinctInv` — the deliveries in flight, and their counts;
* `Jubs.MarkInv` — a mark that stands was written by the last writer of its job, and no sweep found
  anything by it yet;
* `Jubs.CountInv` — a mark names a count that its job has reached;
* `Jubs.AbortInv` — what was aborted was found;
* `Jubs.FindsAmong` — what a call that has returned finds;
* `Jubs.CancelContract` — what the cancellations promise of a state.

Main results:

* `Jubs.MarkInv.step` — **marks are written once, and found once**;
* `Jubs.FindsAmong.step` — **what a call that has returned finds was handed out before**.
-/

import Jubs.CancelRuns

set_option autoImplicit false

namespace Jubs

variable {μ : Type} {store : MarkStore μ} {s t : CancelState μ}

namespace CancelState

/-- Whether a mark names the delivery of a job with a count. -/
def names (store : MarkStore μ) (s : CancelState μ) (job : JobRef) (n : ℕ) : Bool :=
  store.names job.1.name s.marks ⟨job.2, n⟩

/-- What the next group of a sweep takes. -/
def matched (store : MarkStore μ) (s : CancelState μ) (queue : QueueName)
    (running : List LiveDelivery) : List LiveDelivery :=
  matching LiveDelivery.named (store.names queue.name s.marks) running

@[simp] theorem attemptsStarted_moveJob (job job' : JobRef) (state : Option JobState) :
    ((s.moveJob job state).jobs job').attemptsStarted = (s.jobs job').attemptsStarted := by
  by_cases h : job' = job
  · subst h
    simp [moveJob]
  · simp [moveJob, Function.update_of_ne h]

/-- The counts grow when a delivery of a later count is handed out. -/
theorem le_attemptsStarted_hand {d : LiveDelivery}
    (hd : (s.jobs d.job).attemptsStarted < d.attemptsStarted) (job : JobRef) :
    (s.jobs job).attemptsStarted ≤ ((s.hand d).jobs job).attemptsStarted := by
  by_cases h : job = d.job
  · subst h
    simpa [hand] using hd.le
  · simp [hand, Function.update_of_ne h]

theorem putCancel_eq_some {c c' : ℕ} {cancel cancel' : Cancel} :
    (s.putCancel c cancel').cancels c' = some cancel ↔
      (c' = c ∧ cancel = cancel') ∨ (c' ≠ c ∧ s.cancels c' = some cancel) := by
  by_cases h : c' = c
  · subst h
    simp [putCancel, eq_comm]
  · simp [putCancel, h]

theorem putSweep_eq_some {i i' : ℕ} {sweep sweep' : Sweep} :
    (s.putSweep i sweep').sweeps i' = some sweep ↔
      (i' = i ∧ sweep = sweep') ∨ (i' ≠ i ∧ s.sweeps i' = some sweep) := by
  by_cases h : i' = i
  · subst h
    simp [putSweep, eq_comm]
  · simp [putSweep, h]

theorem names_mark {c n n' : ℕ} {job job' : JobRef} :
    (s.mark store c job n).names store job' n' = true ↔
      if job' = job then n' = n else s.names store job' n' = true := by
  rw [names, mark, store.names_request]
  obtain ⟨queue, id⟩ := job
  obtain ⟨queue', id'⟩ := job'
  simp only [Prod.mk.injEq]
  split_ifs with h
  · simp [h.2]
  · rfl

theorem names_expire {job job' : JobRef} {n : ℕ}
    (h : store.names job'.1.name (store.expire job.1.name job.2 s.marks) ⟨job'.2, n⟩ = true) :
    s.names store job' n = true := store.names_expire h

theorem names_take {i n : ℕ} {job : JobRef} {queue : QueueName} {running : List LiveDelivery}
    {rest : List (QueueName × List LiveDelivery)} (hqueue : ∀ d ∈ running, d.queue = queue) :
    (s.take store i queue running rest).names store job n = true ↔
      s.names store job n = true ∧ ∀ d ∈ s.matched store queue running, d.job ≠ job := by
  rw [names, take]
  dsimp only
  rw [store.names_take]
  refine and_congr_right fun _ => ?_
  constructor
  · rintro h d hd rfl
    exact h (hqueue d (matching_sublist.subset hd)) d hd rfl
  · rintro h hjob d hd hid
    refine h d hd ?_
    rw [LiveDelivery.job, hqueue d (matching_sublist.subset hd)]
    exact Prod.ext hjob.symm hid

theorem finds_take {i : ℕ} {queue : QueueName} {running : List LiveDelivery}
    {rest : List (QueueName × List LiveDelivery)} :
    (s.take store i queue running rest).finds =
      s.finds ++ (s.matched store queue running).map fun d => ⟨s.writer d.job, i, d⟩ := by
  rw [take]
  dsimp only
  rw [store.take_fst]
  rfl

theorem sweeps_take {i : ℕ} {queue : QueueName} {running : List LiveDelivery}
    {rest : List (QueueName × List LiveDelivery)} :
    (s.take store i queue running rest).sweeps =
      (s.putSweep i ⟨rest, s.matched store queue running⟩).sweeps := by
  rw [take]
  dsimp only
  rw [store.take_fst]
  rfl

end CancelState

/-! ### The deliveries in flight -/

/-- The deliveries in flight: each was handed out, in its place, and a list of them that a sweep
asks about holds each once. -/
structure DeliveryInv (s : CancelState μ) : Prop where
  numbered : ∀ (k : ℕ) (d : LiveDelivery), s.handed[k]? = some d → d.controller = k
  live : ∀ runtime, ∀ d ∈ s.live runtime, d ∈ s.handed ∧ d.controller ∈ s.entered
  nodup : ∀ runtime, (s.live runtime).Nodup
  asks : ∀ i sweep, s.sweeps i = some sweep →
    ∀ p ∈ sweep.asks, p.2.Nodup ∧ ∀ d ∈ p.2, d ∈ s.handed ∧ d.queue = p.1

theorem deliveryInv_init : DeliveryInv (CancelState.init store) where
  numbered k d h := by simp [CancelState.init] at h
  live runtime d h := by simp [CancelState.init] at h
  nodup _ := List.nodup_nil
  asks i sweep h := by cases h

namespace DeliveryInv

variable (h : DeliveryInv s)
include h

/-- A delivery joins those handed out. -/
theorem hand (job : JobRef) (n : ℕ) (name : String) :
    DeliveryInv (s.hand ⟨job.1, job.2, n, name, s.handed.length⟩) := by
  refine ⟨?_, ?_, h.nodup, ?_⟩
  · intro k d hk
    rw [CancelState.hand, List.getElem?_append] at hk
    split_ifs at hk with hlt
    · exact h.numbered k d hk
    · rw [List.getElem?_singleton] at hk
      split_ifs at hk with hzero
      obtain rfl := Option.some.inj hk
      exact le_antisymm (not_lt.1 hlt) (Nat.sub_eq_zero_iff_le.1 hzero)
  · intro runtime d hd
    exact ⟨List.mem_append_left _ (h.live runtime d hd).1, (h.live runtime d hd).2⟩
  · intro i sweep hsweep p hp
    refine ⟨(h.asks i sweep hsweep p hp).1, fun d hd => ?_⟩
    exact ⟨List.mem_append_left _ ((h.asks i sweep hsweep p hp).2 d hd).1,
      ((h.asks i sweep hsweep p hp).2 d hd).2⟩

/-- The sweeps ask about the groups they asked about, and a new one about the live deliveries. -/
theorem sweeps_of {s' : CancelState μ} {i : ℕ} {sweep : Sweep}
    (hsweeps : s'.sweeps = (s.putSweep i sweep).sweeps) (hhanded : s'.handed = s.handed)
    (hlive : s'.live = s.live) (hentered : s'.entered = s.entered)
    (hasks : ∀ p ∈ sweep.asks, p.2.Nodup ∧ ∀ d ∈ p.2, d ∈ s.handed ∧ d.queue = p.1) :
    DeliveryInv s' := by
  refine ⟨?_, ?_, ?_, ?_⟩
  · rw [hhanded]
    exact h.numbered
  · rw [hhanded, hlive, hentered]
    exact h.live
  · rw [hlive]
    exact h.nodup
  · intro i' sweep' hsweep'
    rw [hsweeps, CancelState.putSweep_eq_some] at hsweep'
    rw [hhanded]
    rcases hsweep' with ⟨-, rfl⟩ | ⟨-, hsweep'⟩
    · exact hasks
    · exact h.asks i' sweep' hsweep'

/-- No job matters to them. -/
theorem putJobs (jobs : JobRef → CancelJob) : DeliveryInv { s with jobs := jobs } :=
  ⟨h.numbered, h.live, h.nodup, h.asks⟩

theorem step (hstep : CancelStep store s t) : DeliveryInv t := by
  cases hstep with
  | moved job state => exact h.putJobs _
  | handed job n name hn => exact h.hand job n name
  | entered d runtime hd hnew =>
      refine ⟨h.numbered, ?_, ?_, h.asks⟩
      · intro runtime' d' hd'
        by_cases heq : runtime' = runtime
        · subst heq
          simp only [CancelState.putLive, Function.update_self, List.mem_append,
            List.mem_singleton] at hd'
          rcases hd' with hd' | rfl
          · exact ⟨(h.live _ d' hd').1, List.mem_cons_of_mem _ (h.live _ d' hd').2⟩
          · exact ⟨hd, List.mem_cons_self⟩
        · simp only [CancelState.putLive, Function.update_of_ne heq] at hd'
          exact ⟨(h.live _ d' hd').1, List.mem_cons_of_mem _ (h.live _ d' hd').2⟩
      · intro runtime'
        by_cases heq : runtime' = runtime
        · subst heq
          simp only [CancelState.putLive, Function.update_self]
          refine List.nodup_append.2 ⟨h.nodup _, List.nodup_singleton d, ?_⟩
          rintro d' hd' d'' hd'' rfl
          exact hnew (List.mem_singleton.1 hd'' ▸ (h.live _ d' hd').2)
        · simp only [CancelState.putLive, Function.update_of_ne heq]
          exact h.nodup runtime'
  | ended runtime k =>
      have hsub : ∀ runtime', ((s.putLive runtime
          ((s.live runtime).filter (·.controller ≠ k))).live runtime').Sublist
          (s.live runtime') := by
        intro runtime'
        by_cases heq : runtime' = runtime
        · subst heq
          simp only [CancelState.putLive, Function.update_self]
          exact List.filter_sublist
        · simp [CancelState.putLive, Function.update_of_ne heq]
      exact ⟨h.numbered,
        fun runtime' d hd => h.live runtime' d ((hsub runtime').subset hd),
        fun runtime' => (hsub runtime').nodup (h.nodup runtime'), h.asks⟩
  | wentOn s' hs' c cancel' hgoes hwrote =>
      have hinv : DeliveryInv s' := by
        rcases hs' with rfl | ⟨job, state, rfl⟩
        · exact h
        · exact h.putJobs _
      exact ⟨hinv.numbered, hinv.live, hinv.nodup, hinv.asks⟩
  | marked c n cancel' hgoes hn hwrote hreturned => exact ⟨h.numbered, h.live, h.nodup, h.asks⟩
  | expired job => exact ⟨h.numbered, h.live, h.nodup, h.asks⟩
  | swept i runtime hnew =>
      refine h.sweeps_of rfl rfl rfl rfl fun p hp => ?_
      rw [(grouped_liveByQueue (s.live runtime)).group p hp]
      refine ⟨(h.nodup runtime).filter _, fun d hd => ?_⟩
      obtain ⟨hd, hqueue⟩ := List.mem_filter.1 hd
      exact ⟨(h.live runtime d hd).1, of_decide_eq_true hqueue⟩
  | took i queue running rest hsweep =>
      refine h.sweeps_of CancelState.sweeps_take rfl rfl rfl fun p hp => ?_
      exact h.asks i _ hsweep p (List.mem_cons_of_mem _ hp)
  | aborted i sweep hsweep => exact h.sweeps_of rfl rfl rfl rfl (h.asks i sweep hsweep)
  | failed i sweep hsweep hnone => exact h.sweeps_of rfl rfl rfl rfl (by simp)

end DeliveryInv

/-- Where an id stays with one job, the deliveries of a job have counts of their own. -/
structure DistinctInv (s : CancelState μ) : Prop where
  counted : ∀ d ∈ s.handed, d.attemptsStarted ≤ (s.jobs d.job).attemptsStarted
  distinct : ∀ d ∈ s.handed, ∀ d' ∈ s.handed,
    d.job = d'.job → d.attemptsStarted = d'.attemptsStarted → d = d'

theorem distinctInv_init : DistinctInv (CancelState.init store) where
  counted d h := by simp [CancelState.init] at h
  distinct d h := by simp [CancelState.init] at h

/-- A delivery of a later count joins those handed out. -/
theorem DistinctInv.hand (h : DistinctInv s) {job : JobRef} {n : ℕ} {name : String}
    (hn : (s.jobs job).attemptsStarted < n) :
    DistinctInv (s.hand ⟨job.1, job.2, n, name, s.handed.length⟩) := by
  have hold : ∀ d ∈ s.handed, d.job = job → d.attemptsStarted < n := by
    rintro d hd rfl
    exact lt_of_le_of_lt (h.counted d hd) hn
  refine ⟨?_, ?_⟩
  · intro d hd
    rcases List.mem_append.1 hd with hmem | hmem
    · exact (h.counted d hmem).trans (CancelState.le_attemptsStarted_hand hn d.job)
    · obtain rfl := List.mem_singleton.1 hmem
      simp [CancelState.hand]
  · intro d hd d' hd' hjob hcount
    rcases List.mem_append.1 hd with hd | hd <;> rcases List.mem_append.1 hd' with hd' | hd'
    · exact h.distinct d hd d' hd' hjob hcount
    · obtain rfl := List.mem_singleton.1 hd'
      exact absurd hcount (hold d hd hjob).ne
    · obtain rfl := List.mem_singleton.1 hd
      exact absurd hcount.symm (hold d' hd' hjob.symm).ne
    · rw [List.mem_singleton.1 hd, List.mem_singleton.1 hd']

theorem DistinctInv.step (h : DistinctInv s) (hstep : CancelStep store s t) : DistinctInv t := by
  have hmoved : ∀ job state, DistinctInv (s.moveJob job state) := fun job state =>
    ⟨fun d hd => by simpa using h.counted d hd, h.distinct⟩
  cases hstep with
  | moved job state => exact hmoved job state
  | handed job n name hn => exact h.hand hn
  | wentOn s' hs' c cancel' hgoes hwrote =>
      rcases hs' with rfl | ⟨job, state, rfl⟩
      · exact ⟨h.counted, h.distinct⟩
      · exact ⟨(hmoved job state).counted, h.distinct⟩
  | _ => exact ⟨h.counted, h.distinct⟩

/-! ### The marks that stand -/

/-- What the marks and the finds owe to the cancels.  A mark that stands was written by the last
writer of its job, and no sweep found anything by that call yet; and what was found is the delivery
that the cancel's mark names. -/
structure MarkInv (store : MarkStore μ) (s : CancelState μ) : Prop where
  wrote : ∀ c cancel, s.cancels c = some cancel → ∀ n, cancel.wrote = some n →
    cancel.stage.returned = true
  named : ∀ job n, s.names store job n = true →
    ∃ cancel, s.cancels (s.writer job) = some cancel ∧ cancel.job = job ∧ cancel.wrote = some n
  unspent : ∀ job n, s.names store job n = true → ∀ find ∈ s.finds, find.cancel ≠ s.writer job
  found : ∀ find ∈ s.finds, find.delivery ∈ s.handed ∧ ∃ cancel,
    s.cancels find.cancel = some cancel ∧ cancel.job = find.delivery.job ∧
      cancel.wrote = some find.delivery.attemptsStarted
  once : (s.finds.map Find.cancel).Nodup

theorem markInv_init : MarkInv store (CancelState.init store) where
  wrote c cancel h := by cases h
  named job n h := by
    have hnone : (CancelState.init store).names store job n = false := store.names_empty _ _
    rw [hnone] at h
    cases h
  unspent job n h find hfind := by simp [CancelState.init] at hfind
  found find hfind := by simp [CancelState.init] at hfind
  once := List.nodup_nil

namespace MarkInv

variable (h : MarkInv store s)
include h

/-- A call that wrote its mark is not the one that goes on. -/
theorem ne_of_wrote {c c' n : ℕ} {cancel cancel' : Cancel} (hgoes : s.GoesOn c cancel')
    (hcancel : s.cancels c' = some cancel) (hwrote : cancel.wrote = some n) : c' ≠ c := by
  rintro rfl
  have hreturned := h.wrote c' cancel hcancel n hwrote
  rw [(hgoes.old cancel hcancel).1] at hreturned
  cases hreturned

/-- No job matters to them. -/
theorem putJobs (jobs : JobRef → CancelJob) : MarkInv store { s with jobs := jobs } :=
  ⟨h.wrote, h.named, h.unspent, h.found, h.once⟩

/-- A delivery is handed out. -/
theorem hand (d : LiveDelivery) : MarkInv store (s.hand d) := by
  refine ⟨h.wrote, h.named, h.unspent, ?_, h.once⟩
  intro find hfind
  obtain ⟨hmem, hcancel⟩ := h.found find hfind
  exact ⟨List.mem_append_left _ hmem, hcancel⟩

/-- What was found by a cancel is not touched by a call that goes on. -/
theorem found_putCancel {c : ℕ} {cancel' : Cancel} (hgoes : s.GoesOn c cancel') {find : Find}
    (hfind : find ∈ s.finds) : find.cancel ≠ c ∧ find.delivery ∈ s.handed ∧
      ∃ cancel, (s.putCancel c cancel').cancels find.cancel = some cancel ∧
        cancel.job = find.delivery.job ∧ cancel.wrote = some find.delivery.attemptsStarted := by
  obtain ⟨hmem, cancel, hcancel, hjob, hwrote⟩ := h.found find hfind
  have hne := h.ne_of_wrote hgoes hcancel hwrote
  exact ⟨hne, hmem, cancel, CancelState.putCancel_eq_some.2 (Or.inr ⟨hne, hcancel⟩), hjob, hwrote⟩

/-- A call goes on, and writes nothing. -/
theorem wentOn {c : ℕ} {cancel' : Cancel} (hgoes : s.GoesOn c cancel')
    (hwrote : cancel'.wrote = (s.cancels c).bind Cancel.wrote) :
    MarkInv store (s.putCancel c cancel') := by
  have hnone : cancel'.wrote = none := by
    rw [hwrote]
    cases hcancel : s.cancels c with
    | none => rfl
    | some cancel =>
        cases hn : cancel.wrote with
        | none => exact hn
        | some n => exact absurd rfl (h.ne_of_wrote hgoes hcancel hn)
  refine ⟨?_, ?_, h.unspent, ?_, h.once⟩
  · intro c' cancel hcancel n hn
    rcases CancelState.putCancel_eq_some.1 hcancel with ⟨rfl, rfl⟩ | ⟨-, hcancel⟩
    · rw [hnone] at hn
      cases hn
    · exact h.wrote c' cancel hcancel n hn
  · intro job n hnames
    obtain ⟨cancel, hcancel, hjob, hn⟩ := h.named job n hnames
    have hne := h.ne_of_wrote hgoes hcancel hn
    exact ⟨cancel, CancelState.putCancel_eq_some.2 (Or.inr ⟨hne, hcancel⟩), hjob, hn⟩
  · exact fun find hfind => (h.found_putCancel hgoes hfind).2

/-- A call writes its mark over the one that stood. -/
theorem marked {c n : ℕ} {cancel' : Cancel} (hgoes : s.GoesOn c cancel')
    (hwrote : cancel'.wrote = some n) (hreturned : cancel'.stage.returned = true) :
    MarkInv store ((s.mark store c cancel'.job n).putCancel c cancel') := by
  have hnames : ∀ job' n', ((s.mark store c cancel'.job n).putCancel c cancel').names
      store job' n' = (s.mark store c cancel'.job n).names store job' n' := fun _ _ => rfl
  refine ⟨?_, ?_, ?_, ?_, h.once⟩
  · intro c' cancel hcancel n' hn'
    rcases CancelState.putCancel_eq_some.1 hcancel with ⟨rfl, rfl⟩ | ⟨-, hcancel⟩
    · exact hreturned
    · exact h.wrote c' cancel hcancel n' hn'
  · intro job' n' hmark
    rw [hnames, CancelState.names_mark] at hmark
    split_ifs at hmark with hjob
    · subst hjob hmark
      refine ⟨cancel', CancelState.putCancel_eq_some.2 (Or.inl ⟨?_, rfl⟩), rfl, hwrote⟩
      simp [CancelState.putCancel, CancelState.mark]
    · obtain ⟨cancel, hcancel, hjob', hn'⟩ := h.named job' n' hmark
      have hne := h.ne_of_wrote hgoes hcancel hn'
      have hwriter : ((s.mark store c cancel'.job n).putCancel c cancel').writer job' =
          s.writer job' := Function.update_of_ne hjob _ _
      rw [hwriter]
      exact ⟨cancel, CancelState.putCancel_eq_some.2 (Or.inr ⟨hne, hcancel⟩), hjob', hn'⟩
  · intro job' n' hmark find hfind
    rw [hnames, CancelState.names_mark] at hmark
    split_ifs at hmark with hjob
    · -- nothing was found by the call that writes now
      subst hjob
      simpa [CancelState.putCancel, CancelState.mark] using (h.found_putCancel hgoes hfind).1
    · have hwriter : ((s.mark store c cancel'.job n).putCancel c cancel').writer job' =
          s.writer job' := Function.update_of_ne hjob _ _
      rw [hwriter]
      exact h.unspent job' n' hmark find hfind
  · exact fun find hfind => (h.found_putCancel hgoes hfind).2

/-- The next group of a sweep takes its marks. -/
theorem took (hd : DeliveryInv s) {i : ℕ} {queue : QueueName} {running : List LiveDelivery}
    {rest : List (QueueName × List LiveDelivery)}
    (hsweep : s.sweeps i = some ⟨(queue, running) :: rest, []⟩) :
    MarkInv store (s.take store i queue running rest) := by
  have hgroup := (hd.asks i _ hsweep (queue, running) List.mem_cons_self).2
  have hqueue : ∀ d ∈ running, d.queue = queue := fun d hd => (hgroup d hd).2
  -- what is taken was named, and its writer is the cancel it was found by
  have htaken : ∀ d ∈ s.matched store queue running, s.names store d.job d.attemptsStarted =
      true := by
    intro d hd
    have hnames := names_of_mem_matching hd
    rw [← hqueue d (matching_sublist.subset hd)] at hnames
    exact hnames
  have hwriter : ∀ d ∈ s.matched store queue running, ∃ cancel,
      s.cancels (s.writer d.job) = some cancel ∧ cancel.job = d.job ∧
        cancel.wrote = some d.attemptsStarted :=
    fun d hd => h.named d.job d.attemptsStarted (htaken d hd)
  refine ⟨h.wrote, ?_, ?_, ?_, ?_⟩
  · intro job n hnames
    exact h.named job n ((CancelState.names_take hqueue).1 hnames).1
  · intro job n hnames find hfind
    obtain ⟨hbefore, hother⟩ := (CancelState.names_take hqueue).1 hnames
    rw [CancelState.finds_take, List.mem_append] at hfind
    rcases hfind with hfind | hfind
    · exact h.unspent job n hbefore find hfind
    · obtain ⟨d, hd, rfl⟩ := List.mem_map.1 hfind
      obtain ⟨cancel, hcancel, hjob, -⟩ := hwriter d hd
      obtain ⟨cancel', hcancel', hjob', -⟩ := h.named job n hbefore
      intro heq
      have hsame : s.writer d.job = s.writer job := heq
      rw [hsame, hcancel'] at hcancel
      obtain rfl := Option.some.inj hcancel
      exact hother d hd (hjob.symm.trans hjob')
  · intro find hfind
    rw [CancelState.finds_take, List.mem_append] at hfind
    rcases hfind with hfind | hfind
    · exact h.found find hfind
    · obtain ⟨d, hd, rfl⟩ := List.mem_map.1 hfind
      exact ⟨(hgroup d (matching_sublist.subset hd)).1, hwriter d hd⟩
  · rw [CancelState.finds_take, List.map_append, List.nodup_append]
    refine ⟨h.once, ?_, ?_⟩
    · rw [List.map_map, List.Nodup, List.pairwise_map]
      have hids := @nodup_matching _ LiveDelivery.named (store.names queue.name s.marks) running
      rw [List.Nodup, List.pairwise_map] at hids
      refine hids.imp_of_mem fun {d d'} hd hd' hne heq => hne ?_
      obtain ⟨cancel, hcancel, hjob, -⟩ := hwriter d hd
      obtain ⟨cancel', hcancel', hjob', -⟩ := hwriter d' hd'
      have hsame : s.writer d.job = s.writer d'.job := heq
      rw [hsame, hcancel'] at hcancel
      obtain rfl := Option.some.inj hcancel
      exact congrArg Prod.snd (hjob.symm.trans hjob')
    · intro c hc c' hc' heq
      obtain ⟨find, hfind, rfl⟩ := List.mem_map.1 hc
      obtain ⟨find', hfind', rfl⟩ := List.mem_map.1 hc'
      obtain ⟨d, hd, rfl⟩ := List.mem_map.1 hfind'
      exact h.unspent d.job d.attemptsStarted (htaken d hd) find hfind heq

/-- **Marks are written once, and found once.** -/
theorem step (hd : DeliveryInv s) (hstep : CancelStep store s t) : MarkInv store t := by
  cases hstep with
  | moved job state => exact h.putJobs _
  | handed job n name hn => exact h.hand _
  | entered d runtime hd hnew => exact ⟨h.wrote, h.named, h.unspent, h.found, h.once⟩
  | ended runtime k => exact ⟨h.wrote, h.named, h.unspent, h.found, h.once⟩
  | wentOn s' hs' c cancel' hgoes hwrote =>
      rcases hs' with rfl | ⟨job, state, rfl⟩
      · exact h.wentOn hgoes hwrote
      · exact (h.wentOn hgoes hwrote).putJobs _
  | marked c n cancel' hgoes hn hwrote hreturned => exact h.marked hgoes hwrote hreturned
  | expired job =>
      refine ⟨h.wrote, ?_, ?_, h.found, h.once⟩
      · exact fun job' n hnames => h.named job' n (CancelState.names_expire hnames)
      · exact fun job' n hnames => h.unspent job' n (CancelState.names_expire hnames)
  | swept i runtime hnew => exact ⟨h.wrote, h.named, h.unspent, h.found, h.once⟩
  | took i queue running rest hsweep => exact h.took hd hsweep
  | aborted i sweep hsweep => exact ⟨h.wrote, h.named, h.unspent, h.found, h.once⟩
  | failed i sweep hsweep hnone => exact ⟨h.wrote, h.named, h.unspent, h.found, h.once⟩

end MarkInv

/-- The counts that may be marked, and those that are: each is one that the job has reached. -/
structure CountInv (store : MarkStore μ) (s : CancelState μ) : Prop where
  count : ∀ c cancel, s.cancels c = some cancel → ∀ n, cancel.stage.count = some n →
    n ≤ (s.jobs cancel.job).attemptsStarted
  reached : ∀ job n, s.names store job n = true → n ≤ (s.jobs job).attemptsStarted

theorem countInv_init : CountInv store (CancelState.init store) where
  count c cancel h := by cases h
  reached job n h := by
    have hnone : (CancelState.init store).names store job n = false := store.names_empty _ _
    rw [hnone] at h
    cases h

namespace CountInv

variable (h : CountInv store s)
include h

/-- The count a call may write is one that its job has reached. -/
theorem le_of_mayCount {c n : ℕ} {cancel' : Cancel} (hgoes : s.GoesOn c cancel')
    (hn : s.MayCount c cancel'.job n) : n ≤ (s.jobs cancel'.job).attemptsStarted := by
  rcases hn with rfl | ⟨cancel, hcancel, hcount⟩
  · exact le_rfl
  · rw [(hgoes.old cancel hcancel).2]
    exact h.count c cancel hcancel n hcount

theorem moveJob (job : JobRef) (state : Option JobState) :
    CountInv store (s.moveJob job state) where
  count c cancel hcancel n hn := by simpa using h.count c cancel hcancel n hn
  reached job' n hnames := by simpa using h.reached job' n hnames

/-- A call that goes on may write a count that its job has reached. -/
theorem putCancel {c : ℕ} {cancel' : Cancel} (hgoes : s.GoesOn c cancel') :
    CountInv store (s.putCancel c cancel') := by
  refine ⟨?_, h.reached⟩
  intro c' cancel hcancel n hn
  rcases CancelState.putCancel_eq_some.1 hcancel with ⟨rfl, rfl⟩ | ⟨-, hcancel⟩
  · exact h.le_of_mayCount hgoes (hgoes.count n hn)
  · exact h.count c' cancel hcancel n hn

theorem step (hd : DeliveryInv s) (hstep : CancelStep store s t) : CountInv store t := by
  cases hstep with
  | moved job state => exact h.moveJob job state
  | handed job n name hn =>
      refine ⟨?_, ?_⟩
      · intro c cancel hcancel n' hcount
        exact (h.count c cancel hcancel n' hcount).trans (CancelState.le_attemptsStarted_hand hn _)
      · intro job' n' hnames
        exact (h.reached job' n' hnames).trans (CancelState.le_attemptsStarted_hand hn _)
  | wentOn s' hs' c cancel' hgoes hwrote =>
      rcases hs' with rfl | ⟨job, state, rfl⟩
      · exact h.putCancel hgoes
      · exact (h.putCancel hgoes).moveJob job state
  | marked c n cancel' hgoes hn hwrote hreturned =>
      refine ⟨(h.putCancel hgoes).count, ?_⟩
      intro job' n' hnames
      have hmark := (CancelState.names_mark (c := c)).1 hnames
      split_ifs at hmark with hjob
      · subst hjob hmark
        exact h.le_of_mayCount hgoes hn
      · exact h.reached job' n' hmark
  | expired job => exact ⟨h.count, fun job' n hnames =>
      h.reached job' n (CancelState.names_expire hnames)⟩
  | took i queue running rest hsweep =>
      have hgroup := (hd.asks i _ hsweep (queue, running) List.mem_cons_self).2
      refine ⟨h.count, fun job n hnames => ?_⟩
      exact h.reached job n ((CancelState.names_take fun d hd => (hgroup d hd).2).1 hnames).1
  | _ => exact ⟨h.count, h.reached⟩

end CountInv

/-! ### The signals that are aborted -/

/-- The reason a signal keeps: the one it had, or that of a delivery it belongs to. -/
theorem abortAll_cases (taken : List LiveDelivery) (reasons : ℕ → Option Thrown) (k : ℕ) :
    CancelState.abortAll taken reasons k = reasons k ∨ (reasons k = none ∧ ∃ d ∈ taken,
      d.controller = k ∧
        CancelState.abortAll taken reasons k = some (cancelledError d.name none)) := by
  induction taken generalizing reasons with
  | nil => exact Or.inl rfl
  | cons d taken ih =>
      rw [CancelState.abortAll]
      by_cases hk : d.controller = k
      · subst hk
        have hself := ih (Function.update reasons d.controller
          (abort (cancelledError d.name none) (reasons d.controller)))
        rw [Function.update_self] at hself
        cases hreason : reasons d.controller with
        | none =>
            rw [hreason] at hself
            rcases hself with hself | ⟨hnone, -⟩
            · exact Or.inr ⟨rfl, d, List.mem_cons_self, rfl, hself⟩
            · cases hnone
        | some first =>
            rw [hreason] at hself
            rcases hself with hself | ⟨hnone, -⟩
            · exact Or.inl hself
            · cases hnone
      · have hself := ih (Function.update reasons d.controller
          (abort (cancelledError d.name none) (reasons d.controller)))
        rw [Function.update_of_ne (Ne.symm hk)] at hself
        rcases hself with hself | ⟨hnone, d', hd', hk', hself⟩
        · exact Or.inl hself
        · exact Or.inr ⟨hnone, d', List.mem_cons_of_mem _ hd', hk', hself⟩

/-- The signal of each of them is aborted. -/
theorem abortAll_ne_none {taken : List LiveDelivery} {reasons : ℕ → Option Thrown}
    {d : LiveDelivery} (hd : d ∈ taken) :
    CancelState.abortAll taken reasons d.controller ≠ none := by
  induction taken generalizing reasons with
  | nil => cases hd
  | cons first taken ih =>
      rw [CancelState.abortAll]
      rcases List.mem_cons.1 hd with rfl | hd
      · rcases abortAll_cases taken (Function.update reasons d.controller
          (abort (cancelledError d.name none) (reasons d.controller))) d.controller with
          hself | ⟨hnone, -⟩
        · rw [hself, Function.update_self]
          cases reasons d.controller <;> simp [abort]
        · rw [Function.update_self] at hnone
          cases hreason : reasons d.controller <;> simp [abort, hreason] at hnone
      · exact ih hd

/-- Two deliveries of one controller are one. -/
theorem DeliveryInv.controller_inj (h : DeliveryInv s) {d d' : LiveDelivery} (hd : d ∈ s.handed)
    (hd' : d' ∈ s.handed) (heq : d.controller = d'.controller) : d = d' := by
  obtain ⟨k, hk⟩ := List.getElem?_of_mem hd
  obtain ⟨k', hk'⟩ := List.getElem?_of_mem hd'
  have hsame : k = k' := by rw [← h.numbered k d hk, heq, h.numbered k' d' hk']
  rw [hsame, hk'] at hk
  exact (Option.some.inj hk).symm

/-- What was aborted was found, and what was found is aborted next, or has been. -/
structure AbortInv (s : CancelState μ) : Prop where
  taken : ∀ i sweep, s.sweeps i = some sweep → ∀ d ∈ sweep.taken,
    ∃ find ∈ s.finds, find.sweep = i ∧ find.delivery = d
  reasons : ∀ k, s.reasons k ≠ none → ∃ find ∈ s.finds, find.delivery.controller = k ∧
    s.reasons k = some (cancelledError find.delivery.name none)
  due : ∀ find ∈ s.finds,
    (∃ sweep, s.sweeps find.sweep = some sweep ∧ find.delivery ∈ sweep.taken) ∨
      s.reasons find.delivery.controller = some (cancelledError find.delivery.name none)

theorem abortInv_init : AbortInv (CancelState.init store) where
  taken i sweep h := by cases h
  reasons k h := absurd rfl h
  due find hfind := by simp [CancelState.init] at hfind

namespace AbortInv

variable (h : AbortInv s)
include h

/-- A sweep that holds nothing it found goes elsewhere, and nothing is found. -/
theorem putSweep {i : ℕ} {asks : List (QueueName × List LiveDelivery)}
    (hnone : ∀ sweep, s.sweeps i = some sweep → sweep.taken = []) :
    AbortInv (s.putSweep i ⟨asks, []⟩) := by
  refine ⟨?_, h.reasons, ?_⟩
  · intro i' sweep hsweep d hd
    rcases CancelState.putSweep_eq_some.1 hsweep with ⟨-, rfl⟩ | ⟨-, hsweep⟩
    · cases hd
    · exact h.taken i' sweep hsweep d hd
  · intro find hfind
    rcases h.due find hfind with ⟨sweep, hsweep, hmem⟩ | hreason
    · have hne : find.sweep ≠ i := by
        rintro rfl
        rw [hnone sweep hsweep] at hmem
        cases hmem
      exact Or.inl ⟨sweep, CancelState.putSweep_eq_some.2 (Or.inr ⟨hne, hsweep⟩), hmem⟩
    · exact Or.inr hreason

/-- The next group of a sweep takes its marks. -/
theorem took {i : ℕ} {queue : QueueName} {running : List LiveDelivery}
    {rest : List (QueueName × List LiveDelivery)}
    (hsweep : s.sweeps i = some ⟨(queue, running) :: rest, []⟩) :
    AbortInv (s.take store i queue running rest) := by
  refine ⟨?_, ?_, ?_⟩
  · intro i' sweep hsweep' d hd
    rw [CancelState.sweeps_take] at hsweep'
    rw [CancelState.finds_take]
    rcases CancelState.putSweep_eq_some.1 hsweep' with ⟨rfl, rfl⟩ | ⟨-, hsweep'⟩
    · exact ⟨_, List.mem_append_right _ (List.mem_map_of_mem hd), rfl, rfl⟩
    · obtain ⟨find, hfind, hfacts⟩ := h.taken i' sweep hsweep' d hd
      exact ⟨find, List.mem_append_left _ hfind, hfacts⟩
  · intro k hk
    obtain ⟨find, hfind, hfacts⟩ := h.reasons k hk
    exact ⟨find, CancelState.finds_take ▸ List.mem_append_left _ hfind, hfacts⟩
  · intro find hfind
    rw [CancelState.finds_take, List.mem_append] at hfind
    rw [CancelState.sweeps_take]
    rcases hfind with hfind | hfind
    · rcases h.due find hfind with ⟨sweep, hsweep', hmem⟩ | hreason
      · have hne : find.sweep ≠ i := by
          intro heq
          rw [heq, hsweep] at hsweep'
          obtain rfl := Option.some.inj hsweep'
          cases hmem
        exact Or.inl ⟨sweep, CancelState.putSweep_eq_some.2 (Or.inr ⟨hne, hsweep'⟩), hmem⟩
      · exact Or.inr hreason
    · obtain ⟨d, hd, rfl⟩ := List.mem_map.1 hfind
      exact Or.inl ⟨_, CancelState.putSweep_eq_some.2 (Or.inl ⟨rfl, rfl⟩), hd⟩

/-- A sweep aborts what it was given back. -/
theorem aborted (hd : DeliveryInv s) (hmarks : MarkInv store s) {i : ℕ} {sweep : Sweep}
    (hsweep : s.sweeps i = some sweep) :
    AbortInv { s.putSweep i ⟨sweep.asks, []⟩ with
      reasons := CancelState.abortAll sweep.taken s.reasons } := by
  -- a delivery it was given back ends with the reason of its own cancellation
  have hreason : ∀ k, CancelState.abortAll sweep.taken s.reasons k ≠ none →
      ∃ find ∈ s.finds, find.delivery.controller = k ∧
        CancelState.abortAll sweep.taken s.reasons k =
          some (cancelledError find.delivery.name none) := by
    intro k hk
    rcases abortAll_cases sweep.taken s.reasons k with hsame | ⟨-, d, hmem, rfl, hnew⟩
    · rw [hsame] at hk ⊢
      exact h.reasons k hk
    · obtain ⟨find, hfind, -, rfl⟩ := h.taken i sweep hsweep d hmem
      exact ⟨find, hfind, rfl, hnew⟩
  have hfound : ∀ find ∈ s.finds,
      CancelState.abortAll sweep.taken s.reasons find.delivery.controller ≠ none →
      CancelState.abortAll sweep.taken s.reasons find.delivery.controller =
        some (cancelledError find.delivery.name none) := by
    intro find hfind hne
    obtain ⟨find', hfind', heq, hreason⟩ := hreason _ hne
    rw [hreason, hd.controller_inj (hmarks.found find' hfind').1 (hmarks.found find hfind).1 heq]
  refine ⟨?_, hreason, ?_⟩
  · intro i' sweep' hsweep' d hmem
    rcases CancelState.putSweep_eq_some.1 hsweep' with ⟨-, rfl⟩ | ⟨-, hsweep'⟩
    · cases hmem
    · exact h.taken i' sweep' hsweep' d hmem
  · intro find hfind
    rcases h.due find hfind with ⟨sweep', hsweep', hmem⟩ | hold
    · by_cases heq : find.sweep = i
      · rw [heq, hsweep] at hsweep'
        obtain rfl := Option.some.inj hsweep'
        exact Or.inr (hfound find hfind (abortAll_ne_none hmem))
      · exact Or.inl ⟨sweep', CancelState.putSweep_eq_some.2 (Or.inr ⟨heq, hsweep'⟩), hmem⟩
    · refine Or.inr (hfound find hfind ?_)
      rcases abortAll_cases sweep.taken s.reasons find.delivery.controller with
        hsame | ⟨hnone, -⟩
      · rw [hsame, hold]
        exact Option.some_ne_none _
      · rw [hold] at hnone
        cases hnone

theorem step (hd : DeliveryInv s) (hmarks : MarkInv store s) (hstep : CancelStep store s t) :
    AbortInv t := by
  cases hstep with
  | moved job state => exact ⟨h.taken, h.reasons, h.due⟩
  | handed job n name hn => exact ⟨h.taken, h.reasons, h.due⟩
  | entered d runtime hd hnew => exact ⟨h.taken, h.reasons, h.due⟩
  | ended runtime k => exact ⟨h.taken, h.reasons, h.due⟩
  | wentOn s' hs' c cancel' hgoes hwrote =>
      rcases hs' with rfl | ⟨job, state, rfl⟩ <;> exact ⟨h.taken, h.reasons, h.due⟩
  | marked c n cancel' hgoes hn hwrote hreturned => exact ⟨h.taken, h.reasons, h.due⟩
  | expired job => exact ⟨h.taken, h.reasons, h.due⟩
  | swept i runtime hnew =>
      refine h.putSweep fun sweep hsweep => ?_
      rw [hnew] at hsweep
      cases hsweep
  | took i queue running rest hsweep => exact h.took hsweep
  | aborted i sweep hsweep => exact h.aborted hd hmarks hsweep
  | failed i sweep hsweep hnone =>
      refine h.putSweep fun sweep' hsweep' => ?_
      rw [hsweep] at hsweep'
      exact Option.some.inj hsweep' ▸ hnone

end AbortInv

/-! ### What the cancellations promise -/

/-- What every state of a run keeps. -/
structure CancelInv (store : MarkStore μ) (s : CancelState μ) : Prop where
  deliveries : DeliveryInv s
  marks : MarkInv store s
  counts : CountInv store s
  aborts : AbortInv s

theorem cancelInv_init : CancelInv store (CancelState.init store) :=
  ⟨deliveryInv_init, markInv_init, countInv_init, abortInv_init⟩

theorem CancelInv.step (h : CancelInv store s) (hstep : CancelStep store s t) :
    CancelInv store t where
  deliveries := h.deliveries.step hstep
  marks := h.marks.step h.deliveries hstep
  counts := h.counts.step h.deliveries hstep
  aborts := h.aborts.step h.deliveries h.marks hstep

/-- What is true of a call that has returned, from then on: what it finds, and what its mark names
while it stands, is among the deliveries of that moment. -/
structure FindsAmong (store : MarkStore μ) (handed : List LiveDelivery) (c : ℕ)
    (s : CancelState μ) : Prop where
  returned : ∃ cancel, s.cancels c = some cancel ∧ cancel.stage.returned = true
  found : ∀ find ∈ s.finds, find.cancel = c → find.delivery ∈ handed
  named : ∀ job n, s.names store job n = true → s.writer job = c →
    ∀ d ∈ s.handed, d.job = job → d.attemptsStarted = n → d ∈ handed

/-- When the call has just returned, they are the deliveries handed out by then. -/
theorem FindsAmong.of_returned (h : MarkInv store s) {c : ℕ} {cancel : Cancel}
    (hcancel : s.cancels c = some cancel) (hreturned : cancel.stage.returned = true) :
    FindsAmong store s.handed c s :=
  ⟨⟨cancel, hcancel, hreturned⟩, fun find hfind _ => (h.found find hfind).1,
    fun _ _ _ _ _ hd _ _ => hd⟩

namespace FindsAmong

variable {handed : List LiveDelivery} {c : ℕ} (h : FindsAmong store handed c s)
include h

/-- The calls that go on are others. -/
theorem ne_of_goesOn {c' : ℕ} {cancel' : Cancel} (hgoes : s.GoesOn c' cancel') : c ≠ c' := by
  rintro rfl
  obtain ⟨cancel, hcancel, hreturned⟩ := h.returned
  rw [(hgoes.old cancel hcancel).1] at hreturned
  cases hreturned

/-- And leave it returned. -/
theorem returned_putCancel {c' : ℕ} {cancel' : Cancel} (hgoes : s.GoesOn c' cancel') :
    ∃ cancel, (s.putCancel c' cancel').cancels c = some cancel ∧ cancel.stage.returned = true := by
  obtain ⟨cancel, hcancel, hreturned⟩ := h.returned
  exact ⟨cancel, CancelState.putCancel_eq_some.2 (Or.inr ⟨h.ne_of_goesOn hgoes, hcancel⟩),
    hreturned⟩

/-- No job matters to it. -/
theorem putJobs (jobs : JobRef → CancelJob) : FindsAmong store handed c { s with jobs := jobs } :=
  ⟨h.returned, h.found, h.named⟩

/-- **What a call that has returned finds was handed out before.** -/
theorem step (hd : DeliveryInv s) (hcounts : CountInv store s) (hstep : CancelStep store s t) :
    FindsAmong store handed c t := by
  cases hstep with
  | moved job state => exact h.putJobs _
  | handed job n name hn =>
      refine ⟨h.returned, h.found, ?_⟩
      intro job' n' hnames hwriter d hd hjob hcount
      rcases List.mem_append.1 hd with hd | hd
      · exact h.named job' n' hnames hwriter d hd hjob hcount
      · -- the mark names a count that the job had reached
        obtain rfl := List.mem_singleton.1 hd
        have hle := hcounts.reached job' n' hnames
        rw [← hjob, ← hcount] at hle
        exact absurd hle (not_le.2 hn)
  | entered d runtime hd hnew => exact ⟨h.returned, h.found, h.named⟩
  | ended runtime k => exact ⟨h.returned, h.found, h.named⟩
  | wentOn s' hs' c' cancel' hgoes hwrote =>
      have hreturned := h.returned_putCancel hgoes
      rcases hs' with rfl | ⟨job, state, rfl⟩ <;> exact ⟨hreturned, h.found, h.named⟩
  | marked c' n cancel' hgoes hn hwrote hreturned =>
      refine ⟨h.returned_putCancel hgoes, h.found, ?_⟩
      intro job' n' hnames hwriter
      have hmark := (CancelState.names_mark (c := c')).1 hnames
      by_cases hjob : job' = cancel'.job
      · subst hjob
        have hself : c' = c := by
          simpa [CancelState.putCancel, CancelState.mark] using hwriter
        exact absurd hself.symm (h.ne_of_goesOn hgoes)
      · rw [if_neg hjob] at hmark
        have hsame : ((s.mark store c' cancel'.job n).putCancel c' cancel').writer job' =
            s.writer job' := Function.update_of_ne hjob _ _
        exact h.named job' n' hmark (hsame ▸ hwriter)
  | expired job =>
      exact ⟨h.returned, h.found, fun job' n hnames =>
        h.named job' n (CancelState.names_expire hnames)⟩
  | swept i runtime hnew => exact ⟨h.returned, h.found, h.named⟩
  | took i queue running rest hsweep =>
      have hgroup := (hd.asks i _ hsweep (queue, running) List.mem_cons_self).2
      have hqueue : ∀ d ∈ running, d.queue = queue := fun d hd => (hgroup d hd).2
      refine ⟨h.returned, ?_, ?_⟩
      · intro find hfind hc
        rw [CancelState.finds_take, List.mem_append] at hfind
        rcases hfind with hfind | hfind
        · exact h.found find hfind hc
        · obtain ⟨d, hd, rfl⟩ := List.mem_map.1 hfind
          have hmem := matching_sublist.subset hd
          have hnames := names_of_mem_matching hd
          rw [← hqueue d hmem] at hnames
          exact h.named d.job d.attemptsStarted hnames hc d (hgroup d hmem).1 rfl rfl
      · intro job n hnames
        exact h.named job n ((CancelState.names_take hqueue).1 hnames).1
  | aborted i sweep hsweep => exact ⟨h.returned, h.found, h.named⟩
  | failed i sweep hsweep hnone => exact ⟨h.returned, h.found, h.named⟩

end FindsAmong

/-- What the cancellations promise of a state: an aborted signal is that of a delivery some sweep
found; a sweep finds a delivery by the mark of a cancel that wrote exactly its queue, its id and its
count; and nothing is found twice by one cancel. -/
structure CancelContract (s : CancelState μ) : Prop where
  aborted : ∀ k, s.reasons k ≠ none → ∃ find ∈ s.finds, find.delivery.controller = k
  marked : ∀ find ∈ s.finds, find.delivery ∈ s.handed ∧ ∃ cancel,
    s.cancels find.cancel = some cancel ∧ cancel.job = find.delivery.job ∧
      cancel.wrote = some find.delivery.attemptsStarted
  once : (s.finds.map Find.cancel).Nodup

theorem CancelInv.contract (h : CancelInv store s) : CancelContract s := by
  refine ⟨fun k hk => ?_, h.marks.found, h.marks.once⟩
  obtain ⟨find, hfind, heq, -⟩ := h.aborts.reasons k hk
  exact ⟨find, hfind, heq⟩

/-- Where the deliveries of a job have counts of their own, a sweep is given back those of the
deliveries it asks about that a mark names, in their order. -/
theorem CancelInv.takes (h : CancelInv store s) (hdistinct : DistinctInv s) {i : ℕ} {sweep : Sweep}
    {queue : QueueName} {running : List LiveDelivery} {rest : List (QueueName × List LiveDelivery)}
    (hsweep : s.sweeps i = some sweep) (hasks : sweep.asks = (queue, running) :: rest) :
    (store.take LiveDelivery.named queue.name running s.marks).1 =
      running.filter fun d => s.names store d.job d.attemptsStarted := by
  obtain ⟨hnodup, hgroup⟩ :=
    h.deliveries.asks i sweep hsweep (queue, running) (hasks ▸ List.mem_cons_self)
  have hdifferent : (running.map LiveDelivery.named).Nodup := by
    refine hnodup.map_on fun d hd d' hd' heq => ?_
    obtain ⟨hid, hcount⟩ := RunningDelivery.mk.inj heq
    refine hdistinct.distinct d (hgroup d hd).1 d' (hgroup d' hd').1 ?_ hcount
    rw [LiveDelivery.job, LiveDelivery.job, (hgroup d hd).2, (hgroup d' hd').2, hid]
  rw [store.take_fst, matching_eq_filter hdifferent fun _ _ => store.names_one]
  refine List.filter_congr fun d hd => ?_
  have hqueue : d.queue = queue := (hgroup d hd).2
  subst hqueue
  rfl

/-- A job of the queue `billing`. -/
def cancelledJob : JobRef := (⟨"billing", by decide, by decide⟩, "7")

end Jubs
