/-
**What the answer `aborting` of a Redis cancel is worth.**

A cancel reads the count of deliveries of a job in one round trip and the state of the job in the
next, and answers `aborting` when the job is active by then.  The mark carries the count of the
first read.  Where no delivery of the job started between the two, it names the delivery that was
active, and the sweep that asks about that delivery next aborts it.  Where one did, the mark names
no delivery that runs, and the caller is told `aborting` for nothing.

Main definitions:

* `Jubs.Alone` — no other cancel of the job was made;
* `Jubs.Unraced` — no delivery of the job started between the two reads of a cancel;
* `Jubs.AnswerInv` — a mark that was written stands, has expired, or was found;
* `Jubs.AbortingKept` — what the answer `aborting` promises of a delivery.

Main results:

* `Jubs.honest_step` — an unraced cancel marks the delivery it read as active;
* `Jubs.aborting_kept` — **in a run whose cancels are unraced, every `aborting` is kept**;
* `Jubs.aborting_broken` — a delivery that starts between the reads is never aborted.
-/

import Jubs.CancelMarks

set_option autoImplicit false

namespace Jubs

variable {μ : Type} {store : MarkStore μ} {s t : CancelState μ}

/-! ### A mark that was written -/

/-- No other cancel of a job was made. -/
def Alone (s : CancelState μ) (c : ℕ) (job : JobRef) : Prop :=
  ∀ c' cancel', s.cancels c' = some cancel' → cancel'.job = job → c' = c

/-- A cancel that is alone was alone before another went on. -/
theorem Alone.of_putCancel {c c' : ℕ} {job : JobRef} {cancel' : Cancel}
    (hgoes : s.GoesOn c' cancel') (h : Alone (s.putCancel c' cancel') c job) : Alone s c job := by
  intro c'' cancel'' hcancel hjob
  by_cases heq : c'' = c'
  · subst heq
    refine h c'' cancel' (CancelState.putCancel_eq_some.2 (Or.inl ⟨rfl, rfl⟩)) ?_
    rw [(hgoes.old cancel'' hcancel).2, hjob]
  · exact h c'' cancel'' (CancelState.putCancel_eq_some.2 (Or.inr ⟨heq, hcancel⟩)) hjob

/-- The only mark of a job stands, may have expired, or was found. -/
def MarkStands (store : MarkStore μ) (s : CancelState μ) : Prop :=
  ∀ c cancel n, s.cancels c = some cancel → cancel.wrote = some n → Alone s c cancel.job →
    (s.names store cancel.job n = true ∧ s.writer cancel.job = c) ∨ s.expired cancel.job = true ∨
      ∃ find ∈ s.finds, find.cancel = c

theorem markStands_init : MarkStands store (CancelState.init store) := by
  intro c cancel n h
  cases h

theorem MarkStands.step (h : MarkStands store s) (hinv : CancelInv store s)
    (hstep : CancelStep store s t) : MarkStands store t := by
  cases hstep with
  | moved job state => exact h
  | handed job n name hn => exact h
  | entered d runtime hd hnew => exact h
  | ended runtime k => exact h
  | wentOn s' hs' c' cancel' hgoes hwrote =>
      have hput : MarkStands store (s.putCancel c' cancel') := by
        intro c cancel n hcancel hn halone
        rcases CancelState.putCancel_eq_some.1 hcancel with ⟨rfl, rfl⟩ | ⟨-, hcancel⟩
        · -- a call that goes on wrote nothing before
          rw [hwrote] at hn
          cases hold : s.cancels c with
          | none =>
              rw [hold] at hn
              cases hn
          | some old =>
              rw [hold] at hn
              exact absurd rfl (hinv.marks.ne_of_wrote hgoes hold hn)
        · exact h c cancel n hcancel hn (halone.of_putCancel hgoes)
      rcases hs' with rfl | ⟨job, state, rfl⟩
      · exact hput
      · exact hput
  | marked c' n' cancel' hgoes hmay hwrote hreturned =>
      intro c cancel n hcancel hn halone
      rcases CancelState.putCancel_eq_some.1 hcancel with ⟨rfl, rfl⟩ | ⟨hne, hcancel⟩
      · obtain rfl := Option.some.inj (hwrote.symm.trans hn)
        refine Or.inl ⟨?_, by simp [CancelState.putCancel, CancelState.mark]⟩
        have hnames : (s.mark store c cancel.job n').names store cancel.job n' = true :=
          CancelState.names_mark.2 (by simp)
        exact hnames
      · -- the mark that is written is one of another job
        have hjob : cancel.job ≠ cancel'.job := by
          intro heq
          exact hne (halone c' cancel' (CancelState.putCancel_eq_some.2 (Or.inl ⟨rfl, rfl⟩))
            heq.symm).symm
        have halone' : Alone s c cancel.job := Alone.of_putCancel (s := s) hgoes halone
        rcases h c cancel n hcancel hn halone' with ⟨hnames, hwriter⟩ | hexpired | hfound
        · refine Or.inl ⟨?_, (Function.update_of_ne hjob _ _).trans hwriter⟩
          have hmark : (s.mark store c' cancel'.job n').names store cancel.job n = true :=
            CancelState.names_mark.2 (by rw [if_neg hjob]; exact hnames)
          exact hmark
        · exact Or.inr (Or.inl ((Function.update_of_ne hjob _ _).trans hexpired))
        · exact Or.inr (Or.inr hfound)
  | expired job =>
      intro c cancel n hcancel hn halone
      by_cases hjob : cancel.job = job
      · exact Or.inr (Or.inl (by simp [hjob]))
      · rcases h c cancel n hcancel hn halone with ⟨hnames, hwriter⟩ | hexpired | hfound
        · refine Or.inl ⟨?_, hwriter⟩
          have hother : ¬ (cancel.job.1 = job.1 ∧ cancel.job.2 = job.2) :=
            fun heq => hjob (Prod.ext heq.1 heq.2)
          exact (store.names_expire_of_ne hother).trans hnames
        · exact Or.inr (Or.inl ((Function.update_of_ne hjob _ _).trans hexpired))
        · exact Or.inr (Or.inr hfound)
  | swept i runtime hnew => exact h
  | took i queue running rest hsweep =>
      intro c cancel n hcancel hn halone
      have hqueue : ∀ d ∈ running, d.queue = queue := fun d hd =>
        ((hinv.deliveries.asks i _ hsweep (queue, running) List.mem_cons_self).2 d hd).2
      rw [CancelState.finds_take]
      rcases h c cancel n hcancel hn halone with ⟨hnames, hwriter⟩ | hexpired | ⟨find, hfind, hc⟩
      · by_cases htaken : ∃ d ∈ s.matched store queue running, d.job = cancel.job
        · obtain ⟨d, hd, hjob⟩ := htaken
          refine Or.inr (Or.inr ⟨_, List.mem_append_right _ (List.mem_map_of_mem hd), ?_⟩)
          exact (congrArg s.writer hjob).trans hwriter
        · refine Or.inl ⟨(CancelState.names_take hqueue).2 ⟨hnames, fun d hd hjob => ?_⟩, hwriter⟩
          exact htaken ⟨d, hd, hjob⟩
      · exact Or.inr (Or.inl hexpired)
      · exact Or.inr (Or.inr ⟨find, List.mem_append_left _ hfind, hc⟩)
  | aborted i sweep hsweep => exact h
  | failed i sweep hsweep hnone => exact h

/-! ### The delivery a mark names -/

/-- A call marks the delivery that it read as active, and answers `aborting` only once it has. -/
structure Cancel.Honest (cancel : Cancel) : Prop where
  marking : ∀ n, cancel.stage = .marking n → cancel.target = some n
  target : ∀ n, cancel.wrote = some n → cancel.target = some n
  aborting : cancel.stage = .answered .aborting → cancel.wrote ≠ none

/-- A call that wrote nothing yet, and neither marks nor answers `aborting`. -/
theorem Cancel.Honest.of_none {cancel : Cancel} (hwrote : cancel.wrote = none)
    (hmarking : ∀ n, cancel.stage ≠ .marking n) (haborting : cancel.stage ≠ .answered .aborting) :
    cancel.Honest where
  marking n h := absurd h (hmarking n)
  target n h := by
    rw [hwrote] at h
    cases h
  aborting h := absurd h haborting

/-- Every call is honest. -/
def AllHonest (s : CancelState μ) : Prop := ∀ c cancel, s.cancels c = some cancel → cancel.Honest

theorem AllHonest.putCancel (h : AllHonest s) {c : ℕ} {cancel' : Cancel}
    (hcancel' : cancel'.Honest) : AllHonest (s.putCancel c cancel') := by
  intro c' cancel hcancel
  rcases CancelState.putCancel_eq_some.1 hcancel with ⟨-, rfl⟩ | ⟨-, hcancel⟩
  · exact hcancel'
  · exact h c' cancel hcancel

/-- No delivery of a job starts between the two reads of a cancel: where `getState` finds the job
active, its count is still the one that `getJob` answered. -/
def Unraced (s : CancelState μ) : CancelEvent → Prop
  | .readsState c => ∀ cancel locked n, s.cancels c = some cancel → cancel.stage = .read locked n →
      (s.jobs cancel.job).state = some .active → (s.jobs cancel.job).attemptsStarted = n
  | _ => True

/-- A call that has not returned wrote nothing. -/
theorem MarkInv.wrote_eq_none (h : MarkInv store s) {c : ℕ} {cancel : Cancel}
    (hcancel : s.cancels c = some cancel) (hreturned : cancel.stage.returned = false) :
    cancel.wrote = none := by
  cases hn : cancel.wrote with
  | none => rfl
  | some n =>
      rw [h.wrote c cancel hcancel n hn] at hreturned
      cases hreturned

/-- **An unraced cancel marks the delivery it read as active.** -/
theorem honest_step (h : AllHonest s) (hmarks : MarkInv store s) {event : CancelEvent}
    (hraced : Unraced s event) (hstep : cancelStep store s event = some t) : AllHonest t := by
  cases event with
  | moves job state =>
      simp only [cancelStep] at hstep
      split_ifs at hstep
      obtain rfl := Option.some.inj hstep
      exact h
  | hands job n name =>
      simp only [cancelStep] at hstep
      split_ifs at hstep
      obtain rfl := Option.some.inj hstep
      exact h
  | enters d runtime =>
      simp only [cancelStep] at hstep
      split_ifs at hstep
      obtain rfl := Option.some.inj hstep
      exact h
  | ends runtime k =>
      obtain rfl := Option.some.inj hstep
      exact h
  | calls c job =>
      simp only [cancelStep] at hstep
      split_ifs at hstep
      obtain rfl := Option.some.inj hstep
      exact h.putCancel (.of_none rfl (by simp) (by simp))
  | readsJob c =>
      obtain ⟨cancel, hcancel, hstep⟩ := Option.bind_eq_some_iff.1 hstep
      obtain ⟨old, cancel', hold, hread, rfl⟩ := CancelState.advance_eq_some hstep
      obtain ⟨hreturned, -, hwrote, hmarking, haborting, -⟩ := Cancel.readJob_eq_some hread
      exact h.putCancel (.of_none (hwrote.trans (hmarks.wrote_eq_none hold hreturned)) hmarking
        haborting)
  | readsState c =>
      obtain ⟨cancel, hcancel, hstep⟩ := Option.bind_eq_some_iff.1 hstep
      obtain ⟨old, cancel', hold, hread, rfl⟩ := CancelState.advance_eq_some hstep
      obtain rfl := Option.some.inj (hcancel.symm.trans hold)
      obtain ⟨locked, n, hstage, -, hwrote, hnext⟩ := Cancel.readState_eq_some hread
      have hnone : cancel'.wrote = none := by
        rw [hwrote]
        exact hmarks.wrote_eq_none hold (by rw [hstage]; rfl)
      refine h.putCancel ?_
      rcases hnext with ⟨hmarking, hactive, htarget⟩ | ⟨hcount, haborting⟩
      · refine ⟨fun n' hn' => ?_, fun n' hn' => ?_, fun haborting => ?_⟩
        · rw [hmarking] at hn'
          obtain rfl := CancelStage.marking.inj hn'
          rw [htarget, hraced cancel locked n hold hstage hactive]
        · rw [hnone] at hn'
          cases hn'
        · rw [hmarking] at haborting
          cases haborting
      · refine .of_none hnone (fun n' hn' => ?_) haborting
        rw [hn'] at hcount
        cases hcount
  | marks c heard =>
      obtain ⟨cancel, hcancel, hstep⟩ := Option.bind_eq_some_iff.1 hstep
      split at hstep
      · rename_i n hstage
        obtain rfl := Option.some.inj hstep
        refine AllHonest.putCancel (s := s.mark store c cancel.job n) h ⟨?_, ?_, ?_⟩
        · intro n' hn'
          cases heard <;> cases hn'
        · intro n' hn'
          obtain rfl := Option.some.inj hn'
          exact (h c cancel hcancel).marking n hstage
        · exact fun _ => Option.some_ne_none n
      · cases hstep
  | removes c locked =>
      obtain ⟨cancel, hcancel, hstep⟩ := Option.bind_eq_some_iff.1 hstep
      have hcancels : (if locked then s else s.moveJob cancel.job none).cancels = s.cancels := by
        cases locked <;> rfl
      obtain ⟨old, cancel', hold, hremove, rfl⟩ := CancelState.advance_eq_some hstep
      rw [hcancels] at hold
      obtain ⟨hstage, -, hwrote, hcount, haborting⟩ := Cancel.remove_eq_some hremove
      have hnone : cancel'.wrote = none :=
        hwrote.trans (hmarks.wrote_eq_none hold (by rw [hstage]; rfl))
      refine AllHonest.putCancel (fun c' other hother => ?_) (.of_none hnone (fun n hn => ?_)
        haborting)
      · rw [hcancels] at hother
        exact h c' other hother
      · rw [hn] at hcount
        cases hcount
  | rejects c =>
      obtain ⟨old, cancel', hold, hreject, rfl⟩ := CancelState.advance_eq_some hstep
      obtain ⟨hreturned, -, hwrote, hstage⟩ := Cancel.reject_eq_some hreject
      refine h.putCancel (.of_none (hwrote.trans (hmarks.wrote_eq_none hold hreturned)) ?_ ?_)
      · simp [hstage]
      · simp [hstage]
  | cancels c job =>
      simp only [cancelStep] at hstep
      split_ifs at hstep with hfresh
      split at hstep
      · rename_i answer n hanswer
        obtain rfl := Option.some.inj hstep
        refine AllHonest.putCancel (s := s.mark store c job n) h ⟨?_, fun _ hn => hn, ?_⟩
        · intro n' hn'
          cases hn'
        · exact fun _ => Option.some_ne_none n
      · rename_i answer hanswer
        obtain rfl := Option.some.inj hstep
        have haborting : answer ≠ .aborting := by
          rcases cancelAtOnce_eq hanswer with ⟨-, hne⟩ | ⟨hn, -⟩
          · exact hne
          · cases hn
        refine AllHonest.putCancel (fun c' other hother => ?_)
          (.of_none rfl (by simp) (by simpa using haborting))
        split_ifs at hother with hremoved
        · exact h c' other hother
        · exact h c' other hother
  | expires job =>
      obtain rfl := Option.some.inj hstep
      exact h
  | sweeps i runtime =>
      simp only [cancelStep] at hstep
      split_ifs at hstep
      obtain rfl := Option.some.inj hstep
      exact h
  | takes i =>
      obtain ⟨sweep, -, hstep⟩ := Option.bind_eq_some_iff.1 hstep
      split at hstep
      · obtain rfl := Option.some.inj hstep
        exact h
      · cases hstep
  | aborts i =>
      obtain ⟨sweep, -, hstep⟩ := Option.bind_eq_some_iff.1 hstep
      split at hstep
      · cases hstep
      · obtain rfl := Option.some.inj hstep
        exact h
  | fails i =>
      obtain ⟨sweep, -, hstep⟩ := Option.bind_eq_some_iff.1 hstep
      split_ifs at hstep
      obtain rfl := Option.some.inj hstep
      exact h

/-! ### The promise of `aborting` -/

/-- What `aborting` promises of the delivery that was active.  A sweep that begins in the runtime
that runs it asks about it; the sweep that asks while the mark has not expired is given it back,
unless a sweep found it before; and what a sweep was given back it aborts. -/
structure AbortingKept (store : MarkStore μ) (s : CancelState μ) (c : ℕ) (d : LiveDelivery) :
    Prop where
  asked : ∀ i runtime t, cancelStep store s (.sweeps i runtime) = some t → d ∈ s.live runtime →
    ∃ sweep running, t.sweeps i = some sweep ∧ (d.queue, running) ∈ sweep.asks ∧ d ∈ running
  found : ∀ i running rest t, s.expired d.job = false →
    s.sweeps i = some ⟨(d.queue, running) :: rest, []⟩ → d ∈ running →
      cancelStep store s (.takes i) = some t →
        (∃ sweep, t.sweeps i = some sweep ∧ d ∈ sweep.taken) ∨
          ∃ find ∈ s.finds, find.cancel = c ∧ find.delivery = d
  aborts : ∀ i sweep t, s.sweeps i = some sweep → d ∈ sweep.taken →
    cancelStep store s (.aborts i) = some t →
      t.reasons d.controller = some (cancelledError d.name none)
  aborted : ∀ find ∈ s.finds, find.delivery = d →
    (∃ sweep, s.sweeps find.sweep = some sweep ∧ d ∈ sweep.taken) ∨
      s.reasons d.controller = some (cancelledError d.name none)

/-- What a run of unraced cancels keeps. -/
structure AnswerInv (store : MarkStore μ) (s : CancelState μ) : Prop where
  contract : CancelInv store s
  distinct : DistinctInv s
  stands : MarkStands store s
  honest : AllHonest s

theorem answerInv_init : AnswerInv store (CancelState.init store) where
  contract := cancelInv_init
  distinct := distinctInv_init
  stands := markStands_init
  honest c cancel h := by cases h

theorem AnswerInv.step (h : AnswerInv store s) {event : CancelEvent} (hraced : Unraced s event)
    (hstep : cancelStep store s event = some t) : AnswerInv store t where
  contract := h.contract.step (cancelStep_cases hstep)
  distinct := h.distinct.step (cancelStep_cases hstep)
  stands := h.stands.step h.contract (cancelStep_cases hstep)
  honest := honest_step h.honest h.contract.marks hraced hstep

/-- A sweep asks about the live deliveries of its runtime. -/
theorem asks_of_sweeps {i runtime : ℕ} {d : LiveDelivery}
    (hstep : cancelStep store s (.sweeps i runtime) = some t) (hd : d ∈ s.live runtime) :
    ∃ sweep running, t.sweeps i = some sweep ∧ (d.queue, running) ∈ sweep.asks ∧ d ∈ running := by
  simp only [cancelStep] at hstep
  split_ifs at hstep
  obtain rfl := Option.some.inj hstep
  have hgroups := grouped_liveByQueue (s.live runtime)
  obtain ⟨⟨queue, running⟩, hmem, hqueue⟩ := List.mem_map.1 (hgroups.holds d hd)
  have hqueue : queue = d.queue := hqueue
  subst hqueue
  refine ⟨_, running, CancelState.putSweep_eq_some.2 (Or.inl ⟨rfl, rfl⟩), hmem, ?_⟩
  have hrunning : running = (s.live runtime).filter fun d' => d'.queue = d.queue :=
    hgroups.group _ hmem
  rw [hrunning]
  exact List.mem_filter.2 ⟨hd, by simp⟩

/-- What a sweep was given back it aborts, with the reason of a cancellation. -/
theorem reasons_of_aborts (hinv : CancelInv store s) {i : ℕ} {sweep : Sweep} {d : LiveDelivery}
    (hsweep : s.sweeps i = some sweep) (hd : d ∈ sweep.taken)
    (hstep : cancelStep store s (.aborts i) = some t) :
    t.reasons d.controller = some (cancelledError d.name none) := by
  have hnext := hinv.step (cancelStep_cases hstep)
  obtain ⟨sweep', hsweep', hstep⟩ := Option.bind_eq_some_iff.1 hstep
  split at hstep
  · cases hstep
  · obtain rfl := Option.some.inj hstep
    obtain ⟨find, hfind, rfl, rfl⟩ := hinv.aborts.taken i sweep hsweep d hd
    rcases hnext.aborts.due find hfind with ⟨sweep'', hsweep'', hmem⟩ | hreason
    · rcases CancelState.putSweep_eq_some.1 hsweep'' with ⟨-, rfl⟩ | ⟨hne, -⟩
      · cases hmem
      · exact absurd rfl hne
    · exact hreason

/-- Where the mark that an honest cancel wrote has not expired, the sweep that asks about the
delivery it names is given it back, unless it was found before. -/
theorem AnswerInv.found (h : AnswerInv store s) {c n i : ℕ} {cancel : Cancel} {d : LiveDelivery}
    {running : List LiveDelivery} {rest : List (QueueName × List LiveDelivery)}
    (hcancel : s.cancels c = some cancel) (hstage : cancel.stage = .answered .aborting)
    (htarget : cancel.target = some n) (halone : Alone s c cancel.job) (hd : d ∈ s.handed)
    (hjob : d.job = cancel.job) (hcount : d.attemptsStarted = n)
    (hexpired : s.expired d.job = false)
    (hsweep : s.sweeps i = some ⟨(d.queue, running) :: rest, []⟩) (hrunning : d ∈ running)
    (hstep : cancelStep store s (.takes i) = some t) :
    (∃ sweep, t.sweeps i = some sweep ∧ d ∈ sweep.taken) ∨
      ∃ find ∈ s.finds, find.cancel = c ∧ find.delivery = d := by
  have honest := h.honest c cancel hcancel
  obtain ⟨n', hn'⟩ := Option.ne_none_iff_exists'.1 (honest.aborting hstage)
  -- the mark that was written names the delivery
  have hsame : n' = n := Option.some.inj ((honest.target n' hn').symm.trans htarget)
  subst hsame
  rcases h.stands c cancel n' hcancel hn' halone with ⟨hnames, -⟩ | hpast | ⟨find, hfind, hc⟩
  · refine Or.inl ⟨⟨rest, s.matched store d.queue running⟩, ?_, ?_⟩
    · obtain ⟨sweep, hsweep', hstep⟩ := Option.bind_eq_some_iff.1 hstep
      obtain rfl := Option.some.inj (hsweep.symm.trans hsweep')
      obtain rfl := Option.some.inj hstep
      rw [CancelState.sweeps_take]
      exact CancelState.putSweep_eq_some.2 (Or.inl ⟨rfl, rfl⟩)
    · have htakes := h.contract.takes h.distinct hsweep rfl
      rw [store.take_fst] at htakes
      rw [CancelState.matched, htakes]
      refine List.mem_filter.2 ⟨hrunning, ?_⟩
      rw [hjob, hcount]
      exact hnames
  · rw [hjob, hpast] at hexpired
    cases hexpired
  · refine Or.inr ⟨find, hfind, hc, ?_⟩
    obtain ⟨hmem, cancel', hcancel', hjob', hwrote'⟩ := h.contract.marks.found find hfind
    rw [hc, hcancel] at hcancel'
    obtain rfl := Option.some.inj hcancel'
    refine h.distinct.distinct find.delivery hmem d hd (hjob'.symm.trans hjob.symm) ?_
    rw [hcount]
    exact Option.some.inj (hwrote'.symm.trans hn')

/-- **In a run whose cancels are unraced, every `aborting` is kept.**  For a cancel of Redis that
answered `aborting` with no other cancel of its job, the delivery that was active when it read the
state is found by the sweep that asks about it before the mark expires, and its signal is aborted
with a `CancelledError`. -/
theorem aborting_kept {l : List CancelEvent} {s : CancelState Driver.redis.Marks}
    (h : (cancelRuns .redis).exec (CancelState.init Driver.redis.marks) l = some s)
    (hraced : (cancelRuns .redis).Along Unraced (CancelState.init Driver.redis.marks) l) {c n : ℕ}
    {cancel : Cancel} {d : LiveDelivery} (hcancel : s.cancels c = some cancel)
    (hstage : cancel.stage = .answered .aborting) (htarget : cancel.target = some n)
    (halone : Alone s c cancel.job) (hd : d ∈ s.handed) (hjob : d.job = cancel.job)
    (hcount : d.attemptsStarted = n) : AbortingKept Driver.redis.marks s c d := by
  have hinv : AnswerInv Driver.redis.marks s :=
    Machine.exec_invariant_along (fun _ _ _ hunraced hinv hstep =>
      hinv.step hunraced (cancelRuns_eq_some hstep)) h hraced answerInv_init
  refine ⟨fun i runtime t hstep hlive => asks_of_sweeps hstep hlive, ?_, ?_, ?_⟩
  · intro i running rest t hexpired hsweep hrunning hstep
    exact hinv.found hcancel hstage htarget halone hd hjob hcount hexpired hsweep hrunning hstep
  · exact fun i sweep t hsweep hmem hstep => reasons_of_aborts hinv.contract hsweep hmem hstep
  · rintro find hfind rfl
    exact hinv.contract.aborts.due find hfind

/-- A delivery of the job, once its runtime has it in `live`. -/
def cancelledDelivery : LiveDelivery := ⟨cancelledJob.1, "7", 1, "invoice.send", 0⟩

/-- The job is taken, and cancelled while it runs; then a sweep begins. -/
def calmCancel : List CancelEvent :=
  [.moves cancelledJob (some .waiting), .hands cancelledJob 1 "invoice.send",
    .enters cancelledDelivery 0, .calls 0 cancelledJob, .readsJob 0, .readsState 0, .marks 0 true,
    .sweeps 0 0]

/-- A cancel of a job that runs: what it answers is kept. -/
theorem aborting_kept_calm : ∃ s,
    (cancelRuns .redis).exec (CancelState.init Driver.redis.marks) calmCancel = some s ∧
      AbortingKept Driver.redis.marks s 0 cancelledDelivery := by
  refine ⟨_, rfl, aborting_kept (l := calmCancel) (c := 0) (n := 1) rfl ?_ rfl rfl rfl ?_
    ?_ rfl rfl⟩
  · refine .cons trivial rfl (.cons trivial rfl (.cons trivial rfl (.cons trivial rfl
      (.cons trivial rfl (.cons ?_ rfl (.cons trivial rfl (.cons trivial rfl trivial)))))))
    intro cancel locked n hcancel hstage hactive
    cases hcancel
    cases hstage
    rfl
  · intro c' cancel' hcancel hjob
    cases c' with
    | zero => rfl
    | succ c' => cases hcancel
  · exact List.mem_cons_self

/-- The job is taken between the two reads of the cancel. -/
def racedCancel : List CancelEvent :=
  [.moves cancelledJob (some .waiting), .calls 0 cancelledJob, .readsJob 0,
    .hands cancelledJob 1 "invoice.send", .readsState 0, .marks 0 true, .enters cancelledDelivery 0,
    .sweeps 0 0]

/-- **A delivery that starts between the reads is never aborted.**  The cancel answers `aborting`,
the delivery that was active is still running when its runtime sweeps, and the sweep is given
nothing. -/
theorem aborting_broken : ∃ s t cancel,
    (cancelRuns .redis).exec (CancelState.init Driver.redis.marks) racedCancel = some s ∧
      s.cancels 0 = some cancel ∧ cancel.stage = .answered .aborting ∧ cancel.target = some 1 ∧
      Alone s 0 cancel.job ∧ cancelledDelivery ∈ s.handed ∧ cancelledDelivery ∈ s.live 0 ∧
      cancelledDelivery.job = cancel.job ∧ cancelledDelivery.attemptsStarted = 1 ∧
      s.expired cancel.job = false ∧
      (cancelRuns .redis).exec s [.takes 0] = some t ∧ t.sweeps 0 = some ⟨[], []⟩ ∧
      t.reasons cancelledDelivery.controller = none ∧
      ¬ AbortingKept Driver.redis.marks s 0 cancelledDelivery := by
  refine ⟨_, _, _, rfl, rfl, rfl, rfl, ?_, List.mem_cons_self, List.mem_cons_self, rfl, rfl, rfl,
    rfl, rfl, rfl, fun hkept => ?_⟩
  · intro c' cancel' hcancel hjob
    cases c' with
    | zero => rfl
    | succ c' => cases hcancel
  · rcases hkept.found 0 [cancelledDelivery] [] _ rfl rfl List.mem_cons_self rfl with
      ⟨sweep, hsweep, hmem⟩ | ⟨find, hfind, -⟩
    · cases hsweep
      cases hmem
    · cases hfind

end Jubs
