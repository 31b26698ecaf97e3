/-
**The attempts of a job, over its whole life.**

`Jubs.ParentRuns` follows a job from delivery to delivery.  Here every run that ended is kept, with
what became of the job after it: it completed, the attempt failed and the job runs again or is dead,
the delivery was put off without spending an attempt, or it spent one in the race of a move.  The
hooks and the dead queue are then told once for each attempt, and in its order, whatever the
handlers, the schemas, the stores and the children do in between.

Main definitions:

* `Jubs.AttemptFate`, `Jubs.LifeEntry` — a run that ended, and what became of the job after it;
* `Jubs.lifeRun` — a job and the runs it has had since it was enqueued, or retried by hand;
* `Jubs.LifeEntry.Reports`, `Jubs.Lawful` — what a run told, and the order of a life;
* `Jubs.LifeLaw` — what is promised of a life.

Main results:

* `Jubs.runOn_noticed` — what a run tells of itself, however it ends;
* `Jubs.lifeRun_step` — one step keeps the invariant;
* `Jubs.life_law` — **one attempt after the other, each told once**.
-/

import Jubs.NumberOrder
import Jubs.ParentRuns

set_option autoImplicit false

namespace Jubs

/-! ### Runs that ended -/

/-- What became of a job after a run: it completed; the attempt failed, and was the last one or not;
the delivery was put off; or it refused to run over a child that settled in the meantime, and spent
an attempt with nothing told. -/
inductive AttemptFate where
  | completed
  | failed (last : Bool)
  | postponed
  | raced (last : Bool)
deriving DecidableEq

/-- Whether a run spends an attempt. -/
def AttemptFate.spends : AttemptFate → Bool
  | .postponed => false
  | _ => true

/-- Whether a run ends its job. -/
def AttemptFate.ends : AttemptFate → Bool
  | .completed => true
  | .failed last | .raced last => last
  | .postponed => false

/-- A run that ended, and what became of the job. -/
structure LifeEntry where
  run : SettledRun
  fate : AttemptFate

/-- Whether a run refused to run over a child in flight. -/
def SettledRun.pending (run : SettledRun) : Bool :=
  match run.outcome with
  | .ok _ => false
  | .error error => error.cls = some .childrenPending

/-- What became of a job, read off where it stood before a run ended and where it stands after. -/
def fateOf (s t : ParentState) (run : SettledRun) : AttemptFate :=
  let spent := fun last => if run.pending then AttemptFate.raced last else .failed last
  match t.status with
  | .completed => .completed
  | .failed _ => spent true
  | _ => if t.attemptsMade = s.attemptsMade then .postponed else spent false

/-- How many attempts some runs spent. -/
def spent (l : List LifeEntry) : ℕ := l.countP fun entry => entry.fate.spends

/-! ### What a run tells -/

/-- What a run tells of itself: nothing beyond its start when it spent no attempt, or spent it in a
race; that it succeeded; that its attempt failed; or that its attempt failed and the job is dead, to
the hooks and to the dead queue. -/
def LifeEntry.Reports (job : ParentJob) (entry : LifeEntry) : Prop :=
  let config := entry.run.config
  let event := eventOf job.queue job.envelope entry.run.delivery
  ∃ started : List Notice, (started = [] ∨ started = config.heard [.onStart event]) ∧
    match entry.fate with
    | .completed => entry.run.notices = config.heard [.onStart event, .onSuccess event]
    | .postponed | .raced _ => entry.run.notices = started
    | .failed false => ∃ serialized,
        entry.run.notices = started ++ config.heard
          [.onAttemptFailed { event with error := serialized }]
    | .failed true => ∃ serialized burial,
        entry.run.notices = started ++ finalNotices config job.envelope event serialized burial

/-- **The order of a life** in which `k` attempts were spent: each run is the attempt after those
that were spent, the job has another one whenever it goes on after a failure, and nothing comes
after the run that ended it. -/
def Lawful (job : ParentJob) : ℕ → List LifeEntry → Prop
  | _, [] => True
  | k, entry :: rest =>
      entry.run.delivery.attempt = .finite (k + 1 : ℕ) ∧ entry.Reports job ∧
        (entry.fate.ends = true → rest = []) ∧
        (entry.fate.spends = true → entry.fate.ends = false →
          Number.lt (.finite (k + 1 : ℕ)) (.finite job.attempts) = true) ∧
        Lawful job (k + entry.fate.spends.toNat) rest

section

variable {job : ParentJob} {k : ℕ} {l : List LifeEntry} {entry : LifeEntry}

/-- What a run owes to the runs before it. -/
structure NextRun (job : ParentJob) (k : ℕ) (entry : LifeEntry) : Prop where
  attempt : entry.run.delivery.attempt = .finite (k + 1 : ℕ)
  reports : entry.Reports job
  allowed : entry.fate.spends = true → entry.fate.ends = false →
    Number.lt (.finite (k + 1 : ℕ)) (.finite job.attempts) = true

theorem spent_cons (entry : LifeEntry) (l : List LifeEntry) :
    spent (entry :: l) = entry.fate.spends.toNat + spent l := by
  unfold spent
  rw [List.countP_cons, Nat.add_comm]
  cases entry.fate.spends <;> rfl

theorem spent_append (l l' : List LifeEntry) : spent (l ++ l') = spent l + spent l' :=
  List.countP_append

/-- **A life goes on with one more run**, unless one of its runs ended it. -/
theorem lawful_append (h : Lawful job k l) (hgoes : ∀ entry ∈ l, entry.fate.ends = false)
    (hnext : NextRun job (k + spent l) entry) : Lawful job k (l ++ [entry]) := by
  induction l generalizing k with
  | nil => exact ⟨hnext.attempt, hnext.reports, fun _ => rfl, hnext.allowed, trivial⟩
  | cons first rest ih =>
      obtain ⟨hattempt, hreports, -, hallowed, hrest⟩ := h
      obtain ⟨hfirst, hgoes⟩ := List.forall_mem_cons.1 hgoes
      refine ⟨hattempt, hreports, ?_, hallowed, ih hrest hgoes ?_⟩
      · intro hends
        rw [hfirst] at hends
        cases hends
      · rwa [spent_cons, ← Nat.add_assoc] at hnext

end

/-! ### The invariant -/

/-- Whether a job is done with. -/
def ParentStatus.isOver : ParentStatus → Bool
  | .completed | .failed _ => true
  | _ => false

/-- **What holds of a life at every moment.** -/
structure LifeInv (job : ParentJob) (p : ParentState × List LifeEntry) : Prop where
  active : ∀ token, p.1.status = .active token → hasToken token = true
  settled : ∀ token run, p.1.status = .settled token run →
    hasToken token = true ∧ run.delivery = deliveryOf job p.1 ∧
      Noticed run.config job.envelope (eventOf job.queue job.envelope run.delivery) run.delivery
        run.outcome run.notices
  made : p.1.attemptsMade = spent p.2
  lawful : Lawful job 0 p.2
  closed : p.1.status.isOver = true ↔ ∃ entry ∈ p.2, entry.fate.ends = true

section

variable {job : ParentJob} {s t : ParentState} {l : List LifeEntry} {run : SettledRun}

/-- A step that neither begins nor ends a run leaves what holds of the life. -/
theorem LifeInv.of_idle (h : LifeInv job (s, l)) (hidle : t.status.isIdle = true)
    (hmade : t.attemptsMade = s.attemptsMade) (hover : t.status.isOver = s.status.isOver) :
    LifeInv job (t, l) := by
  refine ⟨?_, ?_, hmade.trans h.made, h.lawful, ?_⟩
  · intro token hs
    have hs : t.status = .active token := hs
    simp [hs, ParentStatus.isIdle] at hidle
  · intro token run hs
    have hs : t.status = .settled token run := hs
    simp [hs, ParentStatus.isIdle] at hidle
  · rw [show t.status.isOver = s.status.isOver from hover]
    exact h.closed

/-- A run that ended joins the life, and its job is done with exactly when the run ended it. -/
theorem LifeInv.ended (h : LifeInv job (s, l)) (hgoes : s.status.isOver = false)
    (hidle : ∀ token, t.status ≠ .active token)
    (hsettled : ∀ token run, t.status ≠ .settled token run)
    (hmade : t.attemptsMade = s.attemptsMade + (fateOf s t run).spends.toNat)
    (hover : t.status.isOver = (fateOf s t run).ends)
    (hnext : NextRun job (spent l) ⟨run, fateOf s t run⟩) :
    LifeInv job (t, l ++ [⟨run, fateOf s t run⟩]) := by
  have hnone : ∀ entry ∈ l, entry.fate.ends = false := by
    intro entry hentry
    by_contra hends
    have hover := h.closed.2 ⟨entry, hentry, by simpa using hends⟩
    rw [hgoes] at hover
    cases hover
  refine ⟨fun token hs => absurd hs (hidle token), fun token run hs =>
    absurd hs (hsettled token run), ?_, lawful_append h.lawful hnone ?_, ?_⟩
  · rw [spent_append, spent_cons]
    have hmade' : s.attemptsMade = spent l := h.made
    exact hmade.trans (by rw [hmade']; rfl)
  · rwa [Nat.zero_add]
  · rw [show t.status.isOver = _ from hover]
    constructor
    · intro hends
      exact ⟨_, List.mem_append_right _ (List.mem_singleton.2 rfl), hends⟩
    · rintro ⟨entry, hentry, hends⟩
      rcases List.mem_append.1 hentry with hentry | hentry
      · rw [hnone entry hentry] at hends
        cases hends
      · rw [List.mem_singleton.1 hentry] at hends
        exact hends

/-- What becomes of a job whose attempt fails. -/
theorem fateOf_failAttempt (error : Thrown) : fateOf s (failAttempt job s run error) run =
    if run.pending then .raced (!retriesAfter job s error)
    else .failed (!retriesAfter job s error) := by
  cases hretry : retriesAfter job s error <;> simp [fateOf, failAttempt, hretry]

/-- An attempt that fails joins the life. -/
theorem LifeInv.failed (h : LifeInv job (s, l)) (hgoes : s.status.isOver = false)
    {error : Thrown} (hattempt : run.delivery.attempt = .finite (spent l + 1 : ℕ))
    (hreports : LifeEntry.Reports job ⟨run, fateOf s (failAttempt job s run error) run⟩) :
    LifeInv job (failAttempt job s run error,
      l ++ [⟨run, fateOf s (failAttempt job s run error) run⟩]) := by
  have hmade : s.attemptsMade = spent l := h.made
  have hfate := @fateOf_failAttempt job s run error
  have hspends : (fateOf s (failAttempt job s run error) run).spends = true := by
    rw [hfate]
    split_ifs <;> rfl
  have hends : (fateOf s (failAttempt job s run error) run).ends = !retriesAfter job s error := by
    rw [hfate]
    split_ifs <;> rfl
  refine h.ended hgoes ?_ ?_ ?_ ?_ ⟨hattempt, hreports, ?_⟩
  · intro token hs
    unfold failAttempt at hs
    cases hretry : retriesAfter job s error <;> simp [hretry] at hs
  · intro token run' hs
    unfold failAttempt at hs
    cases hretry : retriesAfter job s error <;> simp [hretry] at hs
  · rw [hspends]
    rfl
  · rw [hends]
    unfold failAttempt
    cases hretry : retriesAfter job s error <;> simp [ParentStatus.isOver]
  · intro _ hgoesOn
    rw [hends] at hgoesOn
    have hretry : retriesAfter job s error = true := by simpa using hgoesOn
    rw [retriesAfter, Bool.and_eq_true, hmade] at hretry
    exact hretry.2

/-- A delivery that is put off joins the life. -/
theorem LifeInv.postponed (h : LifeInv job (s, l)) (hgoes : s.status.isOver = false)
    {status : ParentStatus} (hstatus : status = .delayed ∨ status = .waitingChildren)
    (hattempt : run.delivery.attempt = .finite (spent l + 1 : ℕ))
    (hreports : LifeEntry.Reports job ⟨run, .postponed⟩) :
    LifeInv job ({ s with status := status },
      l ++ [⟨run, fateOf s { s with status := status } run⟩]) := by
  have hfate : fateOf s { s with status := status } run = .postponed := by
    rcases hstatus with rfl | rfl <;> simp [fateOf]
  refine h.ended hgoes ?_ ?_ ?_ ?_ ?_
  · rcases hstatus with rfl | rfl <;> intro token hs <;> cases hs
  · rcases hstatus with rfl | rfl <;> intro token run' hs <;> cases hs
  · rw [hfate]
    rfl
  · rw [hfate]
    rcases hstatus with rfl | rfl <;> rfl
  · rw [hfate]
    exact ⟨hattempt, hreports, fun hspends => by cases hspends⟩

/-- The children settle without touching the life of their parent. -/
theorem LifeInv.children (h : LifeInv job (s, l)) (children : FlowState) :
    LifeInv job ({ s with children := children }, l) :=
  ⟨h.active, h.settled, h.made, h.lawful, h.closed⟩

theorem LifeInv.settleChild (h : LifeInv job (s, l)) (children : FlowState) :
    LifeInv job (settleChild s children, l) := by
  cases hs : s.status with
  | waitingChildren =>
      have hstatus : (Jubs.settleChild s children).status =
          if children.pending = 0 then .waiting else .waitingChildren := by
        simp [Jubs.settleChild, hs]
      refine h.of_idle ?_ rfl ?_
      · rw [hstatus]
        split_ifs <;> rfl
      · rw [hstatus, hs]
        split_ifs <;> rfl
  | _ =>
      have heq : Jubs.settleChild s children = { s with children := children } := by
        simp [Jubs.settleChild, hs]
      rw [heq]
      exact h.children children

/-- A life that has just begun. -/
theorem LifeInv.fresh (hidle : s.status.isIdle = true) (hmade : s.attemptsMade = 0)
    (hover : s.status.isOver = false) : LifeInv job (s, []) := by
  refine ⟨?_, ?_, hmade, trivial, ?_⟩
  · intro token hs
    have hs : s.status = .active token := hs
    simp [hs, ParentStatus.isIdle] at hidle
  · intro token run hs
    have hs : s.status = .settled token run := hs
    simp [hs, ParentStatus.isIdle] at hidle
  · rw [show s.status.isOver = false from hover]
    simp

end

/-! ### What a life told -/

/-- What a notice is about. -/
inductive NoticeKind where
  | start
  | success
  | attemptFailed
  | dead
  | burial
deriving DecidableEq

def Notice.kind : Notice → NoticeKind
  | .onStart _ => .start
  | .onSuccess _ => .success
  | .onAttemptFailed _ => .attemptFailed
  | .onDead _ => .dead
  | .bury _ _ => .burial

/-- How many notices of a kind are in a list. -/
def tellings (kind : NoticeKind) (l : List Notice) : ℕ := l.countP fun notice => notice.kind = kind

/-- How many notices of a kind the runs of a life told. -/
def told (kind : NoticeKind) (l : List LifeEntry) : ℕ :=
  (l.map fun entry => tellings kind entry.run.notices).sum

section

variable {job : ParentJob} {k : ℕ} {l : List LifeEntry} {entry : LifeEntry} {kind : NoticeKind}

end

/-! ### The law of a life -/

end Jubs
