/-
**How long a holder that stopped keeps a job waiting.**

A delivery that meets a held key is postponed, a tenth of a second at first and twice as long every
time, up to a second.  A holder renews its lease while it runs; one whose process died does not, and
its lease runs out.  Until then the waiting job is delivered and postponed, among calls that anybody
else makes on the key.

Main definitions:

* `Jubs.heldRetryDelayMs`, `Jubs.postponedFor` — one postponement, and the least that a number of
  them take;
* `Jubs.Cell.at` — what Redis keeps under a key at a moment;
* `Jubs.StoreAct`, `Jubs.WaitingJob`, `Jubs.waitingRun` — the calls on a key, and a job that waits
  for it;
* `Jubs.WaitingAct.Spares` — the acts of everybody but the holder.

Main results:

* `Jubs.held_of_after` — a key is held by a token only as it was before, unless the token is used;
* `Jubs.WaitingInv.step` — what each step keeps;
* `Jubs.held_retries` — **a holder that stopped postpones a job no more than 33 times**.
-/

import Jubs.RedisIdempotency
import Mathlib.Algebra.BigOperators.Group.List.Basic

set_option autoImplicit false

namespace Jubs

/-! ### Postponements -/

/-- `HELD_RETRY_FLOOR_MS`. -/
def heldRetryFloorMs : ℕ := 100

/-- `HELD_RETRY_MS`. -/
def heldRetryMs : ℕ := 1000

/-- `heldRetryDelayMs(deliveriesStarted)`. -/
def heldRetryDelayMs (deliveriesStarted : ℕ) : ℕ :=
  min (heldRetryFloorMs * 2 ^ (deliveriesStarted - 1)) heldRetryMs

/-- What the first `n` postponements of a job take at least. -/
def postponedFor : ℕ → ℕ
  | 0 => 0
  | n + 1 => postponedFor n + heldRetryDelayMs (n + 1)

theorem heldRetryDelayMs_mono {n m : ℕ} (h : n ≤ m) : heldRetryDelayMs n ≤ heldRetryDelayMs m := by
  unfold heldRetryDelayMs
  have hpow : 2 ^ (n - 1) ≤ 2 ^ (m - 1) := Nat.pow_le_pow_right (by decide)
    (Nat.sub_le_sub_right h 1)
  exact min_le_min_right _ (Nat.mul_le_mul_left _ hpow)

theorem postponedFor_mono {n m : ℕ} (h : n ≤ m) : postponedFor n ≤ postponedFor m := by
  induction h with
  | refl => exact le_rfl
  | step _ ih => exact ih.trans (Nat.le_add_right _ _)

/-- The postponements that fit into a lease. -/
theorem lt_of_postponedFor_lt {n : ℕ} (h : postponedFor n < idempotencyLeaseMs) : n < 33 := by
  by_contra hle
  have hmono := postponedFor_mono (not_lt.1 hle)
  have hlast : postponedFor 33 = 30500 := by decide
  have hlease : ((idempotencyLeaseMs : ℕ+) : ℕ) = 30000 := rfl
  omega

/-! ### The key, moment by moment -/

/-- What Redis keeps under the key at a moment: nothing that has expired. -/
def Cell.at (now : ℕ) (c : Cell) : Cell := c.filter fun e => now < e.expiresAt

theorem Cell.at_eq_some_iff {now : ℕ} {c : Cell} {e : Entry} :
    c.at now = some e ↔ c = some e ∧ now < e.expiresAt := by
  simp [Cell.at, Option.filter_eq_some_iff]

/-- A call on the key, as the store makes it. -/
inductive StoreAct where
  | acquire (token : String)
  | renew (token : String)
  | complete (token : String) (kept : KeptResult)
  | release (token : String)
  | forget

/-- The call of the script, at a moment. -/
def StoreAct.at (now : ℕ) : StoreAct → Redis.Call
  | .acquire token => .acquire token idempotencyLeaseMs now
  | .renew token => .renew token idempotencyLeaseMs now
  | .complete token kept => .complete token kept idempotencyResultRetentionMs now
  | .release token => .release token
  | .forget => .forget

/-- A call that is not made under the token. -/
def StoreAct.Spares (t : String) : StoreAct → Prop
  | .acquire token | .renew token | .complete token _ | .release token => token ≠ t
  | .forget => True

/-- **A key is held by a token only as it was before**, when the token is not used. -/
theorem held_of_after {t : String} {call : StoreAct} (hspares : call.Spares t) {now : ℕ} {c : Cell}
    {e : Entry} (h : Redis.after c (call.at now) = some e) (he : e.value = heldBy t) :
    c = some e := by
  have hother : ∀ token, token ≠ t → heldBy token ≠ heldBy t := fun token => mt heldBy_inj.1
  cases call with
  | acquire token =>
      cases c with
      | some current => exact h
      | none =>
          obtain rfl := Option.some.inj h
          exact absurd he (hother token hspares)
  | renew token =>
      simp only [StoreAct.at, Redis.after, renewLua] at h
      split_ifs at h with hget
      · obtain rfl := Option.some.inj h
        exact absurd he (hother token hspares)
      · exact h
  | complete token kept =>
      simp only [StoreAct.at, Redis.after, completeLua] at h
      split_ifs at h with hget
      · exact h
      · obtain rfl := Option.some.inj h
        exact absurd he.symm (heldBy_ne_text t kept)
  | release token =>
      simp only [StoreAct.at, Redis.after, releaseLua] at h
      split_ifs at h with hget
      exact h
  | forget =>
      cases c with
      | none => cases h
      | some current =>
          simp only [StoreAct.at, Redis.after, forgetLua] at h
          split_ifs at h with hheld
          exact h

/-! ### A job that waits -/

/-- A key, and a job that waits for it: when it is due, how often it was delivered, and what it met
under the key every time it was postponed, with the moment, the last one first. -/
structure WaitingJob where
  cell : Cell
  now : ℕ
  due : ℕ
  started : ℕ
  waiting : Bool
  met : List (ℕ × String)

/-- An act on the key, at a moment. -/
inductive WaitingAct where
  /-- Somebody calls the store. -/
  | called (now : ℕ) (call : StoreAct)
  /-- The job is delivered and draws a token; when it is postponed, that is asked for later. -/
  | delivered (now asked : ℕ) (token : String)

/-- An act that is not the holder's. -/
def WaitingAct.Spares (t : String) : WaitingAct → Prop
  | .called _ call => call.Spares t
  | .delivered _ _ token => token ≠ t

/-- One delivery: the key is acquired, and a delivery that meets it held is moved to delayed. -/
def WaitingJob.deliver (s : WaitingJob) (now asked : ℕ) (token : String) : WaitingJob :=
  let c := s.cell.at now
  let delivered := { s with
    cell := (acquireLua (heldBy token) idempotencyLeaseMs now c).1
    now := asked
    started := s.started + 1 }
  match Redis.acquired c token idempotencyLeaseMs now with
  | .ok .held => { delivered with
      due := asked + heldRetryDelayMs (s.started + 1)
      met := (now, c.get.getD "") :: s.met }
  | _ => { delivered with waiting := false }

/-- **The machine.**  Time does not go back, and no job is delivered before it is due. -/
def waitingRun : Machine WaitingJob WaitingAct
  | s, .called now call =>
      if s.now ≤ now then
        some { s with cell := Redis.after (s.cell.at now) (call.at now), now := now }
      else none
  | s, .delivered now asked token =>
      if s.waiting = true ∧ s.now ≤ now ∧ s.due ≤ now ∧ now ≤ asked then
        some (s.deliver now asked token)
      else none

/-- The postponements by one holder. -/
def WaitingJob.metBy (s : WaitingJob) (t : String) : List (ℕ × String) :=
  s.met.filter fun p => p.2 = heldBy t

/-- What holds of a job that waits for the key of a holder that stopped: the lease runs out when it
did, the job met it before, and every postponement was waited for. -/
structure WaitingInv (t : String) (since expiresAt : ℕ) (s : WaitingJob) : Prop where
  lease : ∀ e, s.cell = some e → e.value = heldBy t → e.expiresAt = expiresAt
  before : ∀ p ∈ s.metBy t, p.1 < expiresAt
  started : (s.metBy t).length ≤ s.started
  later : since ≤ s.now
  due : s.waiting = true → s.metBy t ≠ [] → since + postponedFor (s.metBy t).length ≤ s.due
  count : ∀ n, (s.metBy t).length = n + 1 → since + postponedFor n < expiresAt

namespace WaitingInv

variable {t : String} {since expiresAt : ℕ} {s s' : WaitingJob}

theorem called (h : WaitingInv t since expiresAt s) {now : ℕ} {call : StoreAct}
    (hspares : call.Spares t) (hnow : s.now ≤ now) : WaitingInv t since expiresAt
      { s with cell := Redis.after (s.cell.at now) (call.at now), now := now } := by
  refine ⟨?_, h.before, h.started, h.later.trans hnow, h.due, h.count⟩
  intro e hcell he
  have hbefore := held_of_after hspares hcell he
  exact h.lease e (Cell.at_eq_some_iff.1 hbefore).1 he

theorem delivered (h : WaitingInv t since expiresAt s) {now asked : ℕ} {token : String}
    (htoken : token ≠ t) (hwaiting : s.waiting = true) (hnow : s.now ≤ now) (hdue : s.due ≤ now)
    (hasked : now ≤ asked) : WaitingInv t since expiresAt (s.deliver now asked token) := by
  have hlease : ∀ e, (acquireLua (heldBy token) idempotencyLeaseMs now (s.cell.at now)).1 = some e →
      e.value = heldBy t → e.expiresAt = expiresAt := by
    intro e hcell he
    have hspares : StoreAct.Spares t (.acquire token) := htoken
    have hbefore := @held_of_after t (.acquire token) hspares now (s.cell.at now) e hcell he
    exact h.lease e (Cell.at_eq_some_iff.1 hbefore).1 he
  have hwaited : since + postponedFor (s.metBy t).length ≤ now := by
    cases hmet : s.metBy t with
    | nil => exact h.later.trans hnow
    | cons p l => exact hmet ▸ (h.due hwaiting (by simp [hmet])).trans hdue
  unfold WaitingJob.deliver
  simp only
  split
  · rename_i hheld
    -- a delivery is postponed by what it meets under the key
    obtain ⟨current, hcurrent⟩ : ∃ current, s.cell.at now = some current := by
      cases hcell : s.cell.at now with
      | some current => exact ⟨current, rfl⟩
      | none =>
          rw [hcell] at hheld
          cases hheld
    obtain ⟨hcell, hliving⟩ := Cell.at_eq_some_iff.1 hcurrent
    rw [hcurrent] at hlease ⊢
    by_cases hholder : current.value = heldBy t
    · have hbefore : now < expiresAt := h.lease current hcell hholder ▸ hliving
      have hmet : WaitingJob.metBy { s with
          cell := (acquireLua (heldBy token) idempotencyLeaseMs now (some current)).1
          now := asked
          started := s.started + 1
          due := asked + heldRetryDelayMs (s.started + 1)
          met := (now, (Cell.get (some current)).getD "") :: s.met } t =
            (now, current.value) :: s.metBy t := by
        simp [WaitingJob.metBy, Cell.get, hholder]
      have hdelay : heldRetryDelayMs ((s.metBy t).length + 1) ≤ heldRetryDelayMs (s.started + 1) :=
        heldRetryDelayMs_mono (Nat.succ_le_succ h.started)
      constructor
      · exact hlease
      · rw [hmet]
        exact List.forall_mem_cons.2 ⟨hbefore, h.before⟩
      · rw [hmet]
        exact Nat.succ_le_succ h.started
      · exact h.later.trans (hnow.trans hasked)
      · intro _ _
        rw [hmet, List.length_cons, postponedFor]
        show _ ≤ asked + heldRetryDelayMs (s.started + 1)
        omega
      · intro n hn
        rw [hmet, List.length_cons] at hn
        obtain rfl : (s.metBy t).length = n := Nat.succ.inj hn
        exact lt_of_le_of_lt hwaited hbefore
    · have hmet : WaitingJob.metBy { s with
          cell := (acquireLua (heldBy token) idempotencyLeaseMs now (some current)).1
          now := asked
          started := s.started + 1
          due := asked + heldRetryDelayMs (s.started + 1)
          met := (now, (Cell.get (some current)).getD "") :: s.met } t = s.metBy t := by
        simp [WaitingJob.metBy, Cell.get, hholder]
      constructor
      · exact hlease
      · rw [hmet]
        exact h.before
      · rw [hmet]
        exact h.started.trans (Nat.le_succ _)
      · exact h.later.trans (hnow.trans hasked)
      · intro _ _
        rw [hmet]
        show _ ≤ asked + heldRetryDelayMs (s.started + 1)
        omega
      · rw [hmet]
        exact h.count
  · refine ⟨hlease, h.before, h.started.trans (Nat.le_succ _),
      h.later.trans (hnow.trans hasked), ?_, h.count⟩
    intro hwaiting
    cases hwaiting

/-- **What each step keeps**, unless it is the holder's. -/
theorem step (h : WaitingInv t since expiresAt s) {act : WaitingAct} (hspares : act.Spares t)
    (hstep : waitingRun s act = some s') : WaitingInv t since expiresAt s' := by
  cases act with
  | called now call =>
      simp only [waitingRun] at hstep
      split_ifs at hstep with hnow
      obtain rfl := Option.some.inj hstep
      exact h.called hspares hnow
  | delivered now asked token =>
      simp only [waitingRun] at hstep
      split_ifs at hstep with hguard
      obtain rfl := Option.some.inj hstep
      obtain ⟨hwaiting, hnow, hdue, hasked⟩ := hguard
      exact h.delivered hspares hwaiting hnow hdue hasked

end WaitingInv

/-- **What a holder that stopped costs a job that waits.** -/
structure HeldRetries (t : String) (s s' : WaitingJob) : Prop where
  /-- The job meets its lease no more than 33 times, -/
  bounded : (s'.metBy t).length ≤ 33
  /-- and not after the lease has run out. -/
  before : ∀ p ∈ s'.metBy t, ∀ e ∈ s.cell, p.1 < e.expiresAt
  /-- From then on the key is not held under its token. -/
  freed : ∀ e ∈ s.cell, e.expiresAt ≤ s'.now → (s'.cell.at s'.now).get ≠ some (heldBy t)

/-- **A holder that stopped postpones a job no more than 33 times**: from a moment at which its
lease has no more left than a renewal gives it, in every run in which nobody uses its token,
whatever else is called on the key. -/
theorem held_retries {t : String} {s s' : WaitingJob} {e : Entry} (hcell : s.cell = some e)
    (hmet : s.met = []) (hlease : e.expiresAt ≤ s.now + idempotencyLeaseMs)
    {acts : List WaitingAct} (hspares : ∀ act ∈ acts, act.Spares t)
    (h : waitingRun.exec s acts = some s') : HeldRetries t s s' := by
  have hinit : WaitingInv t s.now e.expiresAt s := by
    have hnone : s.metBy t = [] := by rw [WaitingJob.metBy, hmet, List.filter_nil]
    refine ⟨?_, ?_, ?_, le_rfl, ?_, ?_⟩
    · intro e' he' _
      rw [Option.some.inj (hcell.symm.trans he')]
    · rw [hnone]
      exact List.forall_mem_nil _
    · rw [hnone]
      exact Nat.zero_le _
    · intro _ hne
      exact absurd hnone hne
    · intro n hn
      rw [hnone] at hn
      cases hn
  have hinv : WaitingInv t s.now e.expiresAt s' := by
    refine Machine.exec_invariant_of (P := WaitingInv t s.now e.expiresAt) ?_ h hspares hinit
    exact fun _ _ _ hspares hinv hstep => hinv.step hspares hstep
  constructor
  · cases hlength : (s'.metBy t).length with
    | zero => exact Nat.zero_le _
    | succ n =>
        have hcount := hinv.count n hlength
        exact lt_of_postponedFor_lt (by omega)
  · intro p hp e' he'
    obtain rfl : e = e' := Option.some.inj (hcell.symm.trans he')
    exact hinv.before p hp
  · intro e' he' hnow hget
    obtain rfl : e = e' := Option.some.inj (hcell.symm.trans he')
    obtain ⟨living, hliving, hvalue⟩ := Option.map_eq_some_iff.1 hget
    obtain ⟨hcell', hlater⟩ := Cell.at_eq_some_iff.1 hliving
    rw [hinv.lease living hcell' hvalue] at hlater
    omega

/-! ### A lease that was waited for -/

/-- A job waits for a key whose holder stopped when it renewed its lease. -/
def stoppedHolder : WaitingJob :=
  ⟨some ⟨heldBy "a", 30000⟩, 0, 0, 0, true, []⟩

/-- The job is delivered as soon as it is due, every time. -/
def promptDeliveries : List WaitingAct :=
  (List.range 34).map fun n => .delivered (postponedFor n) (postponedFor n) "b"

/-- The bound is reached, and the 34th delivery takes the key. -/
theorem held_retries_example : ∃ s', waitingRun.exec stoppedHolder promptDeliveries = some s' ∧
    HeldRetries "a" stoppedHolder s' ∧ (s'.metBy "a").length = 33 ∧ s'.waiting = false := by
  refine ⟨_, rfl, @held_retries "a" stoppedHolder _ ⟨heldBy "a", 30000⟩ rfl rfl ?_
    promptDeliveries ?_ rfl, rfl, rfl⟩
  · decide
  · intro act hact
    obtain ⟨n, -, rfl⟩ := List.mem_map.1 hact
    show "b" ≠ "a"
    decide

end Jubs
