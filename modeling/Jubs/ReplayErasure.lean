/-
**A replay that rejects before it forgets the key changes nothing at all.**

Where a replay stands is seen by its own steps only, and up to the forget of the key these have no
effect.  So the steps of a replay that was refused can be left out of a run: the others are taken as
before, and lead to the same record, the same queue and the same key.

Main definitions:

* `Jubs.ReplayStage.untouching` — the stages before any effect;
* `Jubs.without` — a run without the steps of one replay.

Main results:

* `Jubs.replayRun_stand` — no other step sees where a replay stands;
* `Jubs.exec_without` — **the steps of a replay before its effects can be left out**.
-/

import Jubs.ReplayRuns

set_option autoImplicit false

namespace Jubs

section

variable {ι ρ : Type} [DecidableEq ι] [DecidableEq ρ] {driver : Driver} {key : String}
  {record : BuriedRecord} {definitions : ρ → List JobDefinition} {definition : ι → JobDefinition}
  {jobOf : ι → Option ρ} {s t : ReplayRun driver.Key ι ρ} {a : ReplayAct ι ρ}

/-! ### The stages before any effect -/

/-- A stage that a replay reaches before it had any effect. -/
def ReplayStage.untouching : ReplayStage → Bool
  | .reading | .planning | .forgetting _ => true
  | .rejected phase _ => phase.beforeForget
  | .enqueueing _ _ | .removing _ _ _ | .resolved _ _ _ => false

omit [DecidableEq ι] [DecidableEq ρ] in
/-- A move that leads to a stage before any effect has none, and leaves such a stage. -/
theorem Moves.of_untouching {definitions : List JobDefinition} {stage stage' : ReplayStage}
    {effect : ReplayEffect} (h : Moves key record definitions stage effect stage')
    (hstage : stage'.untouching = true) : stage.untouching = true ∧ effect = .nothing := by
  cases h with
  | unread _ => exact ⟨rfl, rfl⟩
  | reads => exact ⟨rfl, rfl⟩
  | plans _ => exact ⟨rfl, rfl⟩
  | unplanned => exact ⟨rfl, rfl⟩
  | held => exact ⟨rfl, rfl⟩
  | _ => cases hstage

omit [DecidableEq ι] in
theorem ReplayRun.stand_comm (s : ReplayRun driver.Key ι ρ) {r r' : ρ} (h : r' ≠ r)
    (stage stage' : ReplayStage) :
    (s.stand r stage).stand r' stage' = (s.stand r' stage').stand r stage := by
  simp [ReplayRun.stand, Function.update_comm h]

omit [DecidableEq ι] in
theorem ReplayRun.stand_stand (s : ReplayRun driver.Key ι ρ) (r : ρ) (stage stage' : ReplayStage) :
    (s.stand r stage).stand r stage' = s.stand r stage' := by
  simp [ReplayRun.stand]

omit [DecidableEq ι] in
/-- **A step of another replay does not see where a replay stands.** -/
theorem replayStep_stand {definitions : List JobDefinition} {r r' : ρ} (h : r' ≠ r)
    (s : ReplayRun driver.Key ι ρ) (stage : ReplayStage) (step : ReplayStep) :
    replayStep driver.store key record definitions (s.stand r stage) r' step =
      (replayStep driver.store key record definitions s r' step).map (·.stand r stage) := by
  have hsame : (s.stand r stage).replays r' = s.replays r' := Function.update_of_ne h ..
  unfold replayStep
  rw [hsame]
  cases step with
  | read inAtomicBlock fate =>
      cases s.replays r' with
      | reading => exact congrArg some (s.stand_comm h _ _)
      | _ => rfl
  | plan =>
      cases s.replays r' with
      | planning =>
          cases planReplay definitions record with
          | none => rfl
          | some planned =>
              cases planned with
              | error error => exact congrArg some (s.stand_comm h _ _)
              | ok plan => exact congrArg some (s.stand_comm h _ _)
      | _ => rfl
  | forget fate elsewhere =>
      cases s.replays r' with
      | forgetting plan =>
          by_cases hnone : plan.key = none
          · simp only [hnone, if_true]
            exact congrArg some (s.stand_comm h _ _)
          · by_cases hkey : plan.key = some key
            · simp only [hkey, if_neg (Option.some_ne_none key), if_true]
              cases fate.tookEffect with
              | false => exact congrArg some (s.stand_comm h _ _)
              | true => exact congrArg some ((s.forgetFor driver.store r').stand_comm h _ _)
            · simp only [hnone, hkey, if_false]
              exact congrArg some (s.stand_comm h _ _)
      | _ => rfl
  | enqueue jobId fate =>
      cases s.replays r' with
      | enqueueing plan request =>
          cases htook : fate.tookEffect with
          | false =>
              simp only [htook, Bool.false_eq_true, if_false]
              exact congrArg some (s.stand_comm h _ _)
          | true =>
              simp only [htook, if_true]
              exact congrArg some ((s.note _).stand_comm h _ _)
      | _ => rfl
  | remove fate =>
      cases s.replays r' with
      | removing plan request jobId =>
          cases htook : fate.tookEffect with
          | false =>
              simp only [htook, Bool.false_eq_true, if_false]
              exact congrArg some (s.stand_comm h _ _)
          | true =>
              simp only [htook, if_true]
              exact congrArg some ((s.drop _).stand_comm h _ _)
      | _ => rfl

/-- Nothing but a replay's own steps sees where it stands. -/
theorem replayRun_stand {r : ρ} (h : a.replay? ≠ some r) (s : ReplayRun driver.Key ι ρ)
    (stage : ReplayStage) :
    replayRun driver key record definitions definition jobOf (s.stand r stage) a =
      (replayRun driver key record definitions definition jobOf s a).map (·.stand r stage) := by
  cases a with
  | replay r' step => exact replayStep_stand (fun heq => h (congrArg some heq)) s stage step
  | discard fate =>
      simp only [replayRun]
      cases fate.tookEffect with
      | false => rfl
      | true => rfl
  | acquire i token now fate =>
      have hsame : (s.stand r stage).keyed = s.keyed := rfl
      have hdelivers : (s.stand r stage).delivers key record definitions (jobOf i) =
          s.delivers key record definitions (jobOf i) := by
        cases jobOf i <;> rfl
      simp only [replayRun, hsame, hdelivers]
      cases (s.keyed.deliveries i).stage with
      | arriving =>
          by_cases hopen : token ∈ s.keyed.minted ∨
              s.delivers key record definitions (jobOf i) = false
          · simp only [hopen, if_true, Option.map_none]
          · simp only [hopen, if_false]
            rfl
      | _ => rfl
  | act i b =>
      simp only [replayRun]
      show Option.map _ (act (definition i) (s.keyed.deliveries i) b) = _
      cases act (definition i) (s.keyed.deliveries i) b with
      | none => rfl
      | some d => rfl
  | call i now fate =>
      have hsame : (s.stand r stage).keyed = s.keyed := rfl
      simp only [replayRun, hsame]
      cases (s.keyed.deliveries i).stage with
      | settling token call result =>
          cases fate.tookEffect with
          | false =>
              simp only [Bool.false_eq_true, if_false]
              rfl
          | true =>
              simp only [if_true]
              rfl
      | _ => rfl
  | renew i now =>
      simp only [replayRun]
      show Option.map _ (s.keyed.deliveries i).renewing = _
      cases (s.keyed.deliveries i).renewing with
      | none => rfl
      | some token => rfl
  | forget => rfl
  | expire => rfl

/-! ### A run without the steps of a replay -/

/-- The steps of a run that are not the replay's. -/
def without (r : ρ) (l : List (ReplayAct ι ρ)) : List (ReplayAct ι ρ) :=
  l.filter fun a => a.replay? ≠ some r

/-- A replay that stands before its effects at the end of a step stood there at its start. -/
theorem untouching_of_step {r : ρ} (ht : (t.replays r).untouching = true)
    (h : replayRun driver key record definitions definition jobOf s a = some t) :
    (s.replays r).untouching = true := by
  cases ha : a.replay? with
  | none => rwa [← (aside_of_replayRun ha h).replays]
  | some r' =>
      obtain ⟨effect, stage, hmove, rfl, -⟩ := replayRun_moves ha h
      have hreplays : (s.apply driver.store r' effect).replays = s.replays := by
        cases effect <;> rfl
      by_cases hr : r = r'
      · subst hr
        simp only [ReplayRun.stand, Function.update_self] at ht
        exact (hmove.of_untouching ht).1
      · simpa [ReplayRun.stand, Function.update_of_ne hr, hreplays] using ht

theorem untouching_of_exec {r : ρ} {l : List (ReplayAct ι ρ)} (ht : (t.replays r).untouching = true)
    (h : (replayRun driver key record definitions definition jobOf).exec s l = some t) :
    (s.replays r).untouching = true := by
  by_contra hs
  refine Machine.exec_invariant (P := fun u => ¬ (u.replays r).untouching = true) ?_ h hs ht
  intro u a v hu huv hv
  exact hu (untouching_of_step hv huv)

/-- **The steps of a replay that stands before its effects can be left out**: the run without them
leads to the same state, but for where that replay stands. -/
theorem exec_without {r : ρ} {l : List (ReplayAct ι ρ)} (stage : ReplayStage)
    (ht : (t.replays r).untouching = true)
    (h : (replayRun driver key record definitions definition jobOf).exec s l = some t) :
    (replayRun driver key record definitions definition jobOf).exec (s.stand r stage)
    (without r l) =
      some (t.stand r stage) := by
  induction l generalizing s with
  | nil =>
      obtain rfl := Option.some_inj.1 h
      rfl
  | cons a l ih =>
      obtain ⟨u, hu, hut⟩ := Machine.exec_cons_iff.1 h
      by_cases ha : a.replay? = some r
      · obtain ⟨effect, stage', hmove, rfl, -⟩ := replayRun_moves ha hu
        have hstage : stage'.untouching = true := by
          simpa [ReplayRun.stand] using untouching_of_exec ht hut
        obtain ⟨-, rfl⟩ := hmove.of_untouching hstage
        have hsame : ((s.apply driver.store r .nothing).stand r stage').stand r stage =
            s.stand r stage := s.stand_stand r stage' stage
        rw [without, List.filter_cons_of_neg (by simp [ha]), ← hsame]
        exact ih hut
      · rw [without, List.filter_cons_of_pos (by simp [ha])]
        refine Machine.exec_cons_iff.2 ⟨u.stand r stage, ?_, ih hut⟩
        rw [replayRun_stand ha, hu, Option.map_some]

/-- A replay that rejected before it forgot the key changed nothing at all. -/
theorem exec_without_rejected {r : ρ} {l : List (ReplayAct ι ρ)} {phase : ReplayPhase}
    {error : Thrown} (hstage : t.replays r = .rejected phase error)
    (hphase : phase.beforeForget = true)
    (h : (replayRun driver key record definitions definition jobOf).exec
      (.init driver) l = some t) :
    (replayRun driver key record definitions definition jobOf).exec (.init driver) (without r l) =
      some (t.stand r .reading) := by
  have hinit : (ReplayRun.init driver : ReplayRun driver.Key ι ρ).stand r .reading = .init driver :=
    congrArg (fun replays => { (ReplayRun.init driver : ReplayRun driver.Key ι ρ) with
      replays := replays }) (Function.update_eq_self r _)
  have ht : (t.replays r).untouching = true := by
    rw [hstage]
    exact hphase
  rw [← hinit, ← exec_without .reading ht h, hinit]

end

end Jubs
