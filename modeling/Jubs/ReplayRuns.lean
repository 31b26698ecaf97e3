/-
**What replays do to a dead record and to the queue, whatever fails.**

Each step of a replay is a move from one stage to another with at most one effect.  From the moves
of one replay follows the list of its own effects in every stage, and from that what becomes of the
record.

Main definitions:

* `Jubs.ReplayEffect`, `Jubs.Moves` — the effects of a replay, and what each of its steps can do;
* `Jubs.Traced` — the effects of a replay in each of its stages;
* `Jubs.RecordContract` — what holds of the record, its replays and the queue.

Main results:

* `Jubs.replayStep_moves` — **every step of a replay is one of the moves**;
* `Jubs.traced_moves` — a move keeps the trace of its replay;
* `Jubs.Traced.of_removed` — a replay removes the record after its enqueue succeeded;
* `Jubs.record_contract_of_exec` — **the contract, in every run**.
-/

import Jubs.Replay

set_option autoImplicit false

namespace Jubs

/-! ### The moves of one replay -/

/-- An effect of a replay outside itself. -/
inductive ReplayEffect where
  | nothing
  | forgets
  | stores (request : EnqueueRequest) (jobId : String) (answered : Bool)
  | removes

section

variable {σ ι ρ : Type} [DecidableEq ι] [DecidableEq ρ]

/-- An effect of the replay `r`. -/
def ReplayRun.apply (S : Store σ) (s : ReplayRun σ ι ρ) (r : ρ) : ReplayEffect → ReplayRun σ ι ρ
  | .nothing => s
  | .forgets =>
      { s with
        keyed := { s.keyed with store := (S.forget s.keyed.store).1 }
        log := s.log ++ [.forgot r] }
  | .stores request jobId answered => s.note [.enqueued r request jobId answered]
  | .removes => s.drop (.removed r)

end

/-- **What a step of a replay can do**: the stage it leaves, its effect, and the stage it leads
to. -/
inductive Moves (key : String) (record : BuriedRecord) (definitions : List JobDefinition) :
    ReplayStage → ReplayEffect → ReplayStage → Prop where
  | unread {phase : ReplayPhase} {error : Thrown} (hphase : phase = .calling ∨ phase = .reading) :
      Moves key record definitions .reading .nothing (.rejected phase error)
  | reads : Moves key record definitions .reading .nothing .planning
  | plans {plan : ReplayPlan} (hplan : planReplay definitions record = some (.ok plan)) :
      Moves key record definitions .planning .nothing (.forgetting plan)
  | unplanned {error : Thrown} :
      Moves key record definitions .planning .nothing (.rejected .planning error)
  | held {plan : ReplayPlan} {error : Thrown} :
      Moves key record definitions (.forgetting plan) .nothing (.rejected .held error)
  | elsewhere {plan : ReplayPlan} {request : EnqueueRequest} (hkey : plan.key ≠ some key)
      (hrequest : plan.request record = .ok request) :
      Moves key record definitions (.forgetting plan) .nothing (.enqueueing plan request)
  | unresolved {plan : ReplayPlan} {error : Thrown} :
      Moves key record definitions (.forgetting plan) .nothing (.rejected .resolving error)
  | forgets {plan : ReplayPlan} {request : EnqueueRequest} (hkey : plan.key = some key)
      (hrequest : plan.request record = .ok request) :
      Moves key record definitions (.forgetting plan) .forgets (.enqueueing plan request)
  | forgotten {plan : ReplayPlan} {error : Thrown} :
      Moves key record definitions (.forgetting plan) .forgets (.rejected .resolving error)
  | unforgotten {plan : ReplayPlan} {error : Thrown} :
      Moves key record definitions (.forgetting plan) .nothing (.rejected .forgetting error)
  | unheard {plan : ReplayPlan} {error : Thrown} :
      Moves key record definitions (.forgetting plan) .forgets (.rejected .forgetting error)
  | stores {plan : ReplayPlan} {request : EnqueueRequest} {jobId : String} :
      Moves key record definitions (.enqueueing plan request) (.stores request jobId true)
        (.removing plan request jobId)
  | storesUnheard {plan : ReplayPlan} {request : EnqueueRequest} {jobId : String} {error : Thrown} :
      Moves key record definitions (.enqueueing plan request) (.stores request jobId false)
        (.rejected .enqueueing error)
  | unstored {plan : ReplayPlan} {request : EnqueueRequest} {error : Thrown} :
      Moves key record definitions (.enqueueing plan request) .nothing (.rejected .enqueueing error)
  | removes {plan : ReplayPlan} {request : EnqueueRequest} {jobId : String} :
      Moves key record definitions (.removing plan request jobId) .removes
        (.resolved plan request jobId)
  | removesUnheard {plan : ReplayPlan} {request : EnqueueRequest} {jobId : String}
      {error : Thrown} :
      Moves key record definitions (.removing plan request jobId) .removes
        (.rejected .removing error)
  | unremoved {plan : ReplayPlan} {request : EnqueueRequest} {jobId : String} {error : Thrown} :
      Moves key record definitions (.removing plan request jobId) .nothing
        (.rejected .removing error)

/-- A store that refuses to forget a key leaves it as it is. -/
def Store.RefusesWhole {σ : Type} (S : Store σ) : Prop :=
  ∀ k, (S.forget k).2 = .running → (S.forget k).1 = k

theorem RedisKey.eq_of_cell {k k' : RedisKey} (h : k.cell = k'.cell) : k = k' := by
  cases k
  cases k'
  cases h
  rfl

theorem redisStore_refusesWhole : redisStore.RefusesWhole := by
  intro k hrunning
  have hview : (redisStore.view k).forget.2 = .running :=
    (redisStore.answer_forget k).symm.trans hrunning
  refine RedisKey.eq_of_cell (k := k.after .forget) ?_
  rcases k.cases_cell with h | ⟨token, expiresAt, h⟩ | ⟨kept, expiresAt, h⟩
  · simp [redisStore, h, KeyState.forget] at hview
  · simp [Redis.after, forgetLua, h]
  · simp [redisStore, h, KeyState.forget] at hview

theorem memoryStore_refusesWhole : memoryStore.RefusesWhole := by
  intro k hrunning
  have hview : (memoryStore.view k).forget.2 = .running :=
    (memoryStore.answer_forget k).symm.trans hrunning
  rcases k.cases_key with rfl | ⟨token, rfl⟩ | ⟨json, -, h⟩
  · cases hview
  · rfl
  · simp [memoryStore, MemoryKey.view_of_kept h, KeyState.forget] at hview

/-- Both drivers leave a key they refuse to forget as it is. -/
theorem Driver.refusesWhole : ∀ driver : Driver, driver.store.RefusesWhole
  | .redis => redisStore_refusesWhole
  | .memory => memoryStore_refusesWhole

section

variable {σ ι ρ : Type} [DecidableEq ι] [DecidableEq ρ] {S : Store σ} {key : String}
  {record : BuriedRecord} {definitions : List JobDefinition} {s t : ReplayRun σ ι ρ} {r : ρ}

omit [DecidableEq ι] [DecidableEq ρ] in
/-- The forget step of a replay on the key under study: it is refused, or it is an effect. -/
theorem forgetFor_eq (hS : S.RefusesWhole) (s : ReplayRun σ ι ρ) (r : ρ) :
    ((S.forget s.keyed.store).2 = .running ∧ s.forgetFor S r = s) ∨
      ((S.forget s.keyed.store).2 ≠ .running ∧ s.forgetFor S r = s.apply S r .forgets) := by
  by_cases h : (S.forget s.keyed.store).2 = .running
  · refine Or.inl ⟨h, ?_⟩
    simp [ReplayRun.forgetFor, h, hS _ h]
  · exact Or.inr ⟨h, by simp [ReplayRun.forgetFor, ReplayRun.apply, h]⟩

/-- What follows an answer of `forget` that deleted nothing of the key under study. -/
theorem Moves.of_afterForget_elsewhere {plan : ReplayPlan} {outcome : ForgetOutcome}
    (hkey : plan.key ≠ some key) :
    Moves key record definitions (.forgetting plan) .nothing (plan.afterForget record outcome) := by
  unfold ReplayPlan.afterForget
  split
  · exact .held
  · split
    · rename_i hrequest
      exact .elsewhere hkey hrequest
    · exact .unresolved

/-- What follows a forget of the key under study that no delivery held. -/
theorem Moves.of_afterForget {plan : ReplayPlan} {outcome : ForgetOutcome}
    (hkey : plan.key = some key) (houtcome : outcome ≠ .running) :
    Moves key record definitions (.forgetting plan) .forgets (plan.afterForget record outcome) := by
  rw [ReplayPlan.afterForget, if_neg houtcome]
  split
  · rename_i hrequest
    exact .forgets hkey hrequest
  · exact .forgotten

omit [DecidableEq ι] in
/-- **Every step of a replay is one of the moves**; the key is forgotten only when no delivery holds
it. -/
theorem replayStep_moves (hS : S.RefusesWhole) {step : ReplayStep}
    (h : replayStep S key record definitions s r step = some t) :
    ∃ effect stage, Moves key record definitions (s.replays r) effect stage ∧
      t = (s.apply S r effect).stand r stage ∧
      (effect = .forgets → (S.forget s.keyed.store).2 ≠ .running) := by
  unfold replayStep at h
  split at h
  case h_1 inAtomicBlock fate hstage =>
    obtain rfl := Option.some_inj.1 h
    rw [hstage]
    refine ⟨.nothing, _, ?_, rfl, fun h => (by cases h)⟩
    split
    · exact .unread (Or.inl rfl)
    · split
      · exact .unread (Or.inr rfl)
      · exact .unread (Or.inr rfl)
      · exact .reads
  case h_2 hstage =>
    obtain ⟨planned, hplan, rfl⟩ := Option.map_eq_some_iff.1 h
    rw [hstage]
    cases planned with
    | error e => exact ⟨.nothing, _, .unplanned, rfl, fun h => (by cases h)⟩
    | ok plan => exact ⟨.nothing, _, .plans hplan, rfl, fun h => (by cases h)⟩
  case h_3 fate elsewhere plan hstage =>
    rw [hstage]
    split at h
    · rename_i hkey
      obtain rfl := Option.some_inj.1 h
      refine ⟨.nothing, _, ?_, rfl, fun h => (by cases h)⟩
      exact Moves.of_afterForget_elsewhere (by simp [hkey])
    · split at h
      · rename_i hkey
        obtain rfl := Option.some_inj.1 h
        rcases forgetFor_eq hS s r with ⟨hrunning, heq⟩ | ⟨hfree, heq⟩
        · refine ⟨.nothing, _, ?_, by rw [heq, ite_self]; rfl, fun h => (by cases h)⟩
          rw [hrunning]
          split
          · rename_i houtcome
            cases fate with
            | answers =>
                obtain rfl := Except.ok.inj houtcome
                exact .held
            | fails error tookEffect => cases houtcome
          · exact .unforgotten
        · cases fate with
          | answers =>
              exact ⟨.forgets, _, .of_afterForget hkey hfree, by rw [← heq]; rfl, fun _ => hfree⟩
          | fails error tookEffect =>
              cases tookEffect with
              | true => exact ⟨.forgets, _, .unheard, by rw [← heq]; rfl, fun _ => hfree⟩
              | false => exact ⟨.nothing, _, .unforgotten, rfl, fun h => (by cases h)⟩
      · rename_i hkey
        obtain rfl := Option.some_inj.1 h
        refine ⟨.nothing, _, ?_, rfl, fun h => (by cases h)⟩
        split
        · exact Moves.of_afterForget_elsewhere hkey
        · exact .unforgotten
  case h_4 jobId fate plan request hstage =>
    obtain rfl := Option.some_inj.1 h
    rw [hstage]
    cases fate with
    | answers => exact ⟨_, _, .stores, rfl, fun h => (by cases h)⟩
    | fails error tookEffect =>
        cases tookEffect with
        | true => exact ⟨_, _, .storesUnheard, rfl, fun h => (by cases h)⟩
        | false => exact ⟨_, _, .unstored, rfl, fun h => (by cases h)⟩
  case h_5 fate plan request jobId hstage =>
    obtain rfl := Option.some_inj.1 h
    rw [hstage]
    cases fate with
    | answers => exact ⟨_, _, .removes, rfl, fun h => (by cases h)⟩
    | fails error tookEffect =>
        cases tookEffect with
        | true => exact ⟨_, _, .removesUnheard, rfl, fun h => (by cases h)⟩
        | false => exact ⟨_, _, .unremoved, rfl, fun h => (by cases h)⟩
  case h_6 => cases h

end

/-! ### The trace of one replay -/

section

variable {ι ρ : Type} [DecidableEq ρ]

/-- The replay an event is an effect of. -/
def ReplayEvent.replay? : ReplayEvent ι ρ → Option ρ
  | .forgot r | .enqueued r _ _ _ | .removed r => some r
  | .discarded | .ended _ | .completed _ | .gaveBack _ _ => none

/-- The effects of one replay. -/
def effectsOf (r : ρ) (log : List (ReplayEvent ι ρ)) : List (ReplayEvent ι ρ) :=
  log.filter fun event => event.replay? = some r

theorem effectsOf_append (r : ρ) (log log' : List (ReplayEvent ι ρ)) :
    effectsOf r (log ++ log') = effectsOf r log ++ effectsOf r log' :=
  List.filter_append ..

theorem mem_effectsOf {r : ρ} {log : List (ReplayEvent ι ρ)} {event : ReplayEvent ι ρ}
    (h : event.replay? = some r) : event ∈ effectsOf r log ↔ event ∈ log := by
  simp [effectsOf, h]

/-- What the forget step of a plan did to the key under study. -/
def ReplayPlan.forgotBy (plan : ReplayPlan) (key : String) (r : ρ) : List (ReplayEvent ι ρ) :=
  if plan.key = some key then [.forgot r] else []

/-- A plan that a replay of the record makes, and a request for what was buried. -/
structure Planned (record : BuriedRecord) (definitions : List JobDefinition) (plan : ReplayPlan)
    (request : EnqueueRequest) : Prop where
  made : planReplay definitions record = some (.ok plan)
  asks : plan.request record = .ok request

/-- **The effects of a replay in each of its stages**, in their order. -/
def Traced (key : String) (record : BuriedRecord) (definitions : List JobDefinition) (r : ρ)
    (effects : List (ReplayEvent ι ρ)) : ReplayStage → Prop
  | .reading | .planning => effects = []
  | .forgetting plan => planReplay definitions record = some (.ok plan) ∧ effects = []
  | .enqueueing plan request =>
      Planned record definitions plan request ∧ effects = plan.forgotBy key r
  | .removing plan request jobId =>
      Planned record definitions plan request ∧
        effects = plan.forgotBy key r ++ [.enqueued r request jobId true]
  | .resolved plan request jobId =>
      Planned record definitions plan request ∧
        (effects = plan.forgotBy key r ++ [.enqueued r request jobId true] ∨
          effects = plan.forgotBy key r ++ [.enqueued r request jobId true, .removed r])
  | .rejected .enqueueing _ =>
      ∃ plan request, Planned record definitions plan request ∧
        (effects = plan.forgotBy key r ∨
          ∃ jobId, effects = plan.forgotBy key r ++ [.enqueued r request jobId false])
  | .rejected .removing _ =>
      ∃ plan request jobId, Planned record definitions plan request ∧
        (effects = plan.forgotBy key r ++ [.enqueued r request jobId true] ∨
          effects = plan.forgotBy key r ++ [.enqueued r request jobId true, .removed r])
  | .rejected phase _ => effects = [] ∨ phase.beforeForget = false ∧ effects = [.forgot r]

/-- What an effect adds to the trace of its replay.  A removal is noted when the record was
there. -/
def ReplayEffect.events (r : ρ) (kept : Bool) : ReplayEffect → List (ReplayEvent ι ρ)
  | .nothing => []
  | .forgets => [.forgot r]
  | .stores request jobId answered => [.enqueued r request jobId answered]
  | .removes => if kept then [.removed r] else []

omit [DecidableEq ρ] in
/-- **A move keeps the trace of its replay.** -/
theorem traced_moves {key : String} {record : BuriedRecord} {definitions : List JobDefinition}
    {stage stage' : ReplayStage} {effect : ReplayEffect} {r : ρ} {effects : List (ReplayEvent ι ρ)}
    (h : Traced key record definitions r effects stage)
    (hmove : Moves key record definitions stage effect stage') (kept : Bool) :
    Traced key record definitions r (effects ++ effect.events r kept) stage' := by
  cases hmove with
  | unread hphase =>
      obtain rfl : effects = [] := h
      rcases hphase with rfl | rfl
      · exact Or.inl rfl
      · exact Or.inl rfl
  | reads =>
      obtain rfl : effects = [] := h
      rfl
  | plans hplan =>
      obtain rfl : effects = [] := h
      exact ⟨hplan, rfl⟩
  | unplanned =>
      obtain rfl : effects = [] := h
      exact Or.inl rfl
  | held =>
      obtain ⟨-, rfl⟩ := h
      exact Or.inl rfl
  | elsewhere hkey hrequest =>
      obtain ⟨hplan, rfl⟩ := h
      exact ⟨⟨hplan, hrequest⟩, by simp [ReplayPlan.forgotBy, hkey, ReplayEffect.events]⟩
  | unresolved =>
      obtain ⟨-, rfl⟩ := h
      exact Or.inl rfl
  | forgets hkey hrequest =>
      obtain ⟨hplan, rfl⟩ := h
      exact ⟨⟨hplan, hrequest⟩, by simp [ReplayPlan.forgotBy, hkey, ReplayEffect.events]⟩
  | forgotten =>
      obtain ⟨-, rfl⟩ := h
      exact Or.inr ⟨rfl, rfl⟩
  | unforgotten =>
      obtain ⟨-, rfl⟩ := h
      exact Or.inl rfl
  | unheard =>
      obtain ⟨-, rfl⟩ := h
      exact Or.inr ⟨rfl, rfl⟩
  | stores =>
      obtain ⟨hplanned, rfl⟩ := h
      exact ⟨hplanned, rfl⟩
  | storesUnheard =>
      obtain ⟨hplanned, rfl⟩ := h
      exact ⟨_, _, hplanned, Or.inr ⟨_, rfl⟩⟩
  | unstored =>
      obtain ⟨hplanned, rfl⟩ := h
      exact ⟨_, _, hplanned, Or.inl (List.append_nil _)⟩
  | removes =>
      obtain ⟨hplanned, rfl⟩ := h
      refine ⟨hplanned, ?_⟩
      cases kept with
      | true => exact Or.inr (List.append_assoc ..)
      | false => exact Or.inl (List.append_nil _)
  | @removesUnheard plan request jobId error =>
      obtain ⟨hplanned, rfl⟩ := h
      refine ⟨plan, request, jobId, hplanned, ?_⟩
      cases kept with
      | true => exact Or.inr (List.append_assoc ..)
      | false => exact Or.inl (List.append_nil _)
  | unremoved =>
      obtain ⟨hplanned, rfl⟩ := h
      exact ⟨_, _, _, hplanned, Or.inl (List.append_nil _)⟩

end

/-! ### The record, in every run -/

section

variable {ι ρ : Type} [DecidableEq ι] [DecidableEq ρ] {driver : Driver} {key : String}
  {record : BuriedRecord} {definitions : ρ → List JobDefinition} {definition : ι → JobDefinition}
  {jobOf : ι → Option ρ} {s t : ReplayRun driver.Key ι ρ} {a : ReplayAct ι ρ}

omit [DecidableEq ι] [DecidableEq ρ] in
/-- An effect adds its events to the log. -/
theorem ReplayRun.log_apply (s : ReplayRun driver.Key ι ρ) (r : ρ) (effect : ReplayEffect) :
    (s.apply driver.store r effect).log = s.log ++ effect.events r s.kept := by
  cases effect with
  | nothing => exact (List.append_nil _).symm
  | forgets => rfl
  | stores request jobId answered => rfl
  | removes =>
      cases hkept : s.kept with
      | true => simp [ReplayRun.apply, ReplayRun.drop, ReplayEffect.events, hkept]
      | false => simp [ReplayRun.apply, ReplayRun.drop, ReplayEffect.events, hkept]

/-- What a step that is no replay's does to the record and the log. -/
structure Aside (s t : ReplayRun driver.Key ι ρ) : Prop where
  replays : t.replays = s.replays
  log : ∃ events, t.log = s.log ++ events ∧ ∀ event ∈ events, event.replay? = none
  kept : t.kept = false → s.kept = false ∨ .discarded ∈ t.log

omit [DecidableEq ι] [DecidableEq ρ] in
theorem Aside.of_eq (hreplays : t.replays = s.replays) (hlog : t.log = s.log)
    (hkept : t.kept = s.kept) : Aside s t :=
  ⟨hreplays, ⟨[], by simp [hlog], by simp⟩, fun h => Or.inl (hkept ▸ h)⟩

omit [DecidableEq ι] [DecidableEq ρ] in
theorem Aside.of_note {events : List (ReplayEvent ι ρ)} (hreplays : t.replays = s.replays)
    (hlog : t.log = s.log ++ events) (hevents : ∀ event ∈ events, event.replay? = none)
    (hkept : t.kept = s.kept) : Aside s t :=
  ⟨hreplays, ⟨events, hlog, hevents⟩, fun h => Or.inl (hkept ▸ h)⟩

/-- **A step that is no replay's leaves the replays alone**, and drops the record only by a
discard. -/
theorem aside_of_replayRun (hnone : a.replay? = none)
    (h : replayRun driver key record definitions definition jobOf s a = some t) : Aside s t := by
  cases a with
  | replay r step => cases hnone
  | discard fate =>
      obtain rfl := Option.some_inj.1 h
      cases htook : fate.tookEffect with
      | false => exact .of_eq rfl rfl rfl
      | true =>
          cases hkept : s.kept with
          | false =>
              exact .of_eq rfl (by simp [ReplayRun.drop, hkept]) (by simp [ReplayRun.drop, hkept])
          | true =>
              have hlog : (s.drop .discarded).log = s.log ++ [.discarded] := by
                simp [ReplayRun.drop, hkept]
              refine ⟨rfl, ⟨[.discarded], hlog, by simp [ReplayEvent.replay?]⟩, fun _ => Or.inr ?_⟩
              show .discarded ∈ (s.drop .discarded).log
              simp [hlog]
  | acquire i token now fate =>
      simp only [replayRun] at h
      split at h
      · split at h
        · cases h
        · obtain rfl := Option.some_inj.1 h
          refine .of_note rfl rfl ?_ rfl
          intro event hevent
          unfold ReplayRun.given at hevent
          split at hevent
          · obtain rfl := List.mem_singleton.1 hevent
            rfl
          · cases hevent
      · cases h
  | act i b =>
      obtain ⟨d, -, rfl⟩ := Option.map_eq_some_iff.1 h
      cases hends : b.endsBody with
      | false => exact .of_eq rfl rfl rfl
      | true =>
          have hevents : ∀ event ∈ [(.ended i : ReplayEvent ι ρ)], event.replay? = none := by
            simp [ReplayEvent.replay?]
          exact .of_note rfl rfl hevents rfl
  | call i now fate =>
      simp only [replayRun] at h
      split at h
      · rename_i token call result hstage
        obtain rfl := Option.some_inj.1 h
        cases fate.tookEffect with
        | false => exact .of_eq rfl rfl rfl
        | true =>
            cases hrecorded : (driver.store.view s.keyed.store).records driver token call with
            | false => exact .of_eq rfl (by simp [ReplayRun.settle, hrecorded]) rfl
            | true =>
                have hlog : (s.settle driver i now token call).log = s.log ++ [.completed i] := by
                  simp [ReplayRun.settle, hrecorded]
                exact .of_note rfl hlog (by simp [ReplayEvent.replay?]) rfl
      · cases h
  | renew i now =>
      obtain ⟨token, -, rfl⟩ := Option.map_eq_some_iff.1 h
      exact .of_eq rfl rfl rfl
  | forget =>
      obtain rfl := Option.some_inj.1 h
      exact .of_eq rfl rfl rfl
  | expire =>
      obtain rfl := Option.some_inj.1 h
      exact .of_eq rfl rfl rfl

/-- A replay's step, seen from the whole machine. -/
theorem replayRun_moves {r : ρ} (ha : a.replay? = some r)
    (h : replayRun driver key record definitions definition jobOf s a = some t) :
    ∃ effect stage, Moves key record (definitions r) (s.replays r) effect stage ∧
      t = (s.apply driver.store r effect).stand r stage ∧
      (effect = .forgets → (driver.store.forget s.keyed.store).2 ≠ .running) := by
  cases a with
  | replay r' step =>
      obtain rfl := Option.some_inj.1 ha
      exact replayStep_moves driver.refusesWhole h
  | _ => cases ha

/-- **What every run keeps**: the traces of the replays, and why the record is gone. -/
structure RecordInv (key : String) (record : BuriedRecord) (definitions : ρ → List JobDefinition)
    (s : ReplayRun driver.Key ι ρ) : Prop where
  traced : ∀ r, Traced key record (definitions r) r (effectsOf r s.log) (s.replays r)
  dropped : s.kept = false → .discarded ∈ s.log ∨ ∃ r, .removed r ∈ s.log

omit [DecidableEq ι] in
theorem recordInv_init : RecordInv key record definitions
    (ReplayRun.init driver : ReplayRun _ ι ρ) where
  traced _ := rfl
  dropped h := by cases h

omit [DecidableEq ι] in
theorem effectsOf_of_none {r : ρ} {events : List (ReplayEvent ι ρ)}
    (h : ∀ event ∈ events, event.replay? = none) : effectsOf r events = [] := by
  refine List.filter_eq_nil_iff.2 fun event hevent => ?_
  simp [h event hevent]

omit [DecidableEq ι] in
/-- What an effect of the replay `r` adds to the trace of `r'`. -/
theorem effectsOf_events (r r' : ρ) (kept : Bool) (effect : ReplayEffect) :
    effectsOf (ι := ι) r' (effect.events r kept) = if r = r' then effect.events r kept else [] := by
  have hown : ∀ event ∈ effect.events (ι := ι) r kept, event.replay? = some r := by
    cases effect with
    | removes => cases kept <;> simp [ReplayEffect.events, ReplayEvent.replay?]
    | _ => simp [ReplayEffect.events, ReplayEvent.replay?]
  split
  · rename_i hr
    subst hr
    exact List.filter_eq_self.2 fun event hevent => by simp [hown event hevent]
  · rename_i hr
    exact List.filter_eq_nil_iff.2 fun event hevent => by simp [hown event hevent, hr]

theorem recordInv_step (hs : RecordInv key record definitions s)
    (h : replayRun driver key record definitions definition jobOf s a = some t) :
    RecordInv key record definitions t := by
  cases ha : a.replay? with
  | none =>
      obtain ⟨hreplays, ⟨events, hlog, hevents⟩, hkept⟩ := aside_of_replayRun ha h
      refine ⟨fun r => ?_, fun hgone => ?_⟩
      · rw [hreplays, hlog, effectsOf_append, effectsOf_of_none hevents, List.append_nil]
        exact hs.traced r
      · rcases hkept hgone with hbefore | hdiscarded
        · rw [hlog]
          rcases hs.dropped hbefore with hdiscarded | ⟨r, hr⟩
          · exact Or.inl (List.mem_append_left _ hdiscarded)
          · exact Or.inr ⟨r, List.mem_append_left _ hr⟩
        · exact Or.inl hdiscarded
  | some r =>
      obtain ⟨effect, stage, hmove, rfl, -⟩ := replayRun_moves ha h
      refine ⟨fun r' => ?_, fun hgone => ?_⟩
      · show Traced key record (definitions r') r'
          (effectsOf r' (s.apply driver.store r effect).log)
          (Function.update (s.apply driver.store r effect).replays r stage r')
        rw [s.log_apply, effectsOf_append, effectsOf_events]
        have hreplays : (s.apply driver.store r effect).replays = s.replays := by
          cases effect <;> rfl
        by_cases hr : r' = r
        · subst hr
          rw [if_pos rfl, Function.update_self]
          exact traced_moves (hs.traced r') hmove s.kept
        · rw [if_neg (Ne.symm hr), List.append_nil, Function.update_of_ne hr, hreplays]
          exact hs.traced r'
      · show .discarded ∈ (s.apply driver.store r effect).log ∨
          ∃ r', .removed r' ∈ (s.apply driver.store r effect).log
        rw [s.log_apply]
        cases hkept : s.kept with
        | false =>
            rcases hs.dropped hkept with hdiscarded | ⟨r', hr'⟩
            · exact Or.inl (List.mem_append_left _ hdiscarded)
            · exact Or.inr ⟨r', List.mem_append_left _ hr'⟩
        | true =>
            have hgone : (s.apply driver.store r effect).kept = false := hgone
            cases effect with
            | removes => exact Or.inr ⟨r, by simp [ReplayEffect.events]⟩
            | _ => simp [ReplayRun.apply, ReplayRun.note, hkept] at hgone

/-! ### The contract of the record -/

/-- The job that an event stored for a replay. -/
def ReplayEvent.storedFor (r : ρ) : ReplayEvent ι ρ → Option (EnqueueRequest × String)
  | .enqueued r' request jobId _ => if r' = r then some (request, jobId) else none
  | _ => none

/-- The jobs the driver stored for a replay. -/
def jobsOf (r : ρ) (log : List (ReplayEvent ι ρ)) : List (EnqueueRequest × String) :=
  log.filterMap (ReplayEvent.storedFor r)

/-- **What holds of a dead record and its replays**, whatever fails. -/
structure RecordContract (record : BuriedRecord) (s : ReplayRun driver.Key ι ρ) : Prop where
  /-- The record is gone by a discard, or after an enqueue of the buried envelope that succeeded. -/
  gone : s.kept = false → .discarded ∈ s.log ∨
    ∃ r request jobId, [.enqueued r request jobId true, .removed r].Sublist s.log ∧
      request.envelope = record.entry.envelope
  /-- A replay that rejected before or at its enqueue never removed the record. -/
  leaves : ∀ r phase error, s.replays r = .rejected phase error → phase ≠ .removing →
    .removed r ∉ s.log
  /-- A replay that resolved stored one job, with the buried envelope, and answered its id. -/
  resolved : ∀ r id, (s.replays r).answer = some (.ok id) →
    ∃ request jobId, jobsOf r s.log = [(request, jobId)] ∧
      request.envelope = record.entry.envelope ∧ id = composeJobId request.queue jobId

omit [DecidableEq ι] in
/-- Only the effects of a replay store jobs for it. -/
theorem jobsOf_effectsOf (r : ρ) (log : List (ReplayEvent ι ρ)) :
    jobsOf r (effectsOf r log) = jobsOf r log := by
  rw [jobsOf, effectsOf, List.filterMap_filter, jobsOf]
  congr 1
  funext event
  cases event with
  | enqueued r' request jobId answered =>
      by_cases hr : r' = r <;> simp [ReplayEvent.replay?, ReplayEvent.storedFor, hr]
  | _ => simp [ReplayEvent.storedFor]

omit [DecidableEq ι] [DecidableEq ρ] in
theorem removed_notMem_forgotBy (plan : ReplayPlan) (r : ρ) :
    .removed r ∉ (plan.forgotBy key r : List (ReplayEvent ι ρ)) := by
  unfold ReplayPlan.forgotBy
  split <;> simp

/-- What a replay has stored and removed, after what it forgot: nothing yet, one job, or one job and
the record. -/
inductive StoredTail (r : ρ) (request : EnqueueRequest) : List (ReplayEvent ι ρ) → Prop
  | none : StoredTail r request []
  | stored (jobId : String) (answered : Bool) :
      StoredTail r request [.enqueued r request jobId answered]
  | removed (jobId : String) : StoredTail r request [.enqueued r request jobId true, .removed r]

omit [DecidableEq ι] [DecidableEq ρ] in
/-- The effects of a replay in any of its stages. -/
theorem Traced.shape {definitions : List JobDefinition} {r : ρ} {effects : List (ReplayEvent ι ρ)}
    {stage : ReplayStage} (h : Traced key record definitions r effects stage) :
    effects = [] ∨ effects = [.forgot r] ∨ ∃ plan request tail,
      Planned record definitions plan request ∧ StoredTail r request tail ∧
        effects = plan.forgotBy key r ++ tail := by
  have hlast : ∀ {plan : ReplayPlan} {request jobId}, Planned record definitions plan request →
      (effects = plan.forgotBy key r ++ [.enqueued r request jobId true] ∨
        effects = plan.forgotBy key r ++ [.enqueued r request jobId true, .removed r]) →
      ∃ plan request tail, Planned record definitions plan request ∧
        StoredTail r request tail ∧ effects = plan.forgotBy key r ++ tail := by
    rintro plan request jobId hplanned (heq | heq)
    · exact ⟨plan, request, _, hplanned, .stored jobId true, heq⟩
    · exact ⟨plan, request, _, hplanned, .removed jobId, heq⟩
  cases stage with
  | reading => exact Or.inl h
  | planning => exact Or.inl h
  | forgetting plan => exact Or.inl h.2
  | enqueueing plan request =>
      exact Or.inr (Or.inr ⟨plan, request, [], h.1, .none, by simpa using h.2⟩)
  | removing plan request jobId => exact Or.inr (Or.inr (hlast h.1 (Or.inl h.2)))
  | resolved plan request jobId => exact Or.inr (Or.inr (hlast h.1 h.2))
  | rejected phase error =>
      cases phase with
      | enqueueing =>
          obtain ⟨plan, request, hplanned, heq | ⟨jobId, heq⟩⟩ := h
          · exact Or.inr (Or.inr ⟨plan, request, [], hplanned, .none, by simpa using heq⟩)
          · exact Or.inr (Or.inr ⟨plan, request, _, hplanned, .stored jobId false, heq⟩)
      | removing =>
          obtain ⟨plan, request, jobId, hplanned, heffects⟩ := h
          exact Or.inr (Or.inr (hlast hplanned heffects))
      | _ =>
          rcases h with heq | ⟨-, heq⟩
          · exact Or.inl heq
          · exact Or.inr (Or.inl heq)

omit [DecidableEq ι] [DecidableEq ρ] in
/-- **A replay removes the record after its enqueue succeeded.** -/
theorem Traced.of_removed {definitions : List JobDefinition} {r : ρ}
    {effects : List (ReplayEvent ι ρ)} {stage : ReplayStage}
    (h : Traced key record definitions r effects stage) (hmem : .removed r ∈ effects) :
    ∃ plan request jobId, Planned record definitions plan request ∧
      effects = plan.forgotBy key r ++ [.enqueued r request jobId true, .removed r] := by
  rcases h.shape with rfl | rfl | ⟨plan, request, tail, hplanned, htail, rfl⟩
  · cases hmem
  · simp at hmem
  · have hmem : .removed r ∈ tail :=
      (List.mem_append.1 hmem).resolve_left (removed_notMem_forgotBy plan r)
    cases htail with
    | none => cases hmem
    | stored jobId answered => simp at hmem
    | removed jobId => exact ⟨plan, request, jobId, hplanned, rfl⟩

omit [DecidableEq ι] [DecidableEq ρ] in
/-- A replay that removed the record rejects in the removal only. -/
theorem Traced.phase_of_removed {definitions : List JobDefinition} {r : ρ}
    {effects : List (ReplayEvent ι ρ)} {phase : ReplayPhase} {error : Thrown}
    (h : Traced key record definitions r effects (.rejected phase error))
    (hmem : .removed r ∈ effects) : phase = .removing := by
  cases phase with
  | removing => rfl
  | enqueueing =>
      obtain ⟨plan, request, -, rfl | ⟨jobId, rfl⟩⟩ := h
      · exact absurd hmem (removed_notMem_forgotBy plan r)
      · simp [removed_notMem_forgotBy] at hmem
  | _ =>
      rcases h with rfl | ⟨-, rfl⟩
      · cases hmem
      · simp at hmem

omit [DecidableEq ι] [DecidableEq ρ] in
/-- **A replay that plans with the key stores a job after it forgot the key.** -/
theorem Traced.forgot_of_enqueued {definitions : List JobDefinition} {r : ρ}
    {effects : List (ReplayEvent ι ρ)} {stage : ReplayStage} {request : EnqueueRequest}
    {jobId : String} {answered : Bool} (h : Traced key record definitions r effects stage)
    (hmem : .enqueued r request jobId answered ∈ effects)
    (hkey : replayKey definitions record = some key) : .forgot r ∈ effects := by
  rcases h.shape with rfl | rfl | ⟨plan, request', tail, hplanned, -, rfl⟩
  · cases hmem
  · exact List.mem_singleton_self _
  · have hplan : plan.key = some key := by simpa [replayKey, hplanned.made] using hkey
    simp [ReplayPlan.forgotBy, hplan]

omit [DecidableEq ι] in
/-- A replay that resolved enqueued one job. -/
theorem Traced.jobsOf_of_resolved {definitions : List JobDefinition} {r : ρ}
    {effects : List (ReplayEvent ι ρ)} {plan : ReplayPlan} {request : EnqueueRequest}
    {jobId : String} (h : Traced key record definitions r effects (.resolved plan request jobId)) :
    jobsOf r effects = [(request, jobId)] ∧ request.envelope = record.entry.envelope := by
  obtain ⟨hplanned, heffects⟩ := h
  refine ⟨?_, (ReplayPlan.request_eq_ok hplanned.asks).1⟩
  have hforgot : (plan.forgotBy key r : List (ReplayEvent ι ρ)).filterMap
      (ReplayEvent.storedFor r) = [] := by
    unfold ReplayPlan.forgotBy
    split <;> simp [ReplayEvent.storedFor]
  rcases heffects with rfl | rfl
  · simp [jobsOf, hforgot, ReplayEvent.storedFor]
  · simp [jobsOf, hforgot, ReplayEvent.storedFor]

omit [DecidableEq ι] in
theorem RecordInv.contract (hs : RecordInv key record definitions s) : RecordContract record s where
  gone hgone := by
    rcases hs.dropped hgone with hdiscarded | ⟨r, hr⟩
    · exact Or.inl hdiscarded
    · obtain ⟨plan, request, jobId, hplanned, heffects⟩ :=
        (hs.traced r).of_removed ((mem_effectsOf rfl).2 hr)
      refine Or.inr ⟨r, request, jobId, ?_, (ReplayPlan.request_eq_ok hplanned.asks).1⟩
      have hsub : [.enqueued r request jobId true, .removed r].Sublist (effectsOf r s.log) := by
        rw [heffects]
        exact List.sublist_append_right ..
      exact hsub.trans List.filter_sublist
  leaves r phase error hstage hphase hr := by
    have htraced := hs.traced r
    rw [hstage] at htraced
    exact hphase (htraced.phase_of_removed ((mem_effectsOf rfl).2 hr))
  resolved r id hanswer := by
    cases hstage : s.replays r with
    | resolved plan request jobId =>
        rw [hstage] at hanswer
        have htraced := hs.traced r
        rw [hstage] at htraced
        obtain ⟨hjobs, henvelope⟩ := htraced.jobsOf_of_resolved
        refine ⟨request, jobId, ?_, henvelope, ?_⟩
        · rw [← jobsOf_effectsOf, hjobs]
        · exact (Except.ok.inj (Option.some_inj.1 hanswer)).symm
    | _ => simp [hstage, ReplayStage.answer] at hanswer

omit [DecidableEq ι] in
/-- A delivery of a replay's job finds that the replay forgot the key. -/
theorem RecordInv.forgot_of_delivers (hs : RecordInv key record definitions s) {r : ρ}
    (h : s.delivers key record definitions (some r) = true) : .forgot r ∈ s.log := by
  simp only [ReplayRun.delivers, Bool.and_eq_true, decide_eq_true_eq] at h
  obtain ⟨event, hevent, hmatch⟩ := List.any_eq_true.1 h.1
  cases event with
  | enqueued r' request jobId answered =>
      obtain rfl : r' = r := by simpa using hmatch
      exact (mem_effectsOf rfl).1
        ((hs.traced r').forgot_of_enqueued ((mem_effectsOf rfl).2 hevent) h.2)
  | _ => cases hmatch

/-- **The contract of the record holds in every run**, whatever fails. -/
theorem record_contract_of_exec {l : List (ReplayAct ι ρ)}
    (h : (replayRun driver key record definitions definition jobOf).exec
      (.init driver) l = some s) :
    RecordContract record s :=
  (Machine.exec_invariant (P := RecordInv key record definitions) (fun _ _ _ => recordInv_step) h
    recordInv_init).contract

end

end Jubs
