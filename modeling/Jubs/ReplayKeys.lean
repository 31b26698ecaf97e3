/-
**The key that a replay forgets, and the deliveries that hold it.**

Leases may expire under a running body, and every call to the store may fail, so a delivery that
acts on the key need not hold it any more.  What each step of the machine does to the key, to one
delivery and to the log is said once, and what hangs together through all of them follows from it.

Main definitions:

* `Jubs.Stage.relies`, `Jubs.Body.hasEnded` — the possession a delivery has not ended yet, and
  whether its body has ended;
* `Jubs.KeyMove` — what a step does to the key and the deliveries;
* `Jubs.KeyedInv` — how the deliveries, the key and the log hang together.

Main results:

* `Jubs.act_keeps` — a delivery's own step ends no possession;
* `Jubs.keyMove_of_replayRun` — **every step is one of the moves**;
* `Jubs.keyedInv_step` — every step keeps the invariant.
-/

import Jubs.ReplayRuns

set_option autoImplicit false

namespace Jubs

/-! ### One delivery -/

/-- The token of a possession that a delivery has not ended yet. -/
def Stage.relies : Stage → Option String
  | .stopping _ => none
  | stage => stage.token

/-- A delivery that has started its handler. -/
def Stage.hasRun : Stage → Bool
  | .racing _ _ | .classifying _ _ | .detached _ _ | .settling _ _ _ | .stopping _ => true
  | .arriving | .holding _ | .ended => false

/-- Whether the function of a handler has returned or thrown. -/
def Body.hasEnded : Body → Bool
  | .checking _ | .settled _ => true
  | .idle | .executing => false

theorem Stage.token_of_relies {stage : Stage} {token : String} (h : stage.relies = some token) :
    stage.token = some token := by
  cases stage with
  | stopping token' => cases h
  | _ => exact h

/-- What a delivery's own step keeps of its possession and its body. -/
structure Keeps (d d' : KeyedDelivery) (a : Act) : Prop where
  relies : d'.stage.relies = d.stage.relies
  body : (d.stage.hasRun = true → d.body ≠ .idle) → d'.stage.hasRun = true → d'.body ≠ .idle
  ended : d'.body.hasEnded = (d.body.hasEnded || a.endsBody)

theorem relies_settleBody (d : KeyedDelivery) (outcome : Except Raised Value) :
    (d.settleBody outcome).stage.relies = d.stage.relies := by
  obtain ⟨stage, body, reason, renewing, result⟩ := d
  cases stage with
  | racing token race => cases race <;> rfl
  | _ => rfl

/-- **A delivery's own step ends no possession**, and its body ends with its own return or throw. -/
theorem act_keeps {definition : JobDefinition} {d d' : KeyedDelivery} {a : Act}
    (h : d.Consistent) (ha : act definition d a = some d') : Keeps d d' a := by
  unfold act at ha
  split at ha
  case h_1 token hstage =>
    obtain rfl := Option.some_inj.1 ha
    have hbody : d.body = .idle := by
      simp only [KeyedDelivery.Consistent, hstage] at h
      exact h.1
    exact ⟨by simp [hstage, Stage.relies, Stage.token], fun _ _ => by simp,
      by simp [hbody, Body.hasEnded, Act.endsBody]⟩
  case h_2 value hbody =>
    obtain rfl := Option.some_inj.1 ha
    exact ⟨rfl, fun _ _ => by simp, by simp [Body.hasEnded, Act.endsBody]⟩
  case h_3 raised hbody =>
    obtain rfl := Option.some_inj.1 ha
    exact ⟨relies_settleBody d _, fun _ _ => by simp [KeyedDelivery.settleBody],
      by simp [KeyedDelivery.settleBody, Body.hasEnded, Act.endsBody]⟩
  case h_4 value hbody =>
    obtain rfl := Option.some_inj.1 ha
    exact ⟨relies_settleBody d _, fun _ _ => by simp [KeyedDelivery.settleBody],
      by simp [KeyedDelivery.settleBody, hbody, Body.hasEnded]⟩
  case h_5 token race hstage =>
    obtain ⟨timeoutMs, -, rfl⟩ := Option.map_eq_some_iff.1 ha
    exact ⟨by simp [KeyedDelivery.expire, hstage, Stage.relies, Stage.token],
      fun hrun _ => hrun (by simp [hstage, Stage.hasRun]), (Bool.or_false _).symm⟩
  case h_6 token race hstage =>
    obtain rfl := Option.some_inj.1 ha
    exact ⟨rfl, fun hrun hran => hrun hran, (Bool.or_false _).symm⟩
  case h_7 token race hstage =>
    obtain rfl := Option.some_inj.1 ha
    exact ⟨rfl, fun hrun hran => hrun hran, (Bool.or_false _).symm⟩
  case h_8 token outcome hstage =>
    obtain rfl := Option.some_inj.1 ha
    exact ⟨by simp [hstage, Stage.relies, Stage.token],
      fun hrun _ => hrun (by simp [hstage, Stage.hasRun]), (Bool.or_false _).symm⟩
  case h_9 token error hstage =>
    obtain rfl := Option.some_inj.1 ha
    unfold KeyedDelivery.classifyError
    split
    · exact ⟨by simp [hstage, Stage.relies, Stage.token],
        fun hrun _ => hrun (by simp [hstage, Stage.hasRun]), (Bool.or_false _).symm⟩
    · exact ⟨by simp [hstage, Stage.relies, Stage.token],
        fun hrun _ => hrun (by simp [hstage, Stage.hasRun]), (Bool.or_false _).symm⟩
  case h_10 token result hstage =>
    obtain rfl := Option.some_inj.1 ha
    exact ⟨by simp [hstage, Stage.relies, Stage.token],
      fun hrun _ => hrun (by simp [hstage, Stage.hasRun]), (Bool.or_false _).symm⟩
  case h_11 token outcome hstage hbody =>
    obtain rfl := Option.some_inj.1 ha
    exact ⟨by simp [hstage, Stage.relies, Stage.token],
      fun hrun _ => hrun (by simp [hstage, Stage.hasRun]), (Bool.or_false _).symm⟩
  case h_12 outcome token hstage =>
    obtain rfl := Option.some_inj.1 ha
    exact ⟨by simp [hstage, Stage.relies, Stage.token],
      fun hrun _ => hrun (by simp [hstage, Stage.hasRun]), (Bool.or_false _).symm⟩
  case h_13 token hstage =>
    obtain rfl := Option.some_inj.1 ha
    exact ⟨by simp [hstage, Stage.relies, Stage.token], fun _ hran => (by cases hran),
      (Bool.or_false _).symm⟩
  case h_14 => cases ha

/-! ### What a step does to the key and the deliveries -/

/-- An event that says something about the key or the body of a delivery. -/
def ReplayEvent.aboutKey {ι ρ : Type} : ReplayEvent ι ρ → Bool
  | .forgot _ | .ended _ | .completed _ | .gaveBack _ _ => true
  | .enqueued _ _ _ _ | .removed _ | .discarded => false

section

variable {ι ρ : Type} [DecidableEq ι] [DecidableEq ρ] {driver : Driver} {key : String}
  {record : BuriedRecord} {definitions : ρ → List JobDefinition} {definition : ι → JobDefinition}
  {jobOf : ι → Option ρ} {s t : ReplayRun driver.Key ι ρ} {a : ReplayAct ι ρ}

/-- The state of the key. -/
def ReplayRun.view (s : ReplayRun driver.Key ι ρ) : KeyState := driver.store.view s.keyed.store

/-- Where a delivery stands. -/
def ReplayRun.stage (s : ReplayRun driver.Key ι ρ) (i : ι) : Stage := (s.keyed.deliveries i).stage

/-- **What a step does to the key and the deliveries.** -/
inductive KeyMove (key : String) (record : BuriedRecord) (definitions : ρ → List JobDefinition)
    (definition : ι → JobDefinition) (jobOf : ι → Option ρ) (s t : ReplayRun driver.Key ι ρ) :
    ReplayAct ι ρ → Prop where
  /-- No delivery moves, and the key is as it was or free. -/
  | rests {a : ReplayAct ι ρ} (events : List (ReplayEvent ι ρ))
      (hdeliveries : t.keyed.deliveries = s.keyed.deliveries)
      (hminted : t.keyed.minted = s.keyed.minted) (hwriter : t.writer = s.writer)
      (hlog : t.log = s.log ++ events) (hevents : ∀ event ∈ events, event.aboutKey = false)
      (hview : t.view = s.view ∨ t.view = .absent)
      (hheld : driver = .memory → ∀ token, s.view = .held token → t.view = .held token) :
      KeyMove key record definitions definition jobOf s t a
  | forgets {a : ReplayAct ι ρ} (r : ρ) (hdeliveries : t.keyed.deliveries = s.keyed.deliveries)
      (hminted : t.keyed.minted = s.keyed.minted) (hlog : t.log = s.log ++ [.forgot r])
      (hfree : ∀ token, s.view ≠ .held token) (hview : t.view = .absent) :
      KeyMove key record definitions definition jobOf s t a
  | takes {a : ReplayAct ι ρ} (i : ι) (token : String) (hstage : s.stage i = .arriving)
      (hnew : token ∉ s.keyed.minted) (hminted : t.keyed.minted = token :: s.keyed.minted)
      (hdeliveries : t.keyed.deliveries = Function.update s.keyed.deliveries i
        { s.keyed.deliveries i with stage := .holding token, renewing := some token })
      (hlog : t.log = s.log) (hfree : s.view = .absent) (hview : t.view = .held token) :
      KeyMove key record definitions definition jobOf s t a
  /-- A delivery is turned away, or loses the answer of a call that took the key. -/
  | leaves {a : ReplayAct ι ρ} (i : ι) (token : String) (result : Except Thrown Value)
      (hstage : s.stage i = .arriving)
      (hnew : token ∉ s.keyed.minted) (hminted : t.keyed.minted = token :: s.keyed.minted)
      (hdeliveries : t.keyed.deliveries = Function.update s.keyed.deliveries i
        { s.keyed.deliveries i with stage := .ended, result := some result })
      (hwriter : t.writer = s.writer) (hlog : t.log = s.log)
      (hview : t.view = s.view ∨ (s.view = .absent ∧ t.view = .held token)) :
      KeyMove key record definitions definition jobOf s t a
  | gives {a : ReplayAct ι ρ} (i : ι) (token : String) (result : Except Thrown Value)
      (hstage : s.stage i = .arriving)
      (hdelivers : s.delivers key record definitions (jobOf i) = true)
      (hnew : token ∉ s.keyed.minted) (hminted : t.keyed.minted = token :: s.keyed.minted)
      (hdeliveries : t.keyed.deliveries = Function.update s.keyed.deliveries i
        { s.keyed.deliveries i with stage := .ended, result := some result })
      (hwriter : t.writer = s.writer) (hlog : t.log = s.log ++ [.gaveBack i s.writer])
      (hcomplete : s.view.isComplete = true) (hview : t.view = s.view) :
      KeyMove key record definitions definition jobOf s t a
  | acts {a : ReplayAct ι ρ} (i : ι) (b : Act) (d : KeyedDelivery)
      (hact : act (definition i) (s.keyed.deliveries i) b = some d)
      (hdeliveries : t.keyed.deliveries = Function.update s.keyed.deliveries i d)
      (hminted : t.keyed.minted = s.keyed.minted) (hwriter : t.writer = s.writer)
      (hlog : t.log = s.log ++ if b.endsBody then [.ended i] else []) (hview : t.view = s.view) :
      KeyMove key record definitions definition jobOf s t a
  /-- A call that ends a possession, and records nothing. -/
  | frees {a : ReplayAct ι ρ} (i : ι) (token : String) (call : Settlement)
      (result result' : Option (Except Thrown Value))
      (hstage : s.stage i = .settling token call result) (hresult : result'.isSome = result.isSome)
      (hdeliveries : t.keyed.deliveries = Function.update s.keyed.deliveries i
        ((s.keyed.deliveries i).returned token result'))
      (hminted : t.keyed.minted = s.keyed.minted) (hwriter : t.writer = s.writer)
      (hlog : t.log = s.log) (hview : t.view = s.view ∨ t.view = .absent)
      (hothers : ∀ token', token' ≠ token → s.view = .held token' → t.view = .held token') :
      KeyMove key record definitions definition jobOf s t a
  | records (i : ι) (now : ℕ) (fate : CallFate) (token : String) (kept : KeptResult)
      (result result' : Option (Except Thrown Value)) (htook : fate.tookEffect = true)
      (hstage : s.stage i = .settling token (.complete kept) result)
      (hresult : result'.isSome = result.isSome)
      (hdeliveries : t.keyed.deliveries = Function.update s.keyed.deliveries i
        ((s.keyed.deliveries i).returned token result'))
      (hminted : t.keyed.minted = s.keyed.minted) (hwriter : t.writer = some i)
      (hlog : t.log = s.log ++ [.completed i]) (htakes : s.view.takes driver token = true)
      (hview : t.view = .complete kept.json) :
      KeyMove key record definitions definition jobOf s t (.call i now fate)

theorem view_forget_cases (driver : Driver) (k : driver.Key) :
    (driver.store.view (driver.store.forget k).1 = driver.store.view k ∨
      driver.store.view (driver.store.forget k).1 = .absent) ∧
    (∀ token, driver.store.view k = .held token →
      driver.store.view (driver.store.forget k).1 = .held token) := by
  rw [driver.store.view_forget]
  cases driver.store.view k with
  | absent => exact ⟨Or.inl rfl, fun _ h => by cases h⟩
  | held token => exact ⟨Or.inl rfl, fun _ h => h⟩
  | complete kept => exact ⟨Or.inr rfl, fun _ h => by cases h⟩

/-- A call of `acquire`, answered or not. -/
theorem keyMove_acquire {i : ι} {token : String} {now : ℕ} {fate : CallFate}
    (hstage : (s.keyed.deliveries i).stage = .arriving) (hnew : token ∉ s.keyed.minted)
    (hdelivers : s.delivers key record definitions (jobOf i) = true) :
    KeyMove key record definitions definition jobOf s
      { s with
        keyed :=
          { s.keyed.move i ((s.keyed.deliveries i).received key
              ((fate.reply (driver.store.acquire now token s.keyed.store).2).bind id)) with
            store := if fate.tookEffect then (driver.store.acquire now token s.keyed.store).1
              else s.keyed.store
            minted := token :: s.keyed.minted }
        log := s.log ++
          s.given i ((fate.reply (driver.store.acquire now token s.keyed.store).2).bind id) }
            a := by
  have hview := driver.store.view_acquire now token s.keyed.store
  rw [driver.store.answer_acquire]
  cases fate with
  | answers =>
      show KeyMove key record definitions definition jobOf s
        { s with
          keyed :=
            { s.keyed.move i ((s.keyed.deliveries i).received key
                (.ok ((driver.store.view s.keyed.store).acquire token).2)) with
              store := (driver.store.acquire now token s.keyed.store).1
              minted := token :: s.keyed.minted }
          log := s.log ++ s.given i (.ok ((driver.store.view s.keyed.store).acquire token).2) } a
      cases hkey : driver.store.view s.keyed.store with
      | absent =>
          rw [hkey] at hview
          exact .takes i token hstage hnew rfl rfl (List.append_nil _) hkey hview
      | held token' =>
          rw [hkey] at hview
          exact .leaves i token _ hstage hnew rfl rfl rfl (List.append_nil _)
            (Or.inl (hview.trans hkey.symm))
      | complete kept =>
          rw [hkey] at hview
          refine .gives i token _ hstage hdelivers hnew rfl rfl rfl rfl ?_ (hview.trans hkey.symm)
          rw [show s.view = .complete kept from hkey]
          rfl
  | fails error tookEffect =>
      refine .leaves i token (.error error) hstage hnew rfl rfl rfl (List.append_nil _) ?_
      cases tookEffect with
      | false => exact Or.inl rfl
      | true =>
          have hview : driver.store.view (driver.store.acquire now token s.keyed.store).1 = s.view ∨
              (s.view = .absent ∧
                driver.store.view (driver.store.acquire now token s.keyed.store).1 =
                  .held token) := by
            rw [hview]
            show ((s.view).acquire token).1 = s.view ∨
              (s.view = .absent ∧ ((s.view).acquire token).1 = .held token)
            cases s.view with
            | absent => exact Or.inr ⟨rfl, rfl⟩
            | _ => exact Or.inl rfl
          exact hview

/-- The call that ends a possession, whether it took effect or not. -/
theorem keyMove_call {i : ι} {now : ℕ} {fate : CallFate} {token : String} {call : Settlement}
    {result : Option (Except Thrown Value)}
    (hstage : (s.keyed.deliveries i).stage = .settling token call result) :
    KeyMove key record definitions definition jobOf s
      (let t := if fate.tookEffect then s.settle driver i now token call else s
      { t with
        keyed := t.keyed.move i ((s.keyed.deliveries i).returned token
          (result.map fun result => (fate.reply result).bind id)) })
      (.call i now fate) := by
  cases htook : fate.tookEffect with
  | false =>
      exact .frees i token call result _ hstage Option.isSome_map rfl rfl rfl rfl
        (Or.inl rfl) fun _ _ h => h
  | true =>
      cases call with
      | release =>
          have hview := driver.store.view_release token s.keyed.store
          refine .frees i token .release result _ hstage Option.isSome_map rfl rfl rfl rfl ?_ ?_
          · show driver.store.view (driver.store.release token s.keyed.store) = s.view ∨
              driver.store.view (driver.store.release token s.keyed.store) = .absent
            rw [hview]
            show (s.view).release token = s.view ∨ (s.view).release token = .absent
            cases s.view with
            | held token' =>
                by_cases htoken : token' = token
                · exact Or.inr (by simp [KeyState.release, htoken])
                · exact Or.inl (by simp [KeyState.release, htoken])
            | _ => exact Or.inl rfl
          · intro token' hne hheld
            show driver.store.view (driver.store.release token s.keyed.store) = .held token'
            rw [hview, show driver.store.view s.keyed.store = .held token' from hheld]
            simp [KeyState.release, hne]
      | complete kept =>
          have hview := driver.view_complete now token kept s.keyed.store
          cases htakes : (driver.store.view s.keyed.store).takes driver token with
          | true =>
              rw [htakes, if_pos rfl] at hview
              refine .records i now fate token kept result _ htook hstage Option.isSome_map rfl rfl
                ?_ ?_ htakes hview
              · simp [ReplayRun.settle, KeyState.records, htakes]
              · simp [ReplayRun.settle, KeyState.records, htakes]
          | false =>
              rw [htakes, if_neg Bool.false_ne_true] at hview
              refine .frees i token (.complete kept) result _ hstage Option.isSome_map rfl rfl ?_ ?_
                (Or.inl hview) fun _ _ hheld => hview.trans hheld
              · simp [ReplayRun.settle, KeyState.records, htakes]
              · simp [ReplayRun.settle, KeyState.records, htakes]

/-- **Every step does one of these things to the key and the deliveries.** -/
theorem keyMove_of_replayRun
    (h : replayRun driver key record definitions definition jobOf s a = some t) :
    KeyMove key record definitions definition jobOf s t a := by
  cases a with
  | replay r step =>
      obtain ⟨effect, stage, -, rfl, hfree⟩ := replayRun_moves (r := r) rfl h
      cases effect with
      | nothing =>
          exact .rests [] rfl rfl rfl (List.append_nil _).symm (by simp) (Or.inl rfl) fun _ _ h => h
      | forgets =>
          have hview : (driver.store.view s.keyed.store).forget.2 ≠ .running := by
            rw [← driver.store.answer_forget]
            exact hfree rfl
          have hfree : ∀ token, s.view ≠ .held token := by
            intro token htoken
            refine hview ?_
            rw [show driver.store.view s.keyed.store = .held token from htoken]
            rfl
          refine .forgets r rfl rfl rfl hfree ?_
          show driver.store.view (driver.store.forget s.keyed.store).1 = .absent
          rw [driver.store.view_forget]
          cases hkey : driver.store.view s.keyed.store with
          | held token => exact absurd hkey (hfree token)
          | _ => rfl
      | stores request jobId answered =>
          exact .rests [.enqueued r request jobId answered] rfl rfl rfl rfl
            (by simp [ReplayEvent.aboutKey]) (Or.inl rfl) fun _ _ h => h
      | removes =>
          cases hkept : s.kept with
          | false =>
              refine .rests [] rfl rfl rfl ?_ (by simp) (Or.inl rfl) fun _ _ h => h
              simp [ReplayRun.apply, ReplayRun.drop, ReplayRun.stand, hkept]
          | true =>
              refine .rests [.removed r] rfl rfl rfl ?_ (by simp [ReplayEvent.aboutKey])
                (Or.inl rfl) fun _ _ h => h
              simp [ReplayRun.apply, ReplayRun.drop, ReplayRun.stand, hkept]
  | discard fate =>
      obtain rfl := Option.some_inj.1 h
      cases fate.tookEffect with
      | false =>
          exact .rests [] rfl rfl rfl (List.append_nil _).symm (by simp) (Or.inl rfl) fun _ _ h => h
      | true =>
          cases hkept : s.kept with
          | false =>
              refine .rests [] rfl rfl rfl ?_ (by simp) (Or.inl rfl) fun _ _ h => h
              simp [ReplayRun.drop, hkept]
          | true =>
              refine .rests [.discarded] rfl rfl rfl ?_ (by simp [ReplayEvent.aboutKey])
                (Or.inl rfl) fun _ _ h => h
              simp [ReplayRun.drop, hkept]
  | acquire i token now fate =>
      simp only [replayRun] at h
      split at h
      · rename_i hstage
        split at h
        · cases h
        · rename_i hopen
          obtain ⟨hnew, hdelivers⟩ := not_or.1 hopen
          have hdelivers : s.delivers key record definitions (jobOf i) = true := by
            simpa using hdelivers
          obtain rfl := Option.some_inj.1 h
          exact keyMove_acquire hstage hnew hdelivers
      · cases h
  | act i b =>
      obtain ⟨d, hd, rfl⟩ := Option.map_eq_some_iff.1 h
      refine .acts i b d hd rfl rfl rfl ?_ rfl
      cases b.endsBody with
      | false => exact (List.append_nil _).symm
      | true => rfl
  | call i now fate =>
      simp only [replayRun] at h
      split at h
      · rename_i token call result hstage
        obtain rfl := Option.some_inj.1 h
        exact keyMove_call hstage
      · cases h
  | renew i now =>
      obtain ⟨token, -, rfl⟩ := Option.map_eq_some_iff.1 h
      have hview := driver.store.view_renew now token s.keyed.store
      exact .rests [] rfl rfl rfl (List.append_nil _).symm (by simp) (Or.inl hview)
        fun _ token' htoken' => hview.trans htoken'
  | forget =>
      obtain rfl := Option.some_inj.1 h
      obtain ⟨hview, hheld⟩ := view_forget_cases driver s.keyed.store
      exact .rests [] rfl rfl rfl (List.append_nil _).symm (by simp) hview fun _ => hheld
  | expire =>
      obtain rfl := Option.some_inj.1 h
      refine .rests [] rfl rfl rfl (List.append_nil _).symm (by simp)
        (driver.store.view_expire s.keyed.store) ?_
      rintro rfl token htoken
      exact htoken

/-! ### The deliveries, the key and the log -/

/-- **How the deliveries, the key and the log hang together.**  In memory nothing expires, and the
key stays held for whoever relies on it. -/
structure KeyedInv (s : ReplayRun driver.Key ι ρ) : Prop where
  consistent : ∀ i, (s.keyed.deliveries i).Consistent
  run : ∀ i, (s.stage i).hasRun = true → (s.keyed.deliveries i).body ≠ .idle
  ended : ∀ i, .ended i ∈ s.log ↔ (s.keyed.deliveries i).body.hasEnded = true
  minted : ∀ i token, (s.stage i).token = some token → token ∈ s.keyed.minted
  distinct : ∀ i j token, (s.stage i).token = some token → (s.stage j).token = some token → i = j
  owns : driver = .memory → ∀ i token, (s.stage i).relies = some token → s.view = .held token

omit [DecidableEq ι] [DecidableEq ρ] in
theorem keyedInv_init : KeyedInv (ReplayRun.init driver : ReplayRun driver.Key ι ρ) where
  consistent _ := KeyedDelivery.fresh_consistent
  run _ h := by cases h
  ended i := by simp [ReplayRun.init, KeyRun.init, KeyedDelivery.fresh, Body.hasEnded]
  minted _ _ h := by cases h
  distinct _ _ _ h := by cases h
  owns _ _ _ h := by cases h

omit [DecidableEq ρ] in
/-- **One delivery moves on**: what its new stage, the key and the log have to meet. -/
theorem KeyedInv.update (hs : KeyedInv s) {i : ι} {d : KeyedDelivery}
    (hdeliveries : t.keyed.deliveries = Function.update s.keyed.deliveries i d)
    (hminted : ∀ token ∈ s.keyed.minted, token ∈ t.keyed.minted)
    (hconsistent : d.Consistent) (hrun : d.stage.hasRun = true → d.body ≠ .idle)
    (hended : .ended i ∈ t.log ↔ d.body.hasEnded = true)
    (hothers : ∀ j, j ≠ i → (.ended j ∈ t.log ↔ .ended j ∈ s.log))
    (htoken : ∀ token, d.stage.token = some token →
      (s.stage i).token = some token ∨ (token ∉ s.keyed.minted ∧ token ∈ t.keyed.minted))
    (hself : driver = .memory → ∀ token, d.stage.relies = some token → t.view = .held token)
    (hrelies : driver = .memory → ∀ j, j ≠ i → ∀ token, (s.stage j).relies = some token →
      t.view = .held token) : KeyedInv t := by
  have hi : t.keyed.deliveries i = d := by rw [hdeliveries, Function.update_self]
  have hne : ∀ j, j ≠ i → t.keyed.deliveries j = s.keyed.deliveries j := fun j hj => by
    rw [hdeliveries, Function.update_of_ne hj]
  -- a delivery other than `i` never has the token that `i` has after the step
  have hother : ∀ j, j ≠ i → ∀ token, (s.stage j).token = some token →
      d.stage.token ≠ some token := by
    intro j hj token hjtoken hd
    rcases htoken token hd with hsame | ⟨hnew, -⟩
    · exact hj (hs.distinct j i token hjtoken hsame)
    · exact hnew (hs.minted j token hjtoken)
  refine ⟨fun j => ?_, fun j => ?_, fun j => ?_, fun j token => ?_, fun j k token => ?_,
    fun hmemory j token => ?_⟩
  · by_cases hj : j = i
    · rw [hj, hi]
      exact hconsistent
    · rw [hne j hj]
      exact hs.consistent j
  · by_cases hj : j = i
    · simp only [ReplayRun.stage, hj, hi]
      exact hrun
    · simp only [ReplayRun.stage, hne j hj]
      exact hs.run j
  · by_cases hj : j = i
    · rw [hj, hi]
      exact hended
    · rw [hne j hj, hothers j hj]
      exact hs.ended j
  · by_cases hj : j = i
    · simp only [ReplayRun.stage, hj, hi]
      intro hd
      rcases htoken token hd with hsame | ⟨-, hnew⟩
      · exact hminted token (hs.minted i token hsame)
      · exact hnew
    · simp only [ReplayRun.stage, hne j hj]
      exact fun hjtoken => hminted token (hs.minted j token hjtoken)
  · by_cases hj : j = i
    · by_cases hk : k = i
      · exact fun _ _ => hj.trans hk.symm
      · simp only [ReplayRun.stage, hj, hi, hne k hk]
        exact fun hd hktoken => absurd hd (hother k hk token hktoken)
    · by_cases hk : k = i
      · simp only [ReplayRun.stage, hk, hi, hne j hj]
        exact fun hjtoken hd => absurd hd (hother j hj token hjtoken)
      · simp only [ReplayRun.stage, hne j hj, hne k hk]
        exact hs.distinct j k token
  · by_cases hj : j = i
    · simp only [ReplayRun.stage, hj, hi]
      exact hself hmemory token
    · simp only [ReplayRun.stage, hne j hj]
      exact hrelies hmemory j hj token

omit [DecidableEq ι] [DecidableEq ρ] in
/-- No delivery moves. -/
theorem KeyedInv.still (hs : KeyedInv s) (hdeliveries : t.keyed.deliveries = s.keyed.deliveries)
    (hminted : t.keyed.minted = s.keyed.minted)
    (hended : ∀ i, .ended i ∈ t.log ↔ .ended i ∈ s.log)
    (hheld : driver = .memory → ∀ token, s.view = .held token → t.view = .held token) :
    KeyedInv t := by
  have hstage : t.stage = s.stage := by
    funext i
    rw [ReplayRun.stage, hdeliveries, ReplayRun.stage]
  refine ⟨fun i => ?_, fun i => ?_, fun i => ?_, fun i token => ?_, fun i j token => ?_,
    fun hmemory i token hi => ?_⟩
  · rw [hdeliveries]
    exact hs.consistent i
  · rw [hstage, hdeliveries]
    exact hs.run i
  · rw [hended, hdeliveries]
    exact hs.ended i
  · rw [hstage, hminted]
    exact hs.minted i token
  · rw [hstage]
    exact hs.distinct i j token
  · rw [hstage] at hi
    exact hheld hmemory token (hs.owns hmemory i token hi)

omit [DecidableEq ι] [DecidableEq ρ] in
/-- A delivery that has not arrived has neither a body nor a lease. -/
theorem KeyedInv.arriving (hs : KeyedInv s) {i : ι} (hstage : s.stage i = .arriving) :
    (s.keyed.deliveries i).body = .idle ∧ (s.keyed.deliveries i).renewing = none := by
  have hi := hs.consistent i
  simpa only [KeyedDelivery.Consistent, show (s.keyed.deliveries i).stage = .arriving from hstage]
    using hi

omit [DecidableEq ι] [DecidableEq ρ] in
/-- What a delivery is after the call that ended its possession. -/
theorem KeyedInv.returned (hs : KeyedInv s) {i : ι} {token : String} {call : Settlement}
    {result result' : Option (Except Thrown Value)}
    (hstage : s.stage i = .settling token call result) (hresult : result'.isSome = result.isSome) :
    let d := (s.keyed.deliveries i).returned token result'
    d.Consistent ∧ d.body = (s.keyed.deliveries i).body ∧ d.body ≠ .idle ∧ d.stage.relies = none ∧
      ∀ token', d.stage.token = some token' → (s.stage i).token = some token' := by
  have hi := hs.consistent i
  have hbody : (s.keyed.deliveries i).body ≠ .idle := hs.run i (by rw [hstage]; rfl)
  simp only [KeyedDelivery.Consistent, show (s.keyed.deliveries i).stage = _ from hstage] at hi
  cases result' with
  | none =>
      cases result with
      | none => exact ⟨hi, rfl, hbody, rfl, fun token' h => by rw [hstage]; exact h⟩
      | some result => cases hresult
  | some result' =>
      cases result with
      | none => cases hresult
      | some result => exact ⟨hi, rfl, hbody, rfl, fun token' h => by cases h⟩

/-- **Every step keeps the deliveries, the key and the log together.** -/
theorem keyedInv_step (hs : KeyedInv s)
    (h : replayRun driver key record definitions definition jobOf s a = some t) : KeyedInv t := by
  cases keyMove_of_replayRun h with
  | rests events hdeliveries hminted hwriter hlog hevents hview hheld =>
      refine hs.still hdeliveries hminted (fun i => ?_) hheld
      rw [hlog, List.mem_append, or_iff_left]
      intro hi
      cases hevents _ hi
  | forgets r hdeliveries hminted hlog hfree hview =>
      refine hs.still hdeliveries hminted (fun i => ?_) fun _ token htoken =>
        absurd htoken (hfree token)
      simp [hlog]
  | takes i token hstage hnew hminted hdeliveries hlog hfree hview =>
      obtain ⟨hbody, -⟩ := hs.arriving hstage
      refine hs.update hdeliveries (fun token' h => by rw [hminted]; exact .tail _ h) ⟨hbody, rfl⟩
        (fun h => by cases h) (by rw [hlog]; exact hs.ended i) (fun j _ => by rw [hlog]) ?_ ?_ ?_
      · intro token' htoken'
        obtain rfl := Option.some_inj.1 htoken'
        exact Or.inr ⟨hnew, by simp [hminted]⟩
      · intro _ token' htoken'
        obtain rfl := Option.some_inj.1 htoken'
        exact hview
      -- nobody relied on a key that was absent
      · intro hmemory j _ token' hj
        rw [hs.owns hmemory j token' hj] at hfree
        cases hfree
  | leaves i token result hstage hnew hminted hdeliveries hwriter hlog hview =>
      obtain ⟨hbody, hrenewing⟩ := hs.arriving hstage
      refine hs.update hdeliveries (fun token' h => by rw [hminted]; exact .tail _ h)
        ⟨by rw [show _ = Body.idle from hbody]; rfl, hrenewing⟩
        (fun h => by cases h) (by rw [hlog]; exact hs.ended i) (fun j _ => by rw [hlog])
        (fun _ h => by cases h) (fun _ _ h => by cases h) ?_
      intro hmemory j _ token' hj
      have hheld := hs.owns hmemory j token' hj
      rcases hview with hsame | ⟨hfree, -⟩
      · exact hsame.trans hheld
      · rw [hheld] at hfree
        cases hfree
  | gives i token result hstage hdelivers hnew hminted hdeliveries hwriter hlog hcomplete hview =>
      obtain ⟨hbody, hrenewing⟩ := hs.arriving hstage
      refine hs.update hdeliveries (fun token' h => by rw [hminted]; exact .tail _ h)
        ⟨by rw [show _ = Body.idle from hbody]; rfl, hrenewing⟩
        (fun h => by cases h) ?_ (fun j _ => by simp [hlog])
        (fun _ h => by cases h) (fun _ _ h => by cases h)
        fun hmemory j _ token' hj => hview.trans (hs.owns hmemory j token' hj)
      rw [hlog, List.mem_append, or_iff_left (by simp)]
      exact hs.ended i
  | acts i b d hact hdeliveries hminted hwriter hlog hview =>
      have hfollows := act_follows (hs.consistent i) hact
      have hkeeps := act_keeps (hs.consistent i) hact
      refine hs.update hdeliveries (fun token' h => by rwa [hminted]) hfollows.consistent
        (hkeeps.body (hs.run i)) ?_ (fun j hj => ?_) ?_ ?_
        fun hmemory j _ token' hj => hview.trans (hs.owns hmemory j token' hj)
      · rw [hlog, List.mem_append, hs.ended i, hkeeps.ended, Bool.or_eq_true]
        cases b.endsBody <;> simp
      · rw [hlog, List.mem_append, or_iff_left]
        split <;> simp [hj]
      · intro token' htoken'
        rcases hfollows.token with heq | hnone
        · exact Or.inl (heq ▸ htoken')
        · rw [hnone] at htoken'
          cases htoken'
      · intro hmemory token' htoken'
        rw [hkeeps.relies] at htoken'
        exact hview.trans (hs.owns hmemory i token' htoken')
  | frees i token call result result' hstage hresult hdeliveries hminted hwriter hlog hview
      hothers =>
      obtain ⟨hconsistent, hbody, hidle, hrelies, htoken⟩ := hs.returned hstage hresult
      refine hs.update hdeliveries (fun token' h => by rwa [hminted]) hconsistent (fun _ => hidle)
        (by rw [hlog, hbody]; exact hs.ended i) (fun j _ => by rw [hlog])
        (fun token' h => Or.inl (htoken token' h))
        (fun _ token' h => by rw [hrelies] at h; cases h) ?_
      intro hmemory j hji token' hj
      refine hothers token' ?_ (hs.owns hmemory j token' hj)
      rintro rfl
      exact hji (hs.distinct j i token' (Stage.token_of_relies hj) (by rw [hstage]; rfl))
  | records i now fate token kept result result' htook hstage hresult hdeliveries hminted
      hwriter hlog
      htakes hview =>
      obtain ⟨hconsistent, hbody, hidle, hrelies, htoken⟩ := hs.returned hstage hresult
      refine hs.update hdeliveries (fun token' h => by rwa [hminted]) hconsistent (fun _ => hidle)
        ?_ (fun j _ => by simp [hlog]) (fun token' h => Or.inl (htoken token' h))
        (fun _ token' h => by rw [hrelies] at h; cases h) ?_
      · rw [hlog, hbody, List.mem_append, or_iff_left (by simp)]
        exact hs.ended i
      -- a call is not recorded over a key that somebody else holds
      · intro hmemory j hji token' hj
        have hheld := hs.owns hmemory j token' hj
        rw [hheld] at htakes
        have hsame : token' = token := by simpa [KeyState.takes] using htakes
        exact absurd (hs.distinct j i token' (Stage.token_of_relies hj)
          (by rw [hstage, hsame]; rfl)) hji

end

end Jubs
