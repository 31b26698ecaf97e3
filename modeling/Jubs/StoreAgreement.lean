/-
**The two idempotency stores, call by call.**

Both drivers keep a store of any number of keys, and a test that is green on the memory driver is
meant to say something about Redis.  Here the two stores are driven by one sequence of calls.  Each
draws tokens of its own, so a call names the possession it settles by the number of the `acquire`
that began it, and a store is asked under the token it drew for that possession.  Nothing expires.

Main definitions:

* `Jubs.StoreCall`, `Jubs.StoreReply` — the five calls, and what a caller sees of the answers;
* `Jubs.KeyedStore` — the keys of one store, and how many tokens it has drawn;
* `Jubs.Store.afterCalls`, `Jubs.Store.replyAfter` — a store after some calls, and its next answer;
* `Jubs.Store.Steady` — the condition on a call under which the stores cannot part.

Main results:

* `Jubs.alike_after` — **two stores stand alike after calls that all meet the condition**;
* `Jubs.stores_agree_iff` — **the two drivers answer alike exactly under that condition**;
* `Jubs.stores_part` — a second result for a complete key parts them.
-/

import Jubs.MemoryIdempotency
import Jubs.RedisIdempotency
import Mathlib.Data.List.Induction
import Mathlib.Logic.Function.Basic

set_option autoImplicit false

namespace Jubs

/-! ### Calls and answers -/

/-- A call on one key.  The possession a call settles is named by the number of its `acquire`. -/
inductive StoreCall where
  | acquire (key : String) (now : ℕ)
  | renew (key : String) (possession now : ℕ)
  | complete (key : String) (possession : ℕ) (kept : KeptResult) (now : ℕ)
  | release (key : String) (possession : ℕ)
  | forget (key : String)

/-- The key a call is about. -/
def StoreCall.key : StoreCall → String
  | .acquire key _ | .renew key _ _ | .complete key _ _ _ | .release key _ | .forget key => key

/-- How many tokens a call draws. -/
def StoreCall.draws : StoreCall → ℕ
  | .acquire _ _ => 1
  | _ => 0

/-- The state of a lease, without the token that only its holder uses. -/
inductive LeaseState where
  | acquired
  | held
  | complete (kept : Value)

/-- The `state` of an answered lease, with its `kept`. -/
def IdempotencyLease.state : IdempotencyLease → LeaseState
  | .acquired _ => .acquired
  | .held => .held
  | .complete kept => .complete kept

/-- What a call answers its caller with. -/
inductive StoreReply where
  | lease (answer : Except Thrown LeaseState)
  | done
  | forgot (outcome : ForgetOutcome)

/-- The keys of one store, and how many tokens it has drawn. -/
structure KeyedStore (σ : Type) where
  keys : String → σ
  drawn : ℕ

namespace Store

variable {σ : Type} (S : Store σ) (mint : ℕ → String)

/-- What a call leaves of its key.  The token of the `n`-th `acquire` is `mint n`. -/
def act (drawn : ℕ) : StoreCall → σ → σ
  | .acquire _ now, k => (S.acquire now (mint drawn) k).1
  | .renew _ i now, k => S.renew now (mint i) k
  | .complete _ i kept now, k => S.complete now (mint i) kept k
  | .release _ i, k => S.release (mint i) k
  | .forget _, k => (S.forget k).1

/-- What a call answers, by what it meets under its key. -/
def reply (drawn : ℕ) : StoreCall → σ → StoreReply
  | .acquire _ now, k => .lease ((S.acquire now (mint drawn) k).2.map IdempotencyLease.state)
  | .forget _, k => .forgot (S.forget k).2
  | .renew _ _ _, _ | .complete _ _ _ _, _ | .release _ _, _ => .done

/-- A store with no key. -/
def blank : KeyedStore σ := ⟨fun _ => S.empty, 0⟩

/-- What a call leaves of the store. -/
def run (s : KeyedStore σ) (call : StoreCall) : KeyedStore σ where
  keys := Function.update s.keys call.key (S.act mint s.drawn call (s.keys call.key))
  drawn := s.drawn + call.draws

/-- The store after some calls. -/
def afterCalls (calls : List StoreCall) : KeyedStore σ := calls.foldl (S.run mint) S.blank

/-- What a call answers after some calls. -/
def replyAfter (calls : List StoreCall) (call : StoreCall) : StoreReply :=
  S.reply mint (S.afterCalls mint calls).drawn call ((S.afterCalls mint calls).keys call.key)

/-- **The condition on a call**: it does not record a result over a different one that the key
keeps already. -/
def Steady (s : KeyedStore σ) : StoreCall → Prop
  | .complete key _ kept _ => ∀ json, S.view (s.keys key) = .complete json → json = kept.json
  | _ => True

theorem afterCalls_append (calls : List StoreCall) (call : StoreCall) :
    S.afterCalls mint (calls ++ [call]) = S.run mint (S.afterCalls mint calls) call := by
  simp [afterCalls]

theorem drawn_afterCalls {σ' : Type} (S' : Store σ') (mint' : ℕ → String) (calls : List StoreCall) :
    (S.afterCalls mint calls).drawn = (S'.afterCalls mint' calls).drawn := by
  induction calls using List.reverseRecOn with
  | nil => rfl
  | append_singleton calls call ih => simp [afterCalls_append, run, ih]

variable {S mint}

/-- A result that does not replace a different one is recorded as the three states have it. -/
theorem view_complete_of_steady {k : σ} {kept : KeptResult}
    (h : ∀ json, S.view k = .complete json → json = kept.json) (now : ℕ) (token : String) :
    S.view (S.complete now token kept k) = (S.view k).record token kept.json := by
  rcases S.view_complete now token kept k with heq | ⟨hcomplete, heq⟩
  · exact heq
  · cases hview : S.view k with
    | absent => simp [hview, KeyState.isComplete] at hcomplete
    | held t => simp [hview, KeyState.isComplete] at hcomplete
    | complete json =>
        -- the store replaced the result by itself
        rw [heq, KeyState.record, h json hview]

end Store

/-! ### Two stores side by side -/

/-- Two keys are in one state, each under a token of its own store. -/
inductive Alike (mint mint' : ℕ → String) : KeyState → KeyState → Prop
  | absent : Alike mint mint' .absent .absent
  | held (i : ℕ) : Alike mint mint' (.held (mint i)) (.held (mint' i))
  | complete (kept : Json) : Alike mint mint' (.complete kept) (.complete kept)

section

variable {mint mint' : ℕ → String} (hmint : Function.Injective mint)
  (hmint' : Function.Injective mint') {k k' : KeyState}

include hmint hmint' in
theorem Alike.record (h : Alike mint mint' k k') (i : ℕ) (kept : Json) :
    Alike mint mint' (k.record (mint i) kept) (k'.record (mint' i) kept) := by
  cases h with
  | absent => exact .complete kept
  | complete kept' => exact .complete kept'
  | held j =>
      -- both stores refuse, or both accept, since a token names one possession in each
      by_cases hij : j = i
      · subst hij
        simpa using Alike.complete kept
      · simpa [KeyState.record, hmint.eq_iff, hmint'.eq_iff, hij] using Alike.held j

include hmint hmint' in
theorem Alike.release (h : Alike mint mint' k k') (i : ℕ) :
    Alike mint mint' (k.release (mint i)) (k'.release (mint' i)) := by
  cases h with
  | absent => exact .absent
  | complete kept => exact .complete kept
  | held j =>
      by_cases hij : j = i
      · subst hij
        simpa using Alike.absent
      · simpa [KeyState.release, hmint.eq_iff, hmint'.eq_iff, hij] using Alike.held j

theorem Alike.acquire (h : Alike mint mint' k k') (i : ℕ) :
    Alike mint mint' (k.acquire (mint i)).1 (k'.acquire (mint' i)).1 := by
  cases h with
  | absent => exact .held i
  | held j => exact .held j
  | complete kept => exact .complete kept

theorem Alike.forget (h : Alike mint mint' k k') :
    Alike mint mint' k.forget.1 k'.forget.1 := by
  cases h with
  | absent => exact .absent
  | held j => exact .held j
  | complete kept => exact .absent

variable {σ σ' : Type} {S : Store σ} {S' : Store σ'}

include hmint hmint' in
/-- **One call on two keys that stand alike** leaves them alike, when it meets the condition. -/
theorem alike_act {k : σ} {k' : σ'} (h : Alike mint mint' (S.view k) (S'.view k')) (drawn : ℕ)
    {call : StoreCall} (hsteady : ∀ key i kept now, call = .complete key i kept now →
      ∀ json, S.view k = .complete json → json = kept.json) :
    Alike mint mint' (S.view (S.act mint drawn call k)) (S'.view (S'.act mint' drawn call k')) := by
  cases call with
  | acquire key now =>
      simp only [Store.act, Store.view_acquire]
      exact h.acquire drawn
  | renew key i now =>
      simp only [Store.act, Store.view_renew]
      exact h
  | complete key i kept now =>
      have hk := hsteady key i kept now rfl
      -- the other key keeps the same result, so it meets the condition too
      have hk' : ∀ json, S'.view k' = .complete json → json = kept.json := by
        intro json hjson
        rw [hjson] at h
        generalize hview : S.view k = state at h
        cases h
        exact hk json hview
      simp only [Store.act, Store.view_complete_of_steady hk, Store.view_complete_of_steady hk']
      exact h.record hmint hmint' i kept.json
  | release key i =>
      simp only [Store.act, Store.view_release]
      exact h.release hmint hmint' i
  | forget key =>
      simp only [Store.act, Store.view_forget]
      exact h.forget

/-- Keys that stand alike are answered alike. -/
theorem reply_of_alike {k : σ} {k' : σ'} (h : Alike mint mint' (S.view k) (S'.view k')) (drawn : ℕ)
    (call : StoreCall) : S.reply mint drawn call k = S'.reply mint' drawn call k' := by
  cases call with
  | acquire key now =>
      simp only [Store.reply, Store.answer_acquire]
      generalize S.view k = state, S'.view k' = state' at h
      cases h <;> rfl
  | forget key =>
      simp only [Store.reply, Store.answer_forget]
      generalize S.view k = state, S'.view k' = state' at h
      cases h <;> rfl
  | renew key i now => rfl
  | complete key i kept now => rfl
  | release key i => rfl

include hmint hmint' in
/-- **Two stores stand alike after calls that all meet the condition.** -/
theorem alike_after {calls : List StoreCall}
    (hsteady : ∀ p call, p ++ [call] <+: calls → S.Steady (S.afterCalls mint p) call)
    (key : String) : Alike mint mint' (S.view ((S.afterCalls mint calls).keys key))
      (S'.view ((S'.afterCalls mint' calls).keys key)) := by
  induction calls using List.reverseRecOn generalizing key with
  | nil =>
      simp only [Store.afterCalls, Store.blank, List.foldl_nil, Store.view_empty]
      exact .absent
  | append_singleton calls call ih =>
      have ih := ih fun p c hp => hsteady p c (hp.trans (List.prefix_append _ _))
      rw [Store.afterCalls_append, Store.afterCalls_append, Store.run, Store.run,
        Store.drawn_afterCalls S' mint' S mint]
      by_cases hkey : key = call.key
      · subst hkey
        simp only [Function.update_self]
        refine alike_act hmint hmint' (ih call.key) _ ?_
        rintro key i kept now rfl
        exact hsteady calls _ List.prefix_rfl
      · simp only [Function.update_of_ne hkey]
        exact ih key

end

/-! ### The two drivers -/

/-- The memory store replaces the result of a complete key. -/
theorem memory_overwrites {k : MemoryKey} {json : Json} (h : memoryStore.view k = .complete json)
    (token : String) (kept : KeptResult) (now : ℕ) :
    memoryStore.view (memoryStore.complete now token kept k) = .complete kept.json := by
  change k.view = .complete json at h
  change (k.record token kept).view = .complete kept.json
  rcases k.cases_key with rfl | ⟨t, rfl⟩ | ⟨_, hleased, -⟩
  · simp at h
  · simp at h
  · simp [MemoryKey.record, hleased]

/-- The Redis store keeps the result of a complete key. -/
theorem redis_keeps {k : RedisKey} {json : Json} (h : redisStore.view k = .complete json)
    (token : String) (kept : KeptResult) (now : ℕ) :
    redisStore.view (redisStore.complete now token kept k) = .complete json := by
  change k.cell.view = .complete json at h
  change (Redis.after k.cell (.complete token kept idempotencyResultRetentionMs now)).view = _
  rcases k.cases_cell with hcell | ⟨t, expiresAt, hcell⟩ | ⟨kept', expiresAt, hcell⟩
  · simp [hcell] at h
  · simp [hcell] at h
  · rw [hcell, Redis.kept_step rfl rfl, ← hcell, h]

/-- Distinct results are answered as distinct values. -/
theorem ofJson_inj {j j' : Json} (h : Value.ofJson j = Value.ofJson j') : j = j' := by
  have h := congrArg Value.toJson h
  simpa [Value.toJson_ofJson] using h

section

variable {σ : Type} {S : Store σ} {mint : ℕ → String} {calls : List StoreCall} {key : String}
  {json : Json}

/-- What an `acquire` of a complete key answers. -/
theorem replyAfter_complete (h : S.view ((S.afterCalls mint calls).keys key) = .complete json)
    (now : ℕ) :
    S.replyAfter mint calls (.acquire key now) = .lease (.ok (.complete (.ofJson json))) := by
  simp [Store.replyAfter, Store.reply, StoreCall.key, Store.answer_acquire, h, KeyState.acquire,
    IdempotencyLease.state, Except.map]

/-- What a key keeps, when its `acquire` answers with a kept result. -/
theorem view_of_replyAfter {now : ℕ}
    (h : S.replyAfter mint calls (.acquire key now) = .lease (.ok (.complete (.ofJson json)))) :
    S.view ((S.afterCalls mint calls).keys key) = .complete json := by
  cases hview : S.view ((S.afterCalls mint calls).keys key) with
  | complete json' =>
      rw [replyAfter_complete hview] at h
      simp only [StoreReply.lease.injEq, Except.ok.injEq, LeaseState.complete.injEq] at h
      rw [ofJson_inj h]
  | absent =>
      simp [Store.replyAfter, Store.reply, StoreCall.key, Store.answer_acquire, hview,
        KeyState.acquire, Except.map, IdempotencyLease.state] at h
  | held t =>
      simp [Store.replyAfter, Store.reply, StoreCall.key, Store.answer_acquire, hview,
        KeyState.acquire, Except.map, IdempotencyLease.state] at h

end

/-- **The two drivers answer alike exactly under the condition.**  For every sequence of calls over
any keys, under the tokens each store drew: every call at every point of the sequence is answered
alike, if and only if no call of the sequence records a result over a different one. -/
theorem stores_agree_iff {mint mint' : ℕ → String} (hmint : Function.Injective mint)
    (hmint' : Function.Injective mint') (calls : List StoreCall) :
    (∀ p call, p <+: calls →
        memoryStore.replyAfter mint p call = redisStore.replyAfter mint' p call) ↔
      ∀ p call, p ++ [call] <+: calls → memoryStore.Steady (memoryStore.afterCalls mint p)
        call := by
  constructor
  · intro hagree p call hp
    cases call with
    | complete key i kept now =>
        intro json hjson
        -- the key keeps `json` in both stores before the call, since an `acquire` would answer it
        have hbefore := hagree p (.acquire key now) ((List.prefix_append _ _).trans hp)
        rw [replyAfter_complete hjson] at hbefore
        have hredis := view_of_replyAfter hbefore.symm
        -- after the call the memory store keeps the new result and Redis the old one
        have hafter := hagree _ (.acquire key now) hp
        have hmemory : memoryStore.view
            ((memoryStore.afterCalls mint (p ++ [.complete key i kept now])).keys key) =
            .complete kept.json := by
          rw [Store.afterCalls_append]
          simpa [Store.run, StoreCall.key, Store.act] using
            memory_overwrites hjson (mint i) kept now
        have hkept : redisStore.view
            ((redisStore.afterCalls mint' (p ++ [.complete key i kept now])).keys key) =
            .complete json := by
          rw [Store.afterCalls_append]
          simpa [Store.run, StoreCall.key, Store.act] using redis_keeps hredis (mint' i) kept now
        rw [replyAfter_complete hmemory, replyAfter_complete hkept] at hafter
        simp only [StoreReply.lease.injEq, Except.ok.injEq, LeaseState.complete.injEq] at hafter
        exact (ofJson_inj hafter).symm
    | acquire key now => trivial
    | renew key i now => trivial
    | release key i => trivial
    | forget key => trivial
  · intro hsteady p call hp
    rw [Store.replyAfter, Store.replyAfter, Store.drawn_afterCalls redisStore mint'
      memoryStore mint]
    refine reply_of_alike ?_ _ call
    exact alike_after hmint hmint' (fun q c hq => hsteady q c (hq.trans hp)) call.key

/-! ### Where the two drivers part -/

/-- A token for every possession. -/
def countedToken (i : ℕ) : String := String.ofList (List.replicate i 'x')

theorem countedToken_injective : Function.Injective countedToken := by
  intro i j h
  have h := congrArg (fun s => s.toList.length) h
  simpa [countedToken] using h

/-- The results of two settlements of one possession. -/
def keptFirst : KeptResult := .of (.str "first") (.str "first") rfl

@[inherit_doc keptFirst] def keptSecond : KeptResult := .of (.str "second") (.str "second") rfl

/-- A possession that is settled once. -/
def settledOnce : List StoreCall :=
  [.acquire "invoice:7" 0, .complete "invoice:7" 0 keptFirst 1]

/-- Both stores hold a key that was acquired. -/
theorem view_acquired {σ : Type} (S : Store σ) :
    S.view ((S.afterCalls countedToken [.acquire "invoice:7" 0]).keys "invoice:7") =
      .held (countedToken 0) := by
  simp only [Store.afterCalls, List.foldl_cons, List.foldl_nil, Store.run, StoreCall.key, Store.act,
    Store.blank, Function.update_self]
  rw [S.view_acquire, S.view_empty, KeyState.acquire]

/-- Both stores keep the result of a possession that is settled once. -/
theorem view_settledOnce {σ : Type} (S : Store σ) :
    S.view ((S.afterCalls countedToken settledOnce).keys "invoice:7") =
      .complete keptFirst.json := by
  have hsteady : ∀ json, S.view ((S.afterCalls countedToken [.acquire "invoice:7" 0]).keys
      "invoice:7") = .complete json → json = keptFirst.json := by
    intro json hjson
    rw [view_acquired] at hjson
    cases hjson
  rw [show settledOnce = [.acquire "invoice:7" 0] ++ [.complete "invoice:7" 0 keptFirst 1] from rfl,
    Store.afterCalls_append]
  simp only [Store.run, StoreCall.key, Store.act, Function.update_self]
  rw [Store.view_complete_of_steady hsteady, view_acquired, KeyState.record_held_self]

/-- **A second result for a complete key parts the stores**: the memory driver answers with the
second one, Redis with the first. -/
theorem stores_part :
    memoryStore.replyAfter countedToken
        (settledOnce ++ [.complete "invoice:7" 0 keptSecond 2]) (.acquire "invoice:7" 3) ≠
      redisStore.replyAfter countedToken
        (settledOnce ++ [.complete "invoice:7" 0 keptSecond 2]) (.acquire "invoice:7" 3) := by
  have hmemory : memoryStore.view ((memoryStore.afterCalls countedToken
      (settledOnce ++ [.complete "invoice:7" 0 keptSecond 2])).keys "invoice:7") =
      .complete keptSecond.json := by
    rw [Store.afterCalls_append]
    simpa [Store.run, StoreCall.key, Store.act] using
      memory_overwrites (view_settledOnce memoryStore) (countedToken 0) keptSecond 2
  have hredis : redisStore.view ((redisStore.afterCalls countedToken
      (settledOnce ++ [.complete "invoice:7" 0 keptSecond 2])).keys "invoice:7") =
      .complete keptFirst.json := by
    rw [Store.afterCalls_append]
    simpa [Store.run, StoreCall.key, Store.act] using
      redis_keeps (view_settledOnce redisStore) (countedToken 0) keptSecond 2
  rw [replyAfter_complete hmemory, replyAfter_complete hredis]
  intro h
  simp only [StoreReply.lease.injEq, Except.ok.injEq, LeaseState.complete.injEq] at h
  exact absurd (ofJson_inj h) (by simp [keptFirst, keptSecond, KeptResult.json, KeptResult.of])

/-- The stores agree on what they answer once a possession was settled. -/
theorem stores_agree_example :
    memoryStore.replyAfter countedToken settledOnce (.acquire "invoice:7" 2) =
      redisStore.replyAfter countedToken settledOnce (.acquire "invoice:7" 2) := by
  refine (stores_agree_iff countedToken_injective countedToken_injective settledOnce).2 ?_
    settledOnce (.acquire "invoice:7" 2) (List.prefix_refl _)
  intro p call hp
  obtain ⟨t, ht⟩ := hp
  rcases p with _ | ⟨a, _ | ⟨b, p⟩⟩
  · obtain rfl : call = .acquire "invoice:7" 0 := by simpa [settledOnce] using (List.cons.inj ht).1
    trivial
  · obtain ⟨rfl, h⟩ := List.cons.inj ht
    obtain rfl : call = .complete "invoice:7" 0 keptFirst 1 := (List.cons.inj h).1
    -- the only `complete` of the sequence meets the lease of its own `acquire`
    intro json hjson
    rw [view_acquired] at hjson
    cases hjson
  · simp [settledOnce] at ht

end Jubs
