/-
**The Redis idempotency store: five scripts over one text.**

Redis keeps one text per key, with an expiry.  A running lease is stored as `running:` and its
token, a complete key as the JSON of the kept result.  The five scripts read the text and act on
it in one step, and an expiry may take it away between any two of them.

Main definitions:

* `Jubs.Cell` — what Redis keeps under one key;
* `Jubs.acquireLua`, `Jubs.renewLua`, `Jubs.completeLua`, `Jubs.releaseLua`, `Jubs.forgetLua` — the
  scripts, in the words they are written in;
* `Jubs.readLease`, `Jubs.readForgotten` — their replies, as the store reads them;
* `Jubs.Redis.Call`, `Jubs.Redis.key` — a call of a worker, and the key as a machine;
* `Jubs.redisStore` — the scripts as a store of the three states.

Main results:

* `Jubs.Redis.held_frame` — a held key is changed by nobody else;
* `Jubs.Redis.kept_run` — a kept result stays through every run that neither forgets nor expires;
* `Jubs.Redis.possession_ends` — a key held by one token and later acquired was let go in between;
* `Jubs.Redis.idempotency_contract` — **the three together, over every run**.
-/

import Jubs.Idempotency
import Jubs.Machine

set_option autoImplicit false

namespace Jubs

/-! ### The scripts -/

/-- What Redis keeps under a key that exists. -/
structure Entry where
  value : String
  expiresAt : ℕ
deriving DecidableEq

/-- What Redis keeps under one key. -/
abbrev Cell : Type := Option Entry

/-- `redis.call("GET", KEYS[1])`. -/
def Cell.get (c : Cell) : Option String := c.map Entry.value

/-- `RUNNING_PREFIX`. -/
def runningPrefix : String := "running:"

/-- `heldBy(token)`. -/
def heldBy (token : String) : String := runningPrefix ++ token

/-- `ACQUIRE_LUA`, with what it replies: the stored text and its remaining time, or nothing. -/
def acquireLua (argv₁ : String) (leaseMs : ℕ+) (now : ℕ) (c : Cell) : Cell × Option (String × ℕ) :=
  match c with
  | some current => (c, some (current.value, current.expiresAt - now))
  | none => (some ⟨argv₁, now + leaseMs⟩, none)

/-- `RENEW_LUA`. -/
def renewLua (argv₁ : String) (leaseMs : ℕ+) (now : ℕ) (c : Cell) : Cell × ℕ :=
  if c.get = some argv₁ then (some ⟨argv₁, now + leaseMs⟩, 1) else (c, 0)

/-- `COMPLETE_LUA`. -/
def completeLua (argv₁ argv₂ : String) (retainForMs : ℕ+) (now : ℕ) (c : Cell) : Cell × ℕ :=
  if c.get ≠ none ∧ c.get ≠ some argv₁ then (c, 0) else (some ⟨argv₂, now + retainForMs⟩, 1)

/-- `RELEASE_LUA`. -/
def releaseLua (argv₁ : String) (c : Cell) : Cell × ℕ :=
  if c.get = some argv₁ then (none, 1) else (c, 0)

/-- `FORGET_LUA`. -/
def forgetLua (argv₁ : String) (c : Cell) : Cell × ℕ :=
  match c with
  | none => (c, 0)
  | some current => if Cut.startsWith current.value argv₁ then (c, 2) else (none, 1)

/-! ### The store's own reading of the replies -/

/-- `readLease(reply, token)`. -/
def readLease (reply : Option (String × ℕ)) (token : String) : Except Thrown IdempotencyLease :=
  match reply with
  | none => .ok (.acquired token)
  | some (current, _) =>
      if Cut.startsWith current runningPrefix then .ok .held
      else match Json.parse current with
        | some kept => .ok (.complete (.ofJson kept))
        | none => .error (newError .plain "SyntaxError" "JSON Parse error" none none)

/-- `readForgotten(reply)`. -/
def readForgotten (reply : ℕ) : ForgetOutcome :=
  if reply = 1 then .forgotten else if reply = 2 then .running else .notFound

/-- The text a kept result is stored as: `JSON.stringify(kept)`. -/
def KeptResult.text (kept : KeptResult) : String := kept.json.stringify

theorem heldBy_inj {t t' : String} : heldBy t = heldBy t' ↔ t = t' := by
  constructor
  · intro h
    have h := congrArg String.toList h
    simp only [heldBy, String.toList_append] at h
    exact String.toList_inj.1 (List.append_cancel_left h)
  · exact congrArg heldBy

@[simp] theorem startsWith_heldBy (t : String) : Cut.startsWith (heldBy t) runningPrefix = true :=
  Cut.startsWith_append _ _

/-- The text of a kept result is never taken for a running lease. -/
@[simp] theorem startsWith_text (kept : KeptResult) :
    Cut.startsWith kept.text runningPrefix = false := by
  obtain ⟨cs, hcs⟩ := Json.stringify_obj_head kept.fields
  rw [KeptResult.text, KeptResult.json, Cut.startsWith, hcs]
  rfl

theorem heldBy_ne_text (t : String) (kept : KeptResult) : heldBy t ≠ kept.text := by
  intro h
  have htext := startsWith_text kept
  rw [← h, startsWith_heldBy] at htext
  cases htext

@[simp] theorem parse_text (kept : KeptResult) : Json.parse kept.text = some kept.json :=
  Json.parse_stringify _

/-! ### A script that meets another text -/

theorem renewLua_of_ne {argv₁ : String} {c : Cell} (h : c.get ≠ some argv₁) (leaseMs : ℕ+)
    (now : ℕ) : renewLua argv₁ leaseMs now c = (c, 0) := by
  rw [renewLua, if_neg h]

theorem completeLua_of_ne {argv₁ argv₂ : String} {c : Cell} (h : c.get ≠ none)
    (h₁ : c.get ≠ some argv₁) (retainForMs : ℕ+) (now : ℕ) :
    completeLua argv₁ argv₂ retainForMs now c = (c, 0) := by
  rw [completeLua, if_pos ⟨h, h₁⟩]

theorem releaseLua_of_ne {argv₁ : String} {c : Cell} (h : c.get ≠ some argv₁) :
    releaseLua argv₁ c = (c, 0) := by
  rw [releaseLua, if_neg h]

/-! ### The key as a machine -/

namespace Redis

/-- A call that reaches one key, with the instant it runs at, or an expiry of the key. -/
inductive Call where
  | acquire (token : String) (leaseMs : ℕ+) (now : ℕ)
  | renew (token : String) (leaseMs : ℕ+) (now : ℕ)
  | complete (token : String) (kept : KeptResult) (retainForMs : ℕ+) (now : ℕ)
  | release (token : String)
  | forget
  | expire

/-- What a call leaves of the key. -/
def after (c : Cell) : Call → Cell
  | .acquire token leaseMs now => (acquireLua (heldBy token) leaseMs now c).1
  | .renew token leaseMs now => (renewLua (heldBy token) leaseMs now c).1
  | .complete token kept retainForMs now =>
      (completeLua (heldBy token) kept.text retainForMs now c).1
  | .release token => (releaseLua (heldBy token) c).1
  | .forget => (forgetLua runningPrefix c).1
  | .expire => none

/-- One key, under any order of calls and expiries. -/
def key : Machine Cell Call := fun c call => some (after c call)

/-- What `acquire` answers on a key. -/
def acquired (c : Cell) (token : String) (leaseMs : ℕ+) (now : ℕ) :
    Except Thrown IdempotencyLease :=
  readLease (acquireLua (heldBy token) leaseMs now c).2 token

/-- Whether a call is one that ends a kept result: a `forget`, or an expiry. -/
def Call.ends : Call → Bool
  | .forget | .expire => true
  | _ => false

theorem key_eq_some {c d : Cell} {call : Call} : key c call = some d ↔ after c call = d := by
  simp [key]

/-! ### A held key -/

/-- The calls that carry another token than `t`, and `forget`. -/
def Call.foreign (t : String) : Call → Prop
  | .renew token _ _ | .complete token _ _ _ | .release token => token ≠ t
  | .forget => True
  | .acquire _ _ _ | .expire => False

theorem get_ne_of_held {c : Cell} {t token : String} (hc : c.get = some (heldBy t))
    (hne : token ≠ t) : c.get ≠ some (heldBy token) := by
  intro heq
  exact hne (heldBy_inj.1 (Option.some_inj.1 (heq.symm.trans hc)))

/-- **A held key is changed by nobody else**, neither its value nor its expiry. -/
theorem held_frame {c : Cell} {t : String} (hc : c.get = some (heldBy t)) {call : Call}
    (h : call.foreign t) : after c call = c := by
  cases call with
  | acquire => exact h.elim
  | expire => exact h.elim
  | renew token => rw [after, renewLua_of_ne (get_ne_of_held hc h)]
  | complete token => rw [after, completeLua_of_ne (by simp [hc]) (get_ne_of_held hc h)]
  | release token => rw [after, releaseLua_of_ne (get_ne_of_held hc h)]
  | forget =>
      obtain ⟨e, rfl, he⟩ := Option.map_eq_some_iff.1 hc
      simp [after, forgetLua, he]

/-- What takes a held key away from its token: its release, its expiry, or its completion. -/
theorem held_leaves {c : Cell} {t : String} (hc : c.get = some (heldBy t)) {call : Call}
    (h : (after c call).get ≠ some (heldBy t)) :
    call = .release t ∨ call = .expire ∨ ∃ kept retainForMs now,
      call = .complete t kept retainForMs now ∧
        after c call = some ⟨kept.text, now + retainForMs⟩ := by
  have hframe : ¬ call.foreign t := fun hf => h ((held_frame hc hf).symm ▸ hc)
  obtain ⟨e, rfl, he⟩ := Option.map_eq_some_iff.1 hc
  cases call with
  | acquire => exact absurd hc h
  | expire => exact Or.inr (Or.inl rfl)
  | forget => exact absurd trivial hframe
  | release token =>
      obtain rfl : token = t := not_not.1 hframe
      exact Or.inl rfl
  | renew token =>
      obtain rfl : token = t := not_not.1 hframe
      exact absurd (by simp [after, renewLua, Cell.get, he]) h
  | complete token kept retainForMs now =>
      obtain rfl : token = t := not_not.1 hframe
      exact Or.inr (Or.inr ⟨kept, retainForMs, now,
          rfl, by simp [after, completeLua, Cell.get, he]⟩)

/-! ### A kept result -/

/-- A call that neither forgets nor expires leaves a kept result as it is. -/
theorem kept_step {e : Entry} {kept : KeptResult} (he : e.value = kept.text) {call : Call}
    (h : call.ends = false) : after (some e) call = some e := by
  have hne : ∀ token, Cell.get (some e) ≠ some (heldBy token) := by
    intro token heq
    exact heldBy_ne_text token kept ((Option.some_inj.1 heq).symm.trans he)
  cases call with
  | acquire => rfl
  | renew token => rw [after, renewLua_of_ne (hne token)]
  | complete token => rw [after, completeLua_of_ne (by simp [Cell.get]) (hne token)]
  | release token => rw [after, releaseLua_of_ne (hne token)]
  | forget => cases h
  | expire => cases h

/-- **A kept result stays** through every run that neither forgets nor expires. -/
theorem kept_run {e : Entry} {kept : KeptResult} (he : e.value = kept.text) {l : List Call}
    {c : Cell} (h : key.exec (some e) l = some c) (hl : ∀ call ∈ l, call.ends = false) :
    c = some e := by
  refine Machine.exec_invariant_of (P := fun c => c = some e) ?_ h hl rfl
  intro c call d hcall hc hd
  rw [← key_eq_some.1 hd, hc]
  exact kept_step he hcall

/-- A key that kept a result and is free at the end was forgotten, or it expired. -/
theorem kept_leaves {e : Entry} {kept : KeptResult} (he : e.value = kept.text) {l : List Call}
    (h : key.exec (some e) l = some none) :
    ∃ l₁ call l₂, l = l₁ ++ call :: l₂ ∧ key.exec (some e) l₁ = some (some e) ∧
      call.ends = true := by
  obtain ⟨l₁, call, l₂, u, v, rfl, hu, rfl, hv, hleft, -⟩ :=
    Machine.exec_leaves (P := fun c : Cell => c = some e) h rfl (by simp)
  refine ⟨l₁, call, l₂, rfl, hu, ?_⟩
  by_contra hends
  exact hleft ((key_eq_some.1 hv).symm.trans (kept_step he (by simpa using hends)))

/-- Every acquire of a key that keeps a result answers exactly that result. -/
theorem acquired_kept {e : Entry} {kept : KeptResult} (he : e.value = kept.text) (token : String)
    (leaseMs : ℕ+) (now : ℕ) :
    acquired (some e) token leaseMs now = .ok (.complete (.ofJson kept.json)) := by
  simp [acquired, acquireLua, readLease, he]

/-! ### Two possessions -/

/-- How a possession under `t` that holds the key `c` ends within the calls `l`: its release, its
expiry, or its completion with the record forgotten or expired later on. -/
def Ended (t : String) (c : Cell) (l : List Call) : Prop :=
  ∃ l₁ call l₂ u, l = l₁ ++ call :: l₂ ∧ key.exec c l₁ = some u ∧ u.get = some (heldBy t) ∧
    (call = .release t ∨ call = .expire ∨
      ∃ kept retainForMs now l₃ call' l₄ e, call = .complete t kept retainForMs now ∧
        l₂ = l₃ ++ call' :: l₄ ∧ key.exec (after u call) l₃ = some (some e) ∧
        e.value = kept.text ∧ call'.ends = true)

/-- **A possession ends** before its key is free again. -/
theorem possession_ends {t : String} {c : Cell} (hc : c.get = some (heldBy t)) {l : List Call}
    (h : key.exec c l = some none) : Ended t c l := by
  obtain ⟨l₁, call, l₂, u, v, rfl, hu, hheld, hv, hleft, hvl⟩ :=
    Machine.exec_leaves (P := fun c : Cell => c.get = some (heldBy t)) h hc (by simp [Cell.get])
  rw [← key_eq_some.1 hv] at hleft hvl
  refine ⟨l₁, call, l₂, u, rfl, hu, hheld, ?_⟩
  rcases held_leaves hheld hleft with rfl | rfl | ⟨kept, retainForMs, now, rfl, hafter⟩
  · exact Or.inl rfl
  · exact Or.inr (Or.inl rfl)
  · -- the record must leave too, since the key is free at the end of the run
    rw [hafter] at hvl
    have htext : (⟨kept.text, now + retainForMs⟩ : Entry).value = kept.text := rfl
    obtain ⟨l₃, call', l₄, rfl, hl₃, hends⟩ := kept_leaves htext hvl
    refine Or.inr (Or.inr ⟨kept, retainForMs, now, l₃, call', l₄, ⟨kept.text, now + retainForMs⟩,
      rfl, rfl, ?_, rfl, hends⟩)
    rw [hafter, hl₃]

/-- What `acquire` answers says what it met. -/
theorem eq_none_of_acquired {c : Cell} {token token' : String} {leaseMs : ℕ+} {now : ℕ}
    (h : acquired c token leaseMs now = .ok (.acquired token')) : c = none ∧ token = token' := by
  cases c with
  | none => exact ⟨rfl, by simpa [acquired, acquireLua, readLease] using h⟩
  | some e =>
      simp only [acquired, acquireLua, readLease] at h
      split at h
      · cases h
      · split at h <;> cases h

/-- **The contract of the store**, over every run of calls and expiries that starts at a free key.
A held key is changed by no other token and by no `forget`; a kept result that was written stays,
and is answered, until a `forget` or an expiry; and a second possession comes only after the first
one ended. -/
theorem idempotency_contract {l : List Call} {c : Cell} (h : key.exec none l = some c) :
    (∀ t call, c.get = some (heldBy t) → Call.foreign t call → after c call = c) ∧
    (∀ l₁ t kept retainForMs now l₂ u, l = l₁ ++ .complete t kept retainForMs now :: l₂ →
      key.exec none l₁ = some u →
      after u (.complete t kept retainForMs now) = some ⟨kept.text, now + retainForMs⟩ →
      (∀ call ∈ l₂, call.ends = false) →
      c = some ⟨kept.text, now + retainForMs⟩ ∧
        ∀ token leaseMs now', acquired c token leaseMs now' = .ok (.complete (.ofJson kept.json))) ∧
    (∀ l₁ t leaseMs now l₂ u t' leaseMs' now', l = l₁ ++ .acquire t leaseMs now :: l₂ →
      key.exec none l₁ = some u → acquired u t leaseMs now = .ok (.acquired t) →
      acquired c t' leaseMs' now' = .ok (.acquired t') →
      Ended t (after u (.acquire t leaseMs now)) l₂) := by
  refine ⟨fun t call hc hf => held_frame hc hf, ?_, ?_⟩
  · rintro l₁ t kept retainForMs now l₂ u rfl hu hwrote hl₂
    obtain ⟨u', v, hu', hv, hvl⟩ := Machine.exec_split h
    obtain rfl : u' = u := Option.some_inj.1 (hu'.symm.trans hu)
    rw [← key_eq_some.1 hv, hwrote] at hvl
    have htext : (⟨kept.text, now + retainForMs⟩ : Entry).value = kept.text := rfl
    obtain rfl := kept_run htext hvl hl₂
    exact ⟨rfl, fun token leaseMs now' => acquired_kept rfl token leaseMs now'⟩
  · rintro l₁ t leaseMs now l₂ u t' leaseMs' now' rfl hu hfirst hsecond
    obtain ⟨u', v, hu', hv, hvl⟩ := Machine.exec_split h
    obtain rfl : u' = u := Option.some_inj.1 (hu'.symm.trans hu)
    obtain ⟨rfl, -⟩ := eq_none_of_acquired hfirst
    obtain ⟨rfl, -⟩ := eq_none_of_acquired hsecond
    rw [← key_eq_some.1 hv] at hvl
    exact possession_ends rfl hvl

/-- The contract on a key that is taken, completed, forgotten and taken again. -/
theorem idempotency_contract_example :
    after (some ⟨heldBy "a", 0 + idempotencyLeaseMs⟩) .forget =
      some ⟨heldBy "a", 0 + idempotencyLeaseMs⟩ ∧
    (acquired (some ⟨KeptResult.empty.text, 1 + idempotencyResultRetentionMs⟩) "b"
      idempotencyLeaseMs 2 = .ok (.complete (.ofJson (.obj [])))) ∧
    Ended "a" (some ⟨heldBy "a", 0 + idempotencyLeaseMs⟩)
      [.complete "a" .empty idempotencyResultRetentionMs 1, .forget] := by
  refine ⟨?_, ?_, ?_⟩
  · exact (idempotency_contract (l := [.acquire "a" idempotencyLeaseMs 0]) rfl).1 "a" .forget rfl
      trivial
  · have h := idempotency_contract (l := [.acquire "a" idempotencyLeaseMs 0,
      .complete "a" .empty idempotencyResultRetentionMs 1]) rfl
    exact (h.2.1 [.acquire "a" idempotencyLeaseMs 0] "a" .empty idempotencyResultRetentionMs 1 []
      _ rfl rfl rfl (by simp)).2 "b" idempotencyLeaseMs 2
  · have h := idempotency_contract (l := [.acquire "a" idempotencyLeaseMs 0,
      .complete "a" .empty idempotencyResultRetentionMs 1, .forget]) rfl
    exact h.2.2 [] "a" idempotencyLeaseMs 0 _ none "b" idempotencyLeaseMs 2 rfl rfl rfl rfl

end Redis

/-! ### The scripts as a store of the three states -/

/-- A text the scripts leave under a key: a running lease, or a kept result. -/
def Stored (value : String) : Prop := (∃ t, value = heldBy t) ∨ ∃ kept :
    KeptResult, value = kept.text

/-- What the scripts leave under one key. -/
structure RedisKey where
  cell : Cell
  stored : ∀ e ∈ cell, Stored e.value

/-- The token of a running lease. -/
def tokenOf (value : String) : String :=
  String.ofList (value.toList.drop runningPrefix.toList.length)

/-- The state a text under a key stands for. -/
def Cell.view : Cell → KeyState
  | none => .absent
  | some e =>
      if Cut.startsWith e.value runningPrefix then .held (tokenOf e.value)
      else match Json.parse e.value with
        | some kept => .complete kept
        | none => .absent

@[simp] theorem view_none : Cell.view none = .absent := rfl

@[simp] theorem view_heldBy (t : String) (expiresAt : ℕ) :
    Cell.view (some ⟨heldBy t, expiresAt⟩) = .held t := by
  have h : tokenOf (heldBy t) = t := by
    simp [tokenOf, heldBy, String.toList_append]
  simp [Cell.view, h]

@[simp] theorem view_text (kept : KeptResult) (expiresAt : ℕ) :
    Cell.view (some ⟨kept.text, expiresAt⟩) = .complete kept.json := by
  simp [Cell.view]

namespace RedisKey

/-- The three ways a key can be, each with its text. -/
theorem cases_cell (k : RedisKey) : k.cell = none ∨
    (∃ t expiresAt, k.cell = some ⟨heldBy t, expiresAt⟩) ∨
    ∃ (kept : KeptResult) (expiresAt : ℕ), k.cell = some ⟨kept.text, expiresAt⟩ := by
  obtain ⟨cell, hstored⟩ := k
  cases cell with
  | none => exact Or.inl rfl
  | some e =>
      obtain ⟨value, expiresAt⟩ := e
      rcases hstored _ rfl with ⟨t, h⟩ | ⟨kept, h⟩
      · exact Or.inr (Or.inl ⟨t, expiresAt, by rw [← h]⟩)
      · exact Or.inr (Or.inr ⟨kept, expiresAt, by rw [← h]⟩)

/-- A call leaves a running lease, a kept result or nothing. -/
theorem stored_after {c : Cell} (h : ∀ e ∈ c, Stored e.value) (call : Redis.Call) :
    ∀ e ∈ Redis.after c call, Stored e.value := by
  intro e he
  cases call with
  | acquire token leaseMs now =>
      cases c with
      | none =>
          obtain rfl : _ = e := Option.some_inj.1 he
          exact Or.inl ⟨token, rfl⟩
      | some current => exact h e he
  | renew token leaseMs now =>
      by_cases hc : c.get = some (heldBy token)
      · simp only [Redis.after, renewLua, if_pos hc, Option.mem_some_iff] at he
        exact Or.inl ⟨token, he ▸ rfl⟩
      · rw [Redis.after, renewLua_of_ne hc] at he
        exact h e he
  | complete token kept retainForMs now =>
      by_cases hc : c.get ≠ none ∧ c.get ≠ some (heldBy token)
      · rw [Redis.after, completeLua_of_ne hc.1 hc.2] at he
        exact h e he
      · simp only [Redis.after, completeLua, if_neg hc, Option.mem_some_iff] at he
        exact Or.inr ⟨kept, he ▸ rfl⟩
  | release token =>
      by_cases hc : c.get = some (heldBy token)
      · simp [Redis.after, releaseLua, hc] at he
      · rw [Redis.after, releaseLua_of_ne hc] at he
        exact h e he
  | forget =>
      cases c with
      | none => cases he
      | some current =>
          simp only [Redis.after, forgetLua] at he
          split at he
          · exact h e he
          · cases he
  | expire => cases he

/-- The key after a call. -/
def after (k : RedisKey) (call : Redis.Call) : RedisKey :=
  ⟨Redis.after k.cell call, stored_after k.stored call⟩

@[simp] theorem cell_after (k : RedisKey) (call : Redis.Call) :
    (k.after call).cell = Redis.after k.cell call := rfl

end RedisKey

/-- **The Redis store**: the scripts, on the three states their texts stand for. -/
def redisStore : Store RedisKey where
  empty := ⟨none, by simp⟩
  acquire now token k :=
    (k.after (.acquire token idempotencyLeaseMs now),
      Redis.acquired k.cell token idempotencyLeaseMs now)
  renew now token k := k.after (.renew token idempotencyLeaseMs now)
  complete now token kept k := k.after (.complete token kept idempotencyResultRetentionMs now)
  release token k := k.after (.release token)
  forget k := (k.after .forget, readForgotten (forgetLua runningPrefix k.cell).2)
  expire k := k.after .expire
  view k := k.cell.view
  view_empty := rfl
  view_acquire now token k := by
    rcases k.cases_cell with h | ⟨t, expiresAt, h⟩ | ⟨kept, expiresAt, h⟩ <;>
      simp [Redis.after, acquireLua, h, KeyState.acquire]
  answer_acquire now token k := by
    rcases k.cases_cell with h | ⟨t, expiresAt, h⟩ | ⟨kept, expiresAt, h⟩
    · simp [Redis.acquired, acquireLua, readLease, h, KeyState.acquire]
    · simp [Redis.acquired, acquireLua, readLease, h, KeyState.acquire]
    · rw [h, Redis.acquired_kept rfl]
      simp [KeyState.acquire]
  view_renew now token k := by
    rcases k.cases_cell with h | ⟨t, expiresAt, h⟩ | ⟨kept, expiresAt, h⟩
    · simp [Redis.after, renewLua, h, Cell.get]
    · by_cases ht : t = token <;>
        simp [Redis.after, renewLua, h, Cell.get, heldBy_inj, ht]
    · rw [RedisKey.cell_after, h, Redis.kept_step rfl rfl]
  view_complete now token kept k := by
    refine Or.inl ?_
    rcases k.cases_cell with h | ⟨t, expiresAt, h⟩ | ⟨kept', expiresAt, h⟩
    · simp [Redis.after, completeLua, h, Cell.get, KeyState.record]
    · by_cases ht : t = token <;>
        simp [Redis.after, completeLua, h, Cell.get, heldBy_inj, ht, KeyState.record]
    · rw [RedisKey.cell_after, h, Redis.kept_step rfl rfl]
      simp [KeyState.record]
  view_release token k := by
    rcases k.cases_cell with h | ⟨t, expiresAt, h⟩ | ⟨kept, expiresAt, h⟩
    · simp [Redis.after, releaseLua, h, Cell.get, KeyState.release]
    · by_cases ht : t = token <;>
        simp [Redis.after, releaseLua, h, Cell.get, heldBy_inj, ht, KeyState.release]
    · rw [RedisKey.cell_after, h, Redis.kept_step rfl rfl]
      simp [KeyState.release]
  view_forget k := by
    rcases k.cases_cell with h | ⟨t, expiresAt, h⟩ | ⟨kept, expiresAt, h⟩ <;>
      simp [Redis.after, forgetLua, h, KeyState.forget]
  answer_forget k := by
    rcases k.cases_cell with h | ⟨t, expiresAt, h⟩ | ⟨kept, expiresAt, h⟩ <;>
      simp [forgetLua, h, KeyState.forget, readForgotten]
  view_expire k := Or.inr rfl

end Jubs
