/-
**The states of an idempotency key, and what a store of them promises.**

A key is absent, held by a running delivery under a token, or complete with a kept result.  The
library relies on a store only through five operations on one key; what each of them does to the
three states is stated once, and a store is a representation of the three states whose operations
do exactly that.

Main definitions:

* `Jubs.idempotencyKeyFor` — the key a definition gives a payload;
* `Jubs.KeptResult`, `Jubs.keptResultOf` — the result a complete key keeps;
* `Jubs.KeyState` — the three states, with the effect of every operation on them;
* `Jubs.Store` — a representation of one key that refines the three states.

Main results:

* `Jubs.KeyState.held_of_other` — **only the token that holds a key, or its expiry, changes it**.
-/

import Jubs.Cut
import Jubs.Definition
import Mathlib.Data.PNat.Basic

set_option autoImplicit false

namespace Jubs

/-! ### Keys and constants -/

/-- `idempotencyKeyFor(definition, data)`. -/
def idempotencyKeyFor (definition : JobDefinition) (data : Value) :
    Except Thrown (Option String) :=
  match definition.idempotencyKey with
  | none => .ok none
  | some key => do
      let key ← key data
      return some (Cut.join ':' definition.name key)

/-- `IDEMPOTENCY_LEASE_MS`. -/
def idempotencyLeaseMs : ℕ+ := 30000

/-- `IDEMPOTENCY_RESULT_RETENTION_MS`. -/
def idempotencyResultRetentionMs : ℕ+ := 24 * 60 * 60 * 1000

/-- `IDEMPOTENCY_MAX_RESULT_BYTES`. -/
def idempotencyMaxResultBytes : ℕ := 64 * 1024

/-! ### Kept results -/

/-- A result the library keeps: an object, and the fields `JSON.stringify` projects it to. -/
structure KeptResult where
  value : Value
  fields : List (String × Json)
  projects : value.toJson = some (some (.obj fields))

/-- `{}`. -/
def KeptResult.empty : KeptResult := ⟨.obj [], [], rfl⟩

/-- `{ result }`, for a result `JSON.stringify` projects to `json`. -/
def KeptResult.of (result : Value) (json : Json) (h : result.toJson = some (some json)) :
    KeptResult :=
  ⟨.obj [("result", result)], [("result", json)], by simp [Value.toJson, Value.fieldsToJson, h]⟩

/-- The JSON a kept result is stored as. -/
def KeptResult.json (kept : KeptResult) : Json := .obj kept.fields

/-- `keptResultOf(result)`: nothing of a result that is no JSON, or whose JSON is too long. -/
def keptResultOf (result : Value) : KeptResult :=
  match h : result.toJson with
  | some (some json) =>
      if idempotencyMaxResultBytes < json.stringify.utf8ByteSize then .empty
      else .of result json h
  | _ => .empty

/-! ### The three states of a key -/

/-- What `acquire` answers. -/
inductive IdempotencyLease where
  | acquired (token : String)
  | held
  | complete (kept : Value)

/-- What `forget` answers. -/
inductive ForgetOutcome where
  | forgotten
  | notFound
  | running
deriving DecidableEq

/-- The three states of an idempotency key. -/
inductive KeyState where
  | absent
  | held (token : String)
  | complete (kept : Json)

namespace KeyState

/-- Taking the key: it is free only when it is absent. -/
def acquire (token : String) : KeyState → KeyState × IdempotencyLease
  | absent => (held token, .acquired token)
  | held token' => (held token', .held)
  | complete kept => (complete kept, .complete (.ofJson kept))

/-- Recording a result: a key held under another token, or complete already, stays as it is. -/
def record (token : String) (kept : Json) : KeyState → KeyState
  | absent => complete kept
  | held token' => if token' = token then complete kept else held token'
  | complete kept' => complete kept'

/-- Giving the key back. -/
def release (token : String) : KeyState → KeyState
  | held token' => if token' = token then absent else held token'
  | k => k

/-- Forgetting the key: one that a delivery holds is refused. -/
def forget : KeyState → KeyState × ForgetOutcome
  | absent => (absent, .notFound)
  | held token => (held token, .running)
  | complete _ => (absent, .forgotten)

/-- Whether a key keeps a result. -/
def isComplete : KeyState → Bool
  | complete _ => true
  | _ => false

@[simp] theorem record_held_self (token : String) (kept : Json) :
    record token kept (held token) = complete kept := by simp [record]

@[simp] theorem release_held_self (token : String) : release token (held token) = absent := by
  simp [release]

/-- **Only the token that holds a key changes it**, whatever else is asked of the key. -/
theorem held_of_other {token token' : String} (h : token' ≠ token) (kept : Json) :
    record token kept (held token') = held token' ∧ release token (held token') = held token' ∧
      (acquire token (held token')).1 = held token' ∧ (forget (held token')).1 = held token' := by
  simp [record, release, acquire, forget, h]

end KeyState

/-! ### Stores -/

/-- A store of one key, seen through the five operations of `IdempotencyStore`, the instant each
runs at, and the expiry of what it holds.  The laws say that the operations act on the three states
as `KeyState` does, and that an expiry frees the key or does nothing.  On one point stores are free
to differ: a second result for a key that is complete already may replace the first. -/
structure Store (σ : Type) where
  empty : σ
  acquire : ℕ → String → σ → σ × Except Thrown IdempotencyLease
  renew : ℕ → String → σ → σ
  complete : ℕ → String → KeptResult → σ → σ
  release : String → σ → σ
  forget : σ → σ × ForgetOutcome
  expire : σ → σ
  view : σ → KeyState
  view_empty : view empty = .absent
  view_acquire : ∀ now token s, view (acquire now token s).1 = ((view s).acquire token).1
  answer_acquire : ∀ now token s, (acquire now token s).2 = .ok ((view s).acquire token).2
  view_renew : ∀ now token s, view (renew now token s) = view s
  view_complete : ∀ now token kept s,
    view (complete now token kept s) = (view s).record token kept.json ∨
      ((view s).isComplete ∧ view (complete now token kept s) = .complete kept.json)
  view_release : ∀ token s, view (release token s) = (view s).release token
  view_forget : ∀ s, view (forget s).1 = (view s).forget.1
  answer_forget : ∀ s, (forget s).2 = (view s).forget.2
  view_expire : ∀ s, view (expire s) = view s ∨ view (expire s) = .absent

end Jubs
