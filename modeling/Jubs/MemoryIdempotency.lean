/-
**The idempotency store of the memory driver.**

The driver keeps two maps, the tokens of the keys that are held and the results of the keys that
are complete.  It has no clock, so nothing expires and a renewal does nothing.  What it keeps of a
result is the JSON of it, read back.

Main definitions:

* `Jubs.asJsonKeeps` — what is kept of a result;
* `Jubs.MemoryKey` — the entries of one key in the two maps, at most one of which holds it;
* `Jubs.memoryStore` — the two maps as a store of the three states.

Main results:

* `Jubs.asJsonKeeps_eq` — a result the library keeps is stored as the JSON it projects to.
-/

import Jubs.Idempotency

set_option autoImplicit false

namespace Jubs

/-- `asJsonKeeps(kept)`: the JSON of the value read back, or the value itself when it has none. -/
def asJsonKeeps (kept : Value) : Value :=
  match kept.toJson with
  | some (some json) => .ofJson json
  | _ => kept

/-- A result the library keeps is stored as the JSON it projects to. -/
theorem asJsonKeeps_eq (kept : KeptResult) : asJsonKeeps kept.value = .ofJson kept.json := by
  simp [asJsonKeeps, kept.projects, KeptResult.json]

/-- The entries of one key in the maps `leased` and `kept`. -/
structure MemoryKey where
  leased : Option String
  kept : Option Value
  exclusive : leased = none ∨ kept = none
  projected : ∀ v ∈ kept, ∃ json, v = .ofJson json

namespace MemoryKey

/-- A key with no entry. -/
def empty : MemoryKey := ⟨none, none, Or.inl rfl, by simp⟩

/-- A key that is held. -/
def held (token : String) : MemoryKey := ⟨some token, none, Or.inr rfl, by simp⟩

/-- A key that is complete. -/
def complete (kept : KeptResult) : MemoryKey :=
  ⟨none, some (asJsonKeeps kept.value), Or.inl rfl, by
    intro v hv
    exact ⟨kept.json, (Option.some_inj.1 hv).symm.trans (asJsonKeeps_eq kept)⟩⟩

@[simp] theorem leased_empty : empty.leased = none := rfl

@[simp] theorem leased_held (t : String) : (held t).leased = some t := rfl

/-- The three ways a key can be. -/
theorem cases_key (k : MemoryKey) : k = empty ∨ (∃ t, k = held t) ∨
    ∃ json, k.leased = none ∧ k.kept = some (.ofJson json) := by
  obtain ⟨leased, kept, hexclusive, hprojected⟩ := k
  cases kept with
  | none =>
      cases leased with
      | none => exact Or.inl rfl
      | some t => exact Or.inr (Or.inl ⟨t, rfl⟩)
  | some v =>
      obtain rfl : leased = none := hexclusive.resolve_right (by simp)
      obtain ⟨json, rfl⟩ := hprojected v rfl
      exact Or.inr (Or.inr ⟨json, rfl, rfl⟩)

/-- `acquire({ key })`, with the token it mints. -/
def acquire (token : String) (k : MemoryKey) : MemoryKey × IdempotencyLease :=
  match k.kept with
  | some kept => (k, .complete kept)
  | none => if k.leased.isSome then (k, .held) else (held token, .acquired token)

/-- `complete({ key, token, kept })`. -/
def record (token : String) (kept : KeptResult) (k : MemoryKey) : MemoryKey :=
  if k.leased ≠ none ∧ k.leased ≠ some token then k else complete kept

/-- `release({ key, token })`. -/
def release (token : String) (k : MemoryKey) : MemoryKey :=
  if k.leased ≠ some token then k else { k with leased := none, exclusive := Or.inl rfl }

/-- `forget(key)`. -/
def forget (k : MemoryKey) : MemoryKey × ForgetOutcome :=
  if k.leased.isSome then (k, .running)
  else if k.kept.isSome then (empty, .forgotten)
  else (k, .notFound)

/-- The state the two entries stand for. -/
def view (k : MemoryKey) : KeyState :=
  match k.kept, k.leased with
  | some kept, _ => .complete ((kept.toJson.getD none).getD .null)
  | none, some token => .held token
  | none, none => .absent

@[simp] theorem view_empty : view empty = .absent := rfl

@[simp] theorem view_held (t : String) : view (held t) = .held t := rfl

theorem view_of_kept {k : MemoryKey} {json : Json} (h : k.kept = some (.ofJson json)) :
    k.view = .complete json := by
  simp [view, h, Value.toJson_ofJson]

@[simp] theorem view_complete (kept : KeptResult) : view (complete kept) = .complete kept.json :=
  view_of_kept (congrArg some (asJsonKeeps_eq kept))

end MemoryKey

/-- **The store of the memory driver**: two maps, on the three states they stand for. -/
def memoryStore : Store MemoryKey where
  empty := .empty
  acquire _ token k := ((k.acquire token).1, .ok (k.acquire token).2)
  renew _ _ k := k
  complete _ token kept k := k.record token kept
  release token k := k.release token
  forget k := k.forget
  expire k := k
  view k := k.view
  view_empty := rfl
  view_acquire _ token k := by
    rcases k.cases_key with rfl | ⟨t, rfl⟩ | ⟨json, -, h⟩
    · rfl
    · rfl
    · simp [MemoryKey.acquire, h, MemoryKey.view_of_kept h, KeyState.acquire]
  answer_acquire _ token k := by
    rcases k.cases_key with rfl | ⟨t, rfl⟩ | ⟨json, -, h⟩
    · rfl
    · rfl
    · simp [MemoryKey.acquire, h, MemoryKey.view_of_kept h, KeyState.acquire]
  view_renew _ _ _ := rfl
  view_complete _ token kept k := by
    rcases k.cases_key with rfl | ⟨t, rfl⟩ | ⟨json, hleased, h⟩
    · exact Or.inl (by simp [MemoryKey.record, KeyState.record])
    · by_cases ht : t = token <;>
        exact Or.inl (by simp [MemoryKey.record, KeyState.record, ht])
    · refine Or.inr ⟨by rw [MemoryKey.view_of_kept h]; rfl, ?_⟩
      simp [MemoryKey.record, hleased]
  view_release token k := by
    rcases k.cases_key with rfl | ⟨t, rfl⟩ | ⟨json, hleased, h⟩
    · rfl
    · by_cases ht : t = token
      · simp [MemoryKey.release, ht, MemoryKey.view, MemoryKey.held]
      · simp [MemoryKey.release, KeyState.release, ht]
    · simp [MemoryKey.release, hleased, MemoryKey.view_of_kept h, KeyState.release]
  view_forget k := by
    rcases k.cases_key with rfl | ⟨t, rfl⟩ | ⟨json, hleased, h⟩
    · rfl
    · rfl
    · simp [MemoryKey.forget, hleased, h, MemoryKey.view_of_kept h, KeyState.forget]
  answer_forget k := by
    rcases k.cases_key with rfl | ⟨t, rfl⟩ | ⟨json, hleased, h⟩
    · rfl
    · rfl
    · simp [MemoryKey.forget, hleased, h, MemoryKey.view_of_kept h, KeyState.forget]
  view_expire _ := Or.inl rfl

end Jubs
