/-
**Whether the keys of two definitions can meet.**

The idempotency key of a delivery is the name of its definition and the key the definition computes,
around a colon.  A store keeps what it keeps under that text alone.  Both halves are free texts, and
either may hold a colon.

Main definitions:

* `Jubs.Accepted` — a definition that `defineJob` accepts;
* `Jubs.KeysApart` — no two payloads of two definitions name one key;
* `Jubs.Keyspace`, `Jubs.KeyCall` — a store of all keys, and the calls that reach it;
* `Jubs.Undisturbed` — no delivery of one definition changes a key of another.

Main results:

* `Jubs.undisturbed_of_keysApart` — definitions whose keys never meet do not disturb each other;
* `Jubs.keys_meet_iff` — when two keys are the same text;
* `Jubs.keys_apart_iff` — **the keys of two names never meet exactly when neither name continues the
  other past a colon**.
-/

import Jubs.LeaseRuns

set_option autoImplicit false

namespace Jubs

/-- A definition that `defineJob` accepts, and gives back. -/
def Accepted (definition : JobDefinition) : Prop := defineJob definition = .ok definition

/-- The keys the payloads of a definition name. -/
def KeyOf (definition : JobDefinition) (key : String) : Prop :=
  ∃ data, idempotencyKeyFor definition data = .ok (some key)

/-- **No two payloads of two definitions name one key.** -/
def KeysApart (d₁ d₂ : JobDefinition) : Prop := ∀ k₁ k₂, KeyOf d₁ k₁ → KeyOf d₂ k₂ → k₁ ≠ k₂

theorem keyOf_iff {definition : JobDefinition} {key : String} :
    KeyOf definition key ↔ ∃ f data k, definition.idempotencyKey = some f ∧ f data = .ok k ∧
      key = Cut.join ':' definition.name k := by
  constructor
  · rintro ⟨data, h⟩
    unfold idempotencyKeyFor at h
    split at h
    · cases h
    · rename_i f hf
      obtain ⟨k, hk, h⟩ := bind_eq_ok.1 h
      exact ⟨f, data, k, hf, hk, (Option.some_inj.1 (Except.ok.inj h)).symm⟩
  · rintro ⟨f, data, k, hf, hk, rfl⟩
    exact ⟨data, by simp [idempotencyKeyFor, hf, hk, bind, Except.bind, pure, Except.pure]⟩

/-! ### A store of all keys -/

/-- What a store keeps, key by key. -/
abbrev Keyspace (σ : Type) : Type := String → σ

/-- A call on one key of a store. -/
inductive KeyCall where
  | acquire (token : String) (now : ℕ)
  | renew (token : String) (now : ℕ)
  | complete (token : String) (kept : KeptResult) (now : ℕ)
  | release (token : String)
  | forget
  | expire

variable {σ : Type} (S : Store σ)

/-- What a call leaves of its key. -/
def Store.after (s : σ) : KeyCall → σ
  | .acquire token now => (S.acquire now token s).1
  | .renew token now => S.renew now token s
  | .complete token kept now => S.complete now token kept s
  | .release token => S.release token s
  | .forget => (S.forget s).1
  | .expire => S.expire s

/-- A store of all keys, under calls that each reach one key. -/
def keyspace : Machine (Keyspace σ) (String × KeyCall) := fun space call =>
  some (Function.update space call.1 (S.after (space call.1) call.2))

/-- **No run of calls on the keys of `d₁` changes a key of `d₂`**, so a delivery of `d₂` meets its
keys as its own deliveries left them: none is held, complete or forgotten on account of `d₁`. -/
def Undisturbed (d₁ d₂ : JobDefinition) : Prop :=
  ∀ (space after : Keyspace σ) l, (∀ call ∈ l, KeyOf d₁ call.1) →
    (keyspace S).exec space l = some after → ∀ key, KeyOf d₂ key → after key = space key

/-- Definitions whose keys never meet do not disturb each other. -/
theorem undisturbed_of_keysApart {d₁ d₂ : JobDefinition} (h : KeysApart d₁ d₂) :
    Undisturbed S d₁ d₂ := by
  intro space after l hl hexec key hkey
  refine Machine.exec_invariant_of (P := fun s => s key = space key) ?_ hexec hl rfl
  intro s call t hcall hs ht
  obtain rfl := Option.some_inj.1 ht
  rw [Function.update_of_ne (h call.1 key hcall hkey).symm]
  exact hs

/-- A definition accepted under any name, whose key is the text it is given. -/
def keyedBy (name key : String) : JobDefinition where
  name := name
  queue := "orders"
  payload := ⟨fun v => .ok (.value v)⟩
  result := none
  awaits := []
  version := none
  migrations := []
  delivery := none
  schedule := false
  idempotencyKey := some fun _ => .ok key
  timeoutMs := none

theorem keyedBy_accepted (name key : String) : Accepted (keyedBy name key) :=
  defineJob_plain rfl rfl rfl rfl

theorem keyedBy_keyOf (name key : String) : KeyOf (keyedBy name key) (Cut.join ':' name key) :=
  keyOf_iff.2 ⟨_, .undefined, key, rfl, rfl, rfl⟩

/-- When two keys are the same text: their names collide around the colon. -/
theorem keys_meet_iff {n₁ n₂ : String} :
    (∃ d₁ d₂, Accepted d₁ ∧ Accepted d₂ ∧ d₁.name = n₁ ∧ d₂.name = n₂ ∧ ¬ KeysApart d₁ d₂) ↔
      ∃ k₁ k₂, Cut.join ':' n₁ k₁ = Cut.join ':' n₂ k₂ := by
  constructor
  · rintro ⟨d₁, d₂, -, -, rfl, rfl, h⟩
    simp only [KeysApart, not_forall, not_not] at h
    obtain ⟨key, key', h₁, h₂, rfl⟩ := h
    obtain ⟨-, -, k₁, -, -, hkey₁⟩ := keyOf_iff.1 h₁
    obtain ⟨-, -, k₂, -, -, hkey₂⟩ := keyOf_iff.1 h₂
    exact ⟨k₁, k₂, hkey₁.symm.trans hkey₂⟩
  · rintro ⟨k₁, k₂, h⟩
    refine ⟨keyedBy n₁ k₁, keyedBy n₂ k₂, keyedBy_accepted n₁ k₁, keyedBy_accepted n₂ k₂,
      rfl, rfl, ?_⟩
    intro hapart
    exact hapart _ _ (keyedBy_keyOf n₁ k₁) (keyedBy_keyOf n₂ k₂) h

/-- **The keys of two names never meet exactly when neither name continues the other past a
colon.**  The property on the left is that of any two definitions accepted under these names: their
keys are different texts, and no delivery of the one changes a key of the other in the store. -/
theorem keys_apart_iff {n₁ n₂ : String} (hne : n₁ ≠ n₂) :
    (∀ d₁ d₂, Accepted d₁ → Accepted d₂ → d₁.name = n₁ → d₂.name = n₂ →
      KeysApart d₁ d₂ ∧ Undisturbed S d₁ d₂) ↔
      Cut.continues ':' n₁ n₂ = false ∧ Cut.continues ':' n₂ n₁ = false := by
  have hmeet := keys_meet_iff.trans (Cut.join_collides_iff (c := ':') hne)
  constructor
  · intro h
    have hnone : ¬ (Cut.continues ':' n₁ n₂ = true ∨ Cut.continues ':' n₂ n₁ = true) := by
      intro hcontinues
      obtain ⟨d₁, d₂, h₁, h₂, hn₁, hn₂, hmeets⟩ := hmeet.2 hcontinues
      exact hmeets (h d₁ d₂ h₁ h₂ hn₁ hn₂).1
    simpa using hnone
  · rintro ⟨hc₁, hc₂⟩ d₁ d₂ h₁ h₂ hn₁ hn₂
    have hapart : KeysApart d₁ d₂ := by
      by_contra hmeets
      have := hmeet.1 ⟨d₁, d₂, h₁, h₂, hn₁, hn₂, hmeets⟩
      simp [hc₁, hc₂] at this
    exact ⟨hapart, undisturbed_of_keysApart S hapart⟩

/-- Two names of which neither continues the other. -/
theorem keys_apart_example :
    KeysApart (keyedBy "invoice.send" "7") (keyedBy "invoice.void" "7") := by
  have hne : "invoice.send" ≠ "invoice.void" := by decide
  exact ((keys_apart_iff redisStore hne).2 ⟨by decide, by decide⟩ _ _ (keyedBy_accepted _ _)
    (keyedBy_accepted _ _) rfl rfl).1

/-- **Two accepted definitions whose keys meet**: a running delivery of `invoice` with the key
`send:7` makes a delivery of `invoice:send` with the key `7` find its key held. -/
theorem keys_meet_example :
    ∃ d₁ d₂ key, Accepted d₁ ∧ Accepted d₂ ∧ d₁.name ≠ d₂.name ∧ KeyOf d₁ key ∧ KeyOf d₂ key ∧
      ∃ space, (keyspace memoryStore).exec (fun _ => memoryStore.empty)
          [(key, .acquire "a" 0)] = some space ∧
        (memoryStore.acquire 1 "b" (space key)).2 = .ok .held := by
  refine ⟨keyedBy "invoice" "send:7", keyedBy "invoice:send" "7", "invoice:send:7",
    keyedBy_accepted _ _, keyedBy_accepted _ _, by decide, keyedBy_keyOf "invoice" "send:7",
    keyedBy_keyOf "invoice:send" "7", _, rfl, ?_⟩
  rw [Function.update_self]
  rfl

end Jubs
