/-
**Resolving how one job is delivered.**

A definition's delivery policy, its defaults and one payload give the delivery of one job.  The
uniqueness a policy declares is resolved with it, or left aside for the paths that carry none.

Main definitions:

* `Jubs.deliveryDefaults`, `Jubs.scheduledDefaults` — the defaults;
* `Jubs.resolveUnique`, `Jubs.resolveDelayMs` — the parts that depend on the payload;
* `Jubs.resolve`, `Jubs.resolveDelivery`, `Jubs.resolveDeliveryWithoutUniqueness` — the delivery.

Main results:

* `Jubs.key_resolveUnique` — a resolved `unique` carries the key its function gave;
* `Jubs.unique_resolveDelivery` — **where the `unique` of a delivery comes from**;
* `Jubs.unique_resolveDeliveryWithoutUniqueness` — the other path carries none.
-/

import Jubs.Definition

set_option autoImplicit false

namespace Jubs

/-- The delivery of a definition that declares no policy. -/
def deliveryDefaults : Delivery where
  attempts := 5
  backoff := ⟨2000⟩
  priority := 20
  keepCompletedForMs := .finite (60 * 60 * 1000 : ℕ)
  keepFailedCount := 200
  delayMs := none
  unique := none

/-- The delivery of a definition that declares a schedule and no policy. -/
def scheduledDefaults : Delivery := { deliveryDefaults with attempts := 1 }

/-- What `keepLast` is refused with when it declares no window. -/
def keepLastWindowFix : String :=
  "jubs: unique mode \"keepLast\" needs a window — give `ttlMs` to the definition's `unique`, " ++
    "so a later enqueue has a period in which it can replace the job"

/-- `resolveUnique(unique, data)`. -/
def resolveUnique (unique : Unique) (data : Value) : Except Thrown ResolvedUnique := do
  let key ← unique.key data
  match unique.mode, unique.ttlMs with
  | .noOverlap, _ => return .noOverlap key
  | .keepLast, none => throw (plainError keepLastWindowFix none)
  | .keepLast, some ttlMs => return .keepLast key ttlMs
  | .keepFirst, ttlMs => return .keepFirst key ttlMs

/-- `Math.max(a, b)`. -/
def maxNumber (a b : Number) : Number :=
  if a = .nan ∨ b = .nan then .nan else if a.le b then b else a

/-- `resolveDelayMs(delayMs, unique)`. -/
def resolveDelayMs (delayMs : Option Number) : Option ResolvedUnique → Option Number
  | some (.keepLast _ ttlMs) => some (maxNumber (delayMs.getD 0) ttlMs)
  | _ => delayMs

/-- The defaults a definition's policy starts from. -/
def defaultsOf (definition : JobDefinition) : Delivery :=
  if definition.schedule then scheduledDefaults else deliveryDefaults

/-- What a definition's policy sets for one payload. -/
def overridesOf (definition : JobDefinition) (data : Value) :
    Except Thrown (Option DeliveryOverrides) :=
  match definition.delivery with
  | none => .ok none
  | some (.static overrides) => .ok (some overrides)
  | some (.computed policy) => (policy data (defaultsOf definition)).map some

/-- The `unique` a path that keeps uniqueness resolves, and none on a path that does not. -/
def keptUnique (keepUnique : Bool) (data : Value) :
    Option Unique → Except Thrown (Option ResolvedUnique)
  | some unique => if keepUnique then some <$> resolveUnique unique data else pure none
  | none => pure none

/-- `resolve(definition, data, keepUnique)`. -/
def resolve (definition : JobDefinition) (data : Value) (keepUnique : Bool) :
    Except Thrown Delivery := do
  let defaults := defaultsOf definition
  match ← overridesOf definition data with
  | none => return defaults
  | some overrides =>
      let unique ← keptUnique keepUnique data overrides.unique
      return {
        attempts := overrides.attempts.getD defaults.attempts
        backoff := overrides.backoff.getD defaults.backoff
        priority := overrides.priority.getD defaults.priority
        keepCompletedForMs := overrides.keepCompletedForMs.getD defaults.keepCompletedForMs
        keepFailedCount := overrides.keepFailedCount.getD defaults.keepFailedCount
        delayMs := resolveDelayMs overrides.delayMs unique
        unique := unique }

/-- `resolveDelivery(definition, data)`. -/
def resolveDelivery (definition : JobDefinition) (data : Value) : Except Thrown Delivery :=
  resolve definition data true

/-- `resolveDeliveryWithoutUniqueness(definition, data)`. -/
def resolveDeliveryWithoutUniqueness (definition : JobDefinition) (data : Value) :
    Except Thrown Delivery :=
  resolve definition data false

/-! ### The uniqueness a delivery carries -/

/-- The key of a resolved `unique`. -/
def ResolvedUnique.key : ResolvedUnique → String
  | .keepFirst key _ | .keepLast key _ | .noOverlap key => key

theorem key_resolveUnique {unique : Unique} {data : Value} {r : ResolvedUnique}
    (h : resolveUnique unique data = .ok r) : unique.key data = .ok r.key := by
  obtain ⟨key, hkey, h⟩ := bind_eq_ok.1 h
  split at h
  · exact Except.ok.inj h ▸ hkey
  · cases h
  · exact Except.ok.inj h ▸ hkey
  · exact Except.ok.inj h ▸ hkey

/-- The `unique` a definition's policy declares for one payload. -/
def uniqueOf (definition : JobDefinition) (data : Value) : Option Unique :=
  match overridesOf definition data with
  | .ok (some overrides) => overrides.unique
  | _ => none

theorem unique_defaultsOf (definition : JobDefinition) : (defaultsOf definition).unique = none := by
  unfold defaultsOf
  split <;> rfl

/-- **Where the `unique` of a delivery comes from**: the one the policy declares for the payload. -/
theorem unique_resolveDelivery {definition : JobDefinition} {data : Value} {delivery : Delivery}
    {r : ResolvedUnique} (h : resolveDelivery definition data = .ok delivery)
    (hr : delivery.unique = some r) :
    ∃ unique, uniqueOf definition data = some unique ∧ resolveUnique unique data = .ok r := by
  obtain ⟨overrides, ho, h⟩ := bind_eq_ok.1 h
  cases overrides with
  | none =>
      obtain rfl := Except.ok.inj h
      simp [unique_defaultsOf] at hr
  | some overrides =>
      obtain ⟨u, hu, h⟩ := bind_eq_ok.1 h
      obtain rfl := Except.ok.inj h
      obtain rfl : u = some r := hr
      cases hunique : overrides.unique with
      | none => simp [hunique, keptUnique, pure, Except.pure] at hu
      | some unique =>
          refine ⟨unique, by simp [uniqueOf, ho, hunique], ?_⟩
          cases hres : resolveUnique unique data with
          | error e => simp [hunique, keptUnique, hres, Functor.map, Except.map] at hu
          | ok r' => simpa [hunique, keptUnique, hres, Functor.map, Except.map] using hu

/-- The other path carries no `unique`. -/
theorem unique_resolveDeliveryWithoutUniqueness {definition : JobDefinition} {data : Value}
    {delivery : Delivery} (h : resolveDeliveryWithoutUniqueness definition data = .ok delivery) :
    delivery.unique = none := by
  obtain ⟨overrides, ho, h⟩ := bind_eq_ok.1 h
  cases overrides with
  | none => exact Except.ok.inj h ▸ unique_defaultsOf definition
  | some overrides =>
      obtain ⟨u, hu, h⟩ := bind_eq_ok.1 h
      obtain rfl := Except.ok.inj h
      cases hunique : overrides.unique <;>
        simpa [hunique, keptUnique, pure, Except.pure, eq_comm] using hu

end Jubs
