/-
**Whether the deduplication ids of two definitions can meet.**

Uniqueness is declared per definition.  The key its function gives one payload reaches BullMQ as the
deduplication id of the job, and BullMQ compares the ids of a queue with nothing else.

Main definitions:

* `Jubs.DeduplicationId` — the ids the enqueues of a definition are sent with;
* `Jubs.UniqueKey` — the keys a definition's own `unique` function gives its accepted payloads.

Main results:

* `Jubs.deduplicationId_iff` — the id that is sent is the key the function gave;
* `Jubs.ids_apart_iff` — **the ids of two definitions never meet exactly when their `unique`
  functions never give the same text**.
-/

import Jubs.JobsOptions

set_option autoImplicit false

namespace Jubs

/-- The ids that the enqueues of a definition are deduplicated by. -/
def DeduplicationId (definition : JobDefinition) (id : String) : Prop :=
  ∃ data request deduplication, directRequest definition data = .ok request ∧
    (toEnqueueOptions request).deduplication = some deduplication ∧ deduplication.id = id

/-- Whether a `unique` is refused for a missing window. -/
def Unique.windowless (unique : Unique) : Bool := unique.mode = .keepLast && unique.ttlMs.isNone

/-- The keys that the `unique` of a definition gives the payloads its schema accepts. -/
def UniqueKey (definition : JobDefinition) (key : String) : Prop :=
  ∃ data validated unique, validatePayload definition data = .ok validated ∧
    uniqueOf definition validated = some unique ∧ unique.windowless = false ∧
    unique.key validated = .ok key

theorem resolveUnique_ok {unique : Unique} {data : Value} {key : String}
    (hkey : unique.key data = .ok key) (hwindow : unique.windowless = false) :
    ∃ r, resolveUnique unique data = .ok r ∧ r.key = key := by
  obtain ⟨f, mode, ttlMs⟩ := unique
  cases mode with
  | keepFirst => exact ⟨.keepFirst key ttlMs, bind_eq_ok.2 ⟨key, hkey, rfl⟩, rfl⟩
  | noOverlap => exact ⟨.noOverlap key, bind_eq_ok.2 ⟨key, hkey, rfl⟩, rfl⟩
  | keepLast =>
      cases ttlMs with
      | none => cases hwindow
      | some ttlMs => exact ⟨.keepLast key ttlMs, bind_eq_ok.2 ⟨key, hkey, rfl⟩, rfl⟩

theorem windowless_of_resolveUnique {unique : Unique} {data : Value} {r : ResolvedUnique}
    (h : resolveUnique unique data = .ok r) : unique.windowless = false := by
  obtain ⟨f, mode, ttlMs⟩ := unique
  obtain ⟨key, -, h⟩ := bind_eq_ok.1 h
  cases mode with
  | keepFirst => rfl
  | noOverlap => rfl
  | keepLast =>
      cases ttlMs with
      | none => cases h
      | some ttlMs => rfl

/-- The delivery of a definition whose policy declares a `unique` for the payload. -/
theorem resolveDelivery_of_unique {definition : JobDefinition} {data : Value} {unique : Unique}
    {r : ResolvedUnique} (hu : uniqueOf definition data = some unique)
    (hr : resolveUnique unique data = .ok r) :
    ∃ delivery, resolveDelivery definition data = .ok delivery ∧ delivery.unique = some r := by
  unfold uniqueOf at hu
  split at hu
  · rename_i overrides ho
    have hkept : keptUnique true data overrides.unique = .ok (some r) := by
      simp [keptUnique, hu, hr, Functor.map, Except.map]
    exact ⟨_, bind_eq_ok.2 ⟨some overrides, ho, bind_eq_ok.2 ⟨some r, hkept, rfl⟩⟩, rfl⟩
  · cases hu

/-- **The id that is sent is the key the function gave**, and nothing is added to it. -/
theorem deduplicationId_iff {definition : JobDefinition} {id : String} :
    DeduplicationId definition id ↔ UniqueKey definition id := by
  constructor
  · rintro ⟨data, request, deduplication, hrequest, hdeduplication, rfl⟩
    obtain ⟨validated, hvalidated, hrequest⟩ := bind_eq_ok.1 hrequest
    obtain ⟨delivery, hdelivery, hrequest⟩ := bind_eq_ok.1 hrequest
    obtain rfl := Except.ok.inj hrequest
    obtain ⟨r, hr, rfl⟩ := Option.map_eq_some_iff.1 hdeduplication
    obtain ⟨unique, hunique, hresolved⟩ := unique_resolveDelivery hdelivery hr
    exact ⟨data, validated, unique, hvalidated, hunique, windowless_of_resolveUnique hresolved,
      by rw [id_toDeduplication]; exact key_resolveUnique hresolved⟩
  · rintro ⟨data, validated, unique, hvalidated, hunique, hwindow, hkey⟩
    obtain ⟨r, hr, rfl⟩ := resolveUnique_ok hkey hwindow
    obtain ⟨delivery, hdelivery, hdeliveryUnique⟩ := resolveDelivery_of_unique hunique hr
    refine ⟨data, ⟨definition.queue, writeEnvelope definition data .direct, delivery, none⟩,
      toDeduplication r, ?_, ?_, id_toDeduplication r⟩
    · exact bind_eq_ok.2 ⟨validated, hvalidated, bind_eq_ok.2 ⟨delivery, hdelivery, rfl⟩⟩
    · simp [deduplication_toEnqueueOptions, hdeliveryUnique]

/-- **The ids of two definitions never meet exactly when their `unique` functions never give the
same text**, on any payloads their schemas accept.  The names of the definitions play no part. -/
theorem ids_apart_iff (d₁ d₂ : JobDefinition) :
    (∀ id₁ id₂, DeduplicationId d₁ id₁ → DeduplicationId d₂ id₂ → id₁ ≠ id₂) ↔
      ∀ key, ¬ (UniqueKey d₁ key ∧ UniqueKey d₂ key) := by
  simp only [deduplicationId_iff]
  constructor
  · rintro h key ⟨h₁, h₂⟩
    exact h key key h₁ h₂ rfl
  · rintro h id₁ id₂ h₁ h₂ rfl
    exact h id₁ ⟨h₁, h₂⟩

/-- A definition on the queue `mail` that is unique per user. -/
def uniquePerUser (name : String) : JobDefinition where
  name := name
  queue := "mail"
  payload := ⟨fun v => .ok (.value v)⟩
  result := none
  awaits := []
  version := none
  migrations := []
  delivery := some (.static ⟨none, none, none, none, none, none,
    some ⟨fun v => .ok (match v.get "userId" with | .str s => s | _ => ""), .keepFirst, none⟩⟩)
  schedule := false
  idempotencyKey := none
  timeoutMs := none

/-- **Two accepted definitions on one queue whose ids meet**: the welcome mail and the farewell mail
of one user, each unique per user. -/
theorem ids_meet_example :
    ∃ d₁ d₂ id, defineJob d₁ = .ok d₁ ∧ defineJob d₂ = .ok d₂ ∧ d₁.name ≠ d₂.name ∧
      d₁.queue = d₂.queue ∧ DeduplicationId d₁ id ∧ DeduplicationId d₂ id := by
  have hkey : ∀ name, UniqueKey (uniquePerUser name) "7" := by
    intro name
    exact ⟨.obj [("userId", .str "7")], _, _, rfl, rfl, rfl, rfl⟩
  exact ⟨uniquePerUser "email.welcome", uniquePerUser "email.farewell", "7",
    defineJob_plain rfl rfl rfl rfl, defineJob_plain rfl rfl rfl rfl, by decide, rfl,
    deduplicationId_iff.2 (hkey _), deduplicationId_iff.2 (hkey _)⟩

end Jubs
