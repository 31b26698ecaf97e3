/-
**Uniqueness on the six ways to the driver.**

A job reaches the driver from a direct enqueue, out of an atomic block, as a node of a flow, from an
outbox row, as the replay of a dead record, or as the template of a schedule.  Only the first two
carry the `unique` of its policy; flows and outbox rows refuse a policy that declares one, and the
three others resolve the delivery without it.

Main definitions:

* `Jubs.SameButUnique` — a delivery that differs from another in its uniqueness alone;
* `Jubs.EnqueuePath`, `Jubs.Hands` — the ways to the driver, and what each hands over;
* `Jubs.PolicyKept` — what each of them owes to the policy of the definition;
* `Jubs.WindowedPolicy` — a policy whose `keepLast` window and delay are numbers.

Main results:

* `Jubs.resolveDelivery_eq_ok_iff` — a delivery is the one without uniqueness, with its `unique` and
  the delay of its window;
* `Jubs.composeFlow_within` — every node of a flow was composed from a definition;
* `Jubs.atomicRun_made` — over every run, what the driver is handed and what the outbox is given;
* `Jubs.policyKept_iff` — **what the six ways owe to a policy, and when they pay it**;
* `Jubs.window_lost` — a delay that is below its window.
-/

import Jubs.AtomicRuns
import Jubs.Outbox
import Jubs.Replay
import Jubs.Schedules

set_option autoImplicit false

namespace Jubs

/-! ### A delivery with and without uniqueness -/

/-- What a policy sets, over the defaults, but for its `unique`. -/
def DeliveryOverrides.over (overrides : DeliveryOverrides) (defaults : Delivery) : Delivery where
  attempts := overrides.attempts.getD defaults.attempts
  backoff := overrides.backoff.getD defaults.backoff
  priority := overrides.priority.getD defaults.priority
  keepCompletedForMs := overrides.keepCompletedForMs.getD defaults.keepCompletedForMs
  keepFailedCount := overrides.keepFailedCount.getD defaults.keepFailedCount
  delayMs := overrides.delayMs
  unique := none

/-- A delivery with a `unique`, and the delay its window adds. -/
def Delivery.withUnique (d : Delivery) (unique : Option ResolvedUnique) : Delivery :=
  { d with unique := unique, delayMs := resolveDelayMs d.delayMs unique }

section

variable {definition : JobDefinition} {data : Value}

/-- A definition with no policy is delivered by its defaults. -/
theorem resolve_of_none (h : overridesOf definition data = .ok none) (keepUnique : Bool) :
    resolve definition data keepUnique = .ok (defaultsOf definition) := by
  rw [resolve, h]
  rfl

/-- What a policy resolves to. -/
theorem resolve_of_some {overrides : DeliveryOverrides}
    (h : overridesOf definition data = .ok (some overrides)) (keepUnique : Bool) :
    resolve definition data keepUnique = (keptUnique keepUnique data overrides.unique).map
      (overrides.over (defaultsOf definition)).withUnique := by
  rw [resolve, h]
  cases hkept : keptUnique keepUnique data overrides.unique with
  | error e => simp [hkept, bind, Except.bind, Except.map]
  | ok unique =>
      simp [hkept, bind, Except.bind, pure, Except.pure, Except.map, DeliveryOverrides.over,
        Delivery.withUnique]

/-- What a path without uniqueness resolves to. -/
theorem resolveDeliveryWithoutUniqueness_of_some {overrides : DeliveryOverrides}
    (h : overridesOf definition data = .ok (some overrides)) :
    resolveDeliveryWithoutUniqueness definition data =
      .ok (overrides.over (defaultsOf definition)) := by
  rw [resolveDeliveryWithoutUniqueness, resolve_of_some h]
  cases overrides.unique <;> rfl

/-- **A delivery is the one without uniqueness**, with the `unique` its policy declares for the
payload and the delay of its window. -/
theorem resolveDelivery_eq_ok_iff {delivery : Delivery} :
    resolveDelivery definition data = .ok delivery ↔
      ∃ plain unique, resolveDeliveryWithoutUniqueness definition data = .ok plain ∧
        keptUnique true data (uniqueOf definition data) = .ok unique ∧
        delivery = plain.withUnique unique := by
  cases ho : overridesOf definition data with
  | error e =>
      have herror : ∀ keepUnique, resolve definition data keepUnique = .error e := by
        intro keepUnique
        rw [resolve, ho]
        rfl
      simp [resolveDelivery, resolveDeliveryWithoutUniqueness, herror]
  | ok overrides =>
      cases overrides with
      | none =>
          have hplain : (defaultsOf definition).withUnique none = defaultsOf definition := by
            unfold defaultsOf
            split <;> rfl
          simp [resolveDelivery, resolveDeliveryWithoutUniqueness, resolve_of_none ho, uniqueOf, ho,
            keptUnique, pure, Except.pure, hplain, eq_comm]
      | some overrides =>
          rw [resolveDelivery, resolve_of_some ho, resolveDeliveryWithoutUniqueness_of_some ho,
            uniqueOf, ho]
          cases keptUnique true data overrides.unique with
          | error e => simp [Except.map]
          | ok unique => simp [Except.map, eq_comm]

end

/-- A delivery that differs from another in its uniqueness alone: it carries none, and every other
field is the same, but for the delay a `keepLast` window adds to the other. -/
structure SameButUnique (plain direct : Delivery) : Prop where
  unique : plain.unique = none
  same : direct = { plain with unique := direct.unique, delayMs := direct.delayMs }
  delay : direct.delayMs = plain.delayMs ∨ ∃ key ttlMs, direct.unique = some (.keepLast key ttlMs) ∧
    direct.delayMs = some (maxNumber (plain.delayMs.getD 0) ttlMs)

theorem sameButUnique_withUnique {plain : Delivery} (h : plain.unique = none)
    (unique : Option ResolvedUnique) : SameButUnique plain (plain.withUnique unique) := by
  refine ⟨h, rfl, ?_⟩
  unfold Delivery.withUnique resolveDelayMs
  split
  · rename_i key ttlMs
    exact Or.inr ⟨key, ttlMs, rfl, rfl⟩
  · exact Or.inl rfl

section

variable {definition : JobDefinition} {data : Value}

/-- A resolved `unique` is there exactly when the policy declares one for the payload. -/
theorem isSome_of_keptUnique {declared : Option Unique} {unique : Option ResolvedUnique}
    (h : keptUnique true data declared = .ok unique) : unique.isSome = declared.isSome := by
  cases declared with
  | none =>
      obtain rfl := Except.ok.inj h
      rfl
  | some declared =>
      cases hresolved : resolveUnique declared data with
      | error e => simp [keptUnique, hresolved, Functor.map, Except.map] at h
      | ok resolved =>
          simp only [keptUnique, hresolved, Functor.map, Except.map, if_true] at h
          obtain rfl := Except.ok.inj h
          rfl

theorem unique_isSome_iff {delivery : Delivery}
    (h : resolveDelivery definition data = .ok delivery) :
    delivery.unique.isSome = (uniqueOf definition data).isSome := by
  obtain ⟨plain, unique, -, hunique, rfl⟩ := resolveDelivery_eq_ok_iff.1 h
  exact isSome_of_keptUnique hunique

/-- A path without uniqueness resolves the direct delivery, but for its uniqueness. -/
theorem sameButUnique_of_resolve {plain direct : Delivery}
    (h : resolveDeliveryWithoutUniqueness definition data = .ok plain)
    (hdirect : resolveDelivery definition data = .ok direct) : SameButUnique plain direct := by
  obtain ⟨plain', unique, hplain, -, rfl⟩ := resolveDelivery_eq_ok_iff.1 hdirect
  obtain rfl := Except.ok.inj (h.symm.trans hplain)
  exact sameButUnique_withUnique (unique_resolveDeliveryWithoutUniqueness h) unique

/-- The request of a direct enqueue. -/
theorem directRequest_eq_ok_iff {request : EnqueueRequest} :
    directRequest definition data = .ok request ↔
      ∃ validated delivery, validatePayload definition data = .ok validated ∧
        resolveDelivery definition validated = .ok delivery ∧
        request = ⟨definition.queue, writeEnvelope definition data .direct, delivery, none⟩ := by
  constructor
  · intro h
    obtain ⟨validated, hvalidated, h⟩ := bind_eq_ok.1 h
    obtain ⟨delivery, hdelivery, h⟩ := bind_eq_ok.1 h
    exact ⟨validated, delivery, hvalidated, hdelivery, (Except.ok.inj h).symm⟩
  · rintro ⟨validated, delivery, hvalidated, hdelivery, rfl⟩
    exact bind_eq_ok.2 ⟨validated, hvalidated, bind_eq_ok.2 ⟨delivery, hdelivery, rfl⟩⟩

/-- A direct enqueue is made for a definition that waits on nothing. -/
theorem heldJob_eq_direct {awaits : Value} {request : EnqueueRequest}
    (h : heldJob definition data awaits = .ok (.direct request)) :
    directRequest definition data = .ok request := by
  unfold heldJob at h
  split at h
  · cases hrequest : directRequest definition data with
    | error e => simp [hrequest, Functor.map, Except.map] at h
    | ok r => simpa [hrequest, Functor.map, Except.map] using h
  · cases htree : composeFlow definition data awaits with
    | error e => simp [htree, Functor.map, Except.map] at h
    | ok root => simp [htree, Functor.map, Except.map] at h

/-- A flow is composed of a definition that waits on children. -/
theorem heldJob_eq_flow {awaits : Value} {name : String} {root : FlowNode}
    (h : heldJob definition data awaits = .ok (.flow name root)) :
    composeFlow definition data awaits = .ok root := by
  unfold heldJob at h
  split at h
  · cases hrequest : directRequest definition data with
    | error e => simp [hrequest, Functor.map, Except.map] at h
    | ok r => simp [hrequest, Functor.map, Except.map] at h
  · cases htree : composeFlow definition data awaits with
    | error e => simp [htree, Functor.map, Except.map] at h
    | ok root' =>
        simp only [htree, Functor.map, Except.map, Except.ok.injEq, HeldJob.flow.injEq] at h
        rw [h.2]

end

/-! ### What the driver is handed over a run -/

/-- An enqueue that `jobs.enqueue` made. -/
def Enqueue.Made (e : Enqueue) : Prop :=
  ∃ definition data awaits, heldJob definition data awaits = .ok e.job

/-- An envelope that an outbox is given stands for a direct enqueue whose policy declares no
`unique` for its payload. -/
def OutboxEnvelope (envelope : Envelope) : Prop :=
  ∃ definition data request validated, directRequest definition data = .ok request ∧
    envelope = { request.envelope with origin := .relay } ∧
    validatePayload definition data = .ok validated ∧ uniqueOf definition validated = none

/-- What is known of the blocks and the driver: every enqueue is one that was made, and every
envelope is one an outbox may be given. -/
structure HandedOver (s : AtomicState) : Prop where
  called : ∀ e ∈ s.called, e.Made
  held : ∀ scope ∈ s.scopes, ∀ e ∈ scope.held, e.Made
  written : ∀ scope ∈ s.scopes, ∀ envelope ∈ scope.written, OutboxEnvelope envelope
  saves : ∀ save ∈ s.saves, ∀ envelope ∈ save.envelopes, OutboxEnvelope envelope

/-- What `forOutbox` lets through. -/
theorem outboxEnvelope_of_made {e : Enqueue} {envelope : Envelope} (h : e.Made)
    (hrow : forOutbox e.job = .ok envelope) : OutboxEnvelope envelope := by
  obtain ⟨definition, data, awaits, hmade⟩ := h
  cases hjob : e.job with
  | flow name root =>
      rw [hjob] at hrow
      cases hrow
  | direct request =>
      rw [hjob] at hrow hmade
      have hrequest := heldJob_eq_direct hmade
      obtain ⟨validated, delivery, hvalidated, hdelivery, rfl⟩ := directRequest_eq_ok_iff.1 hrequest
      simp only [forOutbox, envelopeForOutbox] at hrow
      split_ifs at hrow with hunique
      obtain rfl := Except.ok.inj hrow
      refine ⟨definition, data, _, validated, hrequest, rfl, hvalidated, ?_⟩
      rw [unique_isSome_iff hdelivery] at hunique
      simpa using hunique

/-- A scope that changes neither what it holds nor what it writes. -/
theorem HandedOver.set {s t : AtomicState} (h : HandedOver s) {n : ℕ} {scope scope' : AtomicScope}
    (hscope : s.scopes[n]? = some scope) (hscopes : t.scopes = s.scopes.set n scope')
    (hcalled : ∀ e ∈ t.called, e.Made)
    (hsaves : ∀ save ∈ t.saves, ∀ envelope ∈ save.envelopes, OutboxEnvelope envelope)
    (hheld : ∀ e ∈ scope'.held, e ∈ scope.held ∨ e.Made)
    (hwritten : ∀ envelope ∈ scope'.written, envelope ∈ scope.written ∨ OutboxEnvelope envelope) :
    HandedOver t := by
  have hmem : scope ∈ s.scopes := List.mem_of_getElem? hscope
  refine ⟨hcalled, ?_, ?_, hsaves⟩
  · intro other hother e he
    rw [hscopes] at hother
    rcases List.mem_or_eq_of_mem_set hother with hother | rfl
    · exact h.held other hother e he
    · exact (hheld e he).elim (h.held scope hmem e) id
  · intro other hother envelope henvelope
    rw [hscopes] at hother
    rcases List.mem_or_eq_of_mem_set hother with hother | rfl
    · exact h.written other hother envelope henvelope
    · exact (hwritten envelope henvelope).elim (h.written scope hmem envelope) id

section

variable {outbox : Bool} {s t : AtomicState}

/-- An enqueue that was made arrives. -/
theorem HandedOver.arrive (h : HandedOver s) {e : Enqueue} (hmade : e.Made)
    (htag : ∀ n, e.scope = some n → n < s.scopes.length) : HandedOver (arrive s e) := by
  rcases arrive_cases htag with ⟨-, heq⟩ | ⟨error, heq⟩ | ⟨n, scope, scope', -, hscope, -,
    htakes, heq⟩
  · rw [heq]
    refine ⟨?_, h.held, h.written, h.saves⟩
    intro e' he'
    rcases List.mem_append.1 he' with he' | he'
    · exact h.called e' he'
    · obtain rfl := List.mem_singleton.1 he'
      exact hmade
  · rw [heq]
    exact ⟨h.called, h.held, h.written, h.saves⟩
  · rw [heq]
    refine h.set hscope rfl h.called h.saves ?_ ?_
    · cases htakes with
      | holds htx =>
          intro e' he'
          rcases List.mem_append.1 he' with he' | he'
          · exact Or.inl he'
          · obtain rfl := List.mem_singleton.1 he'
            exact Or.inr hmade
      | writes htx hrow => exact fun e' he' => Or.inl he'
    · cases htakes with
      | holds htx => exact fun envelope henvelope => Or.inl henvelope
      | writes htx hrow =>
          intro envelope henvelope
          rcases List.mem_append.1 henvelope with henvelope | henvelope
          · exact Or.inl henvelope
          · obtain rfl := List.mem_singleton.1 henvelope
            exact Or.inr (outboxEnvelope_of_made hmade hrow)

/-- A scope that only moves on to another phase. -/
theorem HandedOver.phase (h : HandedOver s) {n : ℕ} {scope : AtomicScope}
    (hscope : s.scopes[n]? = some scope) (phase : BlockPhase) :
    HandedOver { s with scopes := s.scopes.set n { scope with phase := phase } } :=
  h.set hscope rfl h.called h.saves (fun _ he => Or.inl he) (fun _ he => Or.inl he)

/-- A scope that is closed. -/
theorem HandedOver.close (h : HandedOver s) {n : ℕ} {scope : AtomicScope}
    (hscope : s.scopes[n]? = some scope) (phase : BlockPhase) :
    HandedOver { s with scopes := s.scopes.set n { scope with closed := true, phase := phase } } :=
  h.set hscope rfl h.called h.saves (fun _ he => Or.inl he) (fun _ he => Or.inl he)

/-- A block whose function resolved. -/
theorem HandedOver.settleBlock (h : HandedOver s) {n : ℕ} {scope : AtomicScope}
    (hscope : s.scopes[n]? = some scope) : HandedOver (settleBlock s n scope) := by
  unfold Jubs.settleBlock
  split
  · exact h.close hscope _
  · split
    · exact h.close hscope _
    · refine h.set hscope rfl h.called ?_ (fun _ he => Or.inl he) (fun _ he => Or.inl he)
      intro save hsave
      rcases List.mem_append.1 hsave with hsave | hsave
      · exact h.saves save hsave
      · obtain rfl := List.mem_singleton.1 hsave
        exact h.written scope (List.mem_of_getElem? hscope)

/-- A block that delivers the next job it holds. -/
theorem HandedOver.deliverNext (h : HandedOver s) {n : ℕ} {scope : AtomicScope}
    (hscope : s.scopes[n]? = some scope) (hstep : deliverNext s n scope = some t) :
    HandedOver t := by
  unfold Jubs.deliverNext at hstep
  split at hstep
  · split at hstep
    · rename_i k e hheld
      obtain rfl := Option.some.inj hstep
      refine h.set hscope rfl ?_ h.saves (fun _ he => Or.inl he) (fun _ he => Or.inl he)
      intro e' he'
      rcases List.mem_append.1 he' with he' | he'
      · exact h.called e' he'
      · obtain rfl := List.mem_singleton.1 he'
        exact h.held scope (List.mem_of_getElem? hscope) e' (List.mem_of_getElem? hheld)
    · obtain rfl := Option.some.inj hstep
      exact h.phase hscope _
  · cases hstep

/-- A call a block waits for that settles. -/
theorem HandedOver.settleCall (h : HandedOver s) {n : ℕ} {scope : AtomicScope}
    {outcome : Except Thrown Unit} (hscope : s.scopes[n]? = some scope)
    (hstep : settleCall s n scope outcome = some t) : HandedOver t := by
  unfold Jubs.settleCall at hstep
  split at hstep
  · obtain rfl := Option.some.inj hstep
    exact h.set hscope rfl h.called h.saves (fun _ he => Or.inl he) (fun _ he => Or.inl he)
  · obtain rfl := Option.some.inj hstep
    exact h.phase hscope _
  · obtain rfl := Option.some.inj hstep
    exact h.phase hscope _
  · obtain rfl := Option.some.inj hstep
    exact h.phase hscope _
  · cases hstep

/-- A block that opens. -/
theorem HandedOver.atomic (h : HandedOver s) {tag : Option ℕ} {tx : Value}
    (hstep : Jubs.atomic outbox s tag tx = .ok t) : HandedOver t := by
  have hopens : ∀ tx, HandedOver (runAtomicBlock s tag tx) := by
    intro tx
    unfold runAtomicBlock
    split
    · exact h
    · refine ⟨h.called, ?_, ?_, h.saves⟩
      · intro scope hscope e he
        rcases List.mem_append.1 hscope with hscope | hscope
        · exact h.held scope hscope e he
        · obtain rfl := List.mem_singleton.1 hscope
          cases he
      · intro scope hscope envelope henvelope
        rcases List.mem_append.1 hscope with hscope | hscope
        · exact h.written scope hscope envelope henvelope
        · obtain rfl := List.mem_singleton.1 hscope
          cases henvelope
  unfold Jubs.atomic at hstep
  split_ifs at hstep
  · exact Except.ok.inj hstep ▸ hopens none
  · exact Except.ok.inj hstep ▸ hopens (some tx)

/-- **One step of contexts, blocks and enqueues keeps it.** -/
theorem atomicRun_handedOver {act : AtomicAct} (hinv : AtomicInv s) (h : HandedOver s)
    (hstep : atomicRun outbox s act = some t) : HandedOver t := by
  cases act with
  | enqueue c definition data awaits =>
      obtain ⟨tag, hcontext, rfl⟩ := Option.map_eq_some_iff.1 hstep
      cases hjob : heldJob definition data awaits with
      | error e => exact h
      | ok job =>
          refine h.arrive ⟨definition, data, awaits, hjob⟩ ?_
          rintro n rfl
          exact hinv.tags n (List.mem_of_getElem? hcontext)
  | atomic c tx =>
      obtain ⟨tag, -, rfl⟩ := Option.map_eq_some_iff.1 hstep
      cases hopen : Jubs.atomic outbox s tag tx with
      | error e => exact h
      | ok t => exact h.atomic hopen
  | spawn c =>
      obtain ⟨tag, -, rfl⟩ := Option.map_eq_some_iff.1 hstep
      exact ⟨h.called, h.held, h.written, h.saves⟩
  | outside c =>
      obtain ⟨tag, -, rfl⟩ := Option.map_eq_some_iff.1 hstep
      exact ⟨h.called, h.held, h.written, h.saves⟩
  | resolve n =>
      obtain ⟨scope, hscope, hstep⟩ := Option.bind_eq_some_iff.1 hstep
      split at hstep
      · obtain rfl := Option.some.inj hstep
        exact h.settleBlock hscope
      · cases hstep
  | throws n error =>
      obtain ⟨scope, hscope, hstep⟩ := Option.bind_eq_some_iff.1 hstep
      split at hstep
      · obtain rfl := Option.some.inj hstep
        exact h.close hscope _
      · cases hstep
  | deliver n =>
      obtain ⟨scope, hscope, hstep⟩ := Option.bind_eq_some_iff.1 hstep
      exact h.deliverNext hscope hstep
  | answer n outcome =>
      obtain ⟨scope, hscope, hstep⟩ := Option.bind_eq_some_iff.1 hstep
      exact h.settleCall hscope hstep

/-- **Over every run, what the driver is handed was made by `jobs.enqueue`, and what the outbox is
given declares no `unique`.** -/
theorem atomicRun_made {l : List AtomicAct} (h : (atomicRun outbox).exec .init l = some s) :
    HandedOver s := by
  have hinit : AtomicInv .init ∧ HandedOver .init :=
    ⟨atomicInv_init, by simp [AtomicState.init], by simp [AtomicState.init],
      by simp [AtomicState.init], by simp [AtomicState.init]⟩
  have hstep : ∀ s act t, AtomicInv s ∧ HandedOver s → atomicRun outbox s act = some t →
      AtomicInv t ∧ HandedOver t := fun _ _ _ hs hstep =>
    ⟨atomicRun_step hs.1 hstep, atomicRun_handedOver hs.1 hs.2 hstep⟩
  exact (Machine.exec_invariant hstep h hinit).2

end

/-! ### The nodes of a flow -/

/-- The nodes of a tree, at any position. -/
inductive FlowNode.Within : FlowNode → FlowNode → Prop
  | root (node : FlowNode) : Within node node
  | child {root parent : FlowNode} {child : FlowChild FlowNode} (above : Within parent root)
      (child_mem : child ∈ parent.children) : Within child.node root

/-- The children of a composed node were composed. -/
theorem composed_children {definition : JobDefinition} {data awaits : Value} {node : FlowNode}
    (h : composeFlow definition data awaits = .ok node) {child : FlowChild FlowNode}
    (hchild : child ∈ node.children) :
    ∃ slot ∈ slotsOf definition, Composed slot.definition child.node := by
  obtain ⟨delivery, composing, hfills, rfl⟩ := composeFlow_eq_ok h
  obtain ⟨composed, hcomposed, hchild⟩ := List.mem_flatMap.1 hchild
  obtain ⟨slot, hslot, hfill⟩ := exists_of_forall₂ hfills hcomposed
  exact ⟨slot, hslot, (hfill.children child (List.reduceOption_mem_iff.1 hchild)).2⟩

/-- **Every node of a flow was composed from a definition.** -/
theorem composeFlow_within {definition : JobDefinition} {data awaits : Value} {root node : FlowNode}
    (h : composeFlow definition data awaits = .ok root) (hwithin : node.Within root) :
    ∃ definition, Composed definition node := by
  induction hwithin with
  | root => exact ⟨definition, data, awaits, h⟩
  | child above hmem ih =>
      obtain ⟨parent, data, awaits, hparent⟩ := ih h
      obtain ⟨slot, -, hcomposed⟩ := composed_children hparent hmem
      exact ⟨slot.definition, hcomposed⟩

/-! ### What the six ways hand over -/

/-- The ways to the driver. -/
inductive EnqueuePath where
  | direct
  | held
  | flow
  | relay
  | replay
  | schedule
deriving DecidableEq

/-- A way to the driver hands over a delivery, for a payload of a definition, beside the id the
caller or the driver derived for its job.  The payload is the one its schema validates on that
way. -/
inductive Hands : EnqueuePath → JobDefinition → Value → Delivery → Option String → Prop
  | direct {outbox : Bool} {l : List AtomicAct} {s : AtomicState} {e : Enqueue}
      {definition : JobDefinition} {data awaits : Value} {request : EnqueueRequest}
      (run : (atomicRun outbox).exec .init l = some s) (called : e ∈ s.called)
      (outside : e.scope = none) (job : e.job = .direct request)
      (made : heldJob definition data awaits = .ok (.direct request)) :
      Hands .direct definition data request.delivery request.jobId
  | held {outbox : Bool} {l : List AtomicAct} {s : AtomicState} {e : Enqueue} {n : ℕ}
      {definition : JobDefinition} {data awaits : Value} {request : EnqueueRequest}
      (run : (atomicRun outbox).exec .init l = some s) (called : e ∈ s.called)
      (inside : e.scope = some n) (job : e.job = .direct request)
      (made : heldJob definition data awaits = .ok (.direct request)) :
      Hands .held definition data request.delivery request.jobId
  | root {definition : JobDefinition} {data awaits : Value} {name : String} {root : FlowNode}
      (made : heldJob definition data awaits = .ok (.flow name root)) :
      Hands .flow definition data root.delivery none
  | child {parent definition : JobDefinition} {data awaits childData childAwaits : Value}
      {name : String} {root above : FlowNode} {child : FlowChild FlowNode} (uuid : Uuid)
      (made : heldJob parent data awaits = .ok (.flow name root)) (within : above.Within root)
      (child_mem : child ∈ above.children)
      (composed : composeFlow definition childData childAwaits = .ok child.node) :
      Hands .flow definition childData child.node.delivery (some (composeChildId child.slot uuid))
  | relay {config : RelayConfig} {claimed : ClaimedEnvelope} {definition : JobDefinition}
      {migrated : Value} {request : EnqueueRequest}
      (found : definitionOf config claimed = .ok definition)
      (migrates : migrateEnvelope definition claimed.envelope = some (.ok migrated))
      (prepared : prepare config claimed = some (.ok request)) :
      Hands .relay definition migrated request.delivery request.jobId
  | replay {definitions : List JobDefinition} {record : BuriedRecord} {plan : ReplayPlan}
      {migrated : Value} {request : EnqueueRequest}
      (planned : planReplay definitions record = some (.ok plan))
      (migrates : migrateEnvelope plan.definition record.entry.envelope = some (.ok migrated))
      (prepared : plan.request record = .ok request) :
      Hands .replay plan.definition migrated request.delivery request.jobId
  | schedule {timezone : Option String} {definition : JobDefinition} {schedule : Schedule}
      {upsert : ScheduleUpsert} (declared : scheduleUpsert timezone definition schedule =
        .ok upsert) :
      Hands .schedule definition schedule.data upsert.delivery none

/-- What a way to the driver owes to the policy of a definition: `unique` on the direct and held
ways alone, never beside a derived id; nothing in a flow whose policy declares one; the direct
delivery, but for its uniqueness, on the ways that drop it; and a delay of at least its window. -/
structure PolicyKept (path : EnqueuePath) (definition : JobDefinition) (data : Value)
    (delivery : Delivery) (jobId : Option String) : Prop where
  only : delivery.unique.isSome = true → path = .direct ∨ path = .held
  underived : delivery.unique.isSome = true → jobId = none
  undeclared : path = .flow → ∀ validated, validatePayload definition data = .ok validated →
    uniqueOf definition validated = none
  same : path = .relay ∨ path = .replay ∨ path = .schedule → ∀ request,
    directRequest definition data = .ok request → SameButUnique delivery request.delivery
  window : ∀ key ttlMs, delivery.unique = some (.keepLast key ttlMs) →
    ∃ delayMs, delivery.delayMs = some delayMs ∧ ttlMs.le delayMs = true

/-- A policy whose `keepLast`, when it declares one for a payload, has a window and a delay that are
numbers. -/
def WindowedPolicy (definition : JobDefinition) (data : Value) : Prop :=
  ∀ validated overrides unique ttlMs, validatePayload definition data = .ok validated →
    overridesOf definition validated = .ok (some overrides) → overrides.unique = some unique →
    unique.mode = .keepLast → unique.ttlMs = some ttlMs →
      ttlMs ≠ .nan ∧ overrides.delayMs ≠ some .nan

/-! ### The delay of a window -/

/-- `Math.max` is at least its second argument, when both are numbers. -/
theorem le_maxNumber {a b : Number} (ha : a ≠ .nan) (hb : b ≠ .nan) :
    b.le (maxNumber a b) = true := by
  rw [maxNumber, if_neg (by simp [ha, hb])]
  split_ifs with hle
  · exact Number.le_refl hb
  · exact Number.le_of_not_le ha hb hle

/-- And it is at least neither, when one is `NaN`. -/
theorem not_le_maxNumber {a b : Number} (h : a = .nan ∨ b = .nan) :
    b.le (maxNumber a b) = false := by
  rw [maxNumber, if_pos h]
  cases b <;> rfl

theorem resolveUnique_eq_keepLast_iff {unique : Unique} {data : Value} {key : String}
    {ttlMs : Number} :
    resolveUnique unique data = .ok (.keepLast key ttlMs) ↔
      unique.key data = .ok key ∧ unique.mode = .keepLast ∧ unique.ttlMs = some ttlMs := by
  obtain ⟨keyOf, mode, window⟩ := unique
  cases hkey : keyOf data with
  | error e => simp [resolveUnique, hkey, bind, Except.bind]
  | ok k =>
      cases mode with
      | keepFirst => simp [resolveUnique, hkey, bind, Except.bind, pure, Except.pure]
      | noOverlap => simp [resolveUnique, hkey, bind, Except.bind, pure, Except.pure]
      | keepLast =>
          cases window with
          | none =>
              simp [resolveUnique, hkey, bind, Except.bind, throw, throwThe, MonadExceptOf.throw]
          | some ttlMs => simp [resolveUnique, hkey, bind, Except.bind, pure, Except.pure]

theorem uniqueOf_eq_some_iff {definition : JobDefinition} {data : Value} {unique : Unique} :
    uniqueOf definition data = some unique ↔
      ∃ overrides, overridesOf definition data = .ok (some overrides) ∧
        overrides.unique = some unique := by
  unfold uniqueOf
  split
  · rename_i overrides ho
    simp [ho]
  · rename_i hnone
    simp only [reduceCtorEq, false_iff, not_exists, not_and]
    intro overrides ho
    exact absurd ho (hnone overrides)

/-- **When a delivery waits for its window**: its policy's window and delay are numbers. -/
theorem window_iff {definition : JobDefinition} {data validated : Value} {delivery : Delivery}
    (hvalidated : validatePayload definition data = .ok validated)
    (h : resolveDelivery definition validated = .ok delivery) :
    (∀ key ttlMs, delivery.unique = some (.keepLast key ttlMs) →
      ∃ delayMs, delivery.delayMs = some delayMs ∧ ttlMs.le delayMs = true) ↔
      WindowedPolicy definition data := by
  obtain ⟨plain, unique, hplain, hunique, rfl⟩ := resolveDelivery_eq_ok_iff.1 h
  constructor
  · intro hwindow validated' overrides declared ttlMs hvalid ho hdeclared hmode httl
    obtain rfl := Except.ok.inj (hvalidated.symm.trans hvalid)
    rw [resolveDeliveryWithoutUniqueness_of_some ho] at hplain
    obtain rfl := Except.ok.inj hplain
    rw [uniqueOf_eq_some_iff.2 ⟨overrides, ho, hdeclared⟩] at hunique
    cases hkey : declared.key validated with
    | error e =>
        simp [keptUnique, resolveUnique, hkey, bind, Except.bind, Functor.map, Except.map]
          at hunique
    | ok key =>
        have hresolved := resolveUnique_eq_keepLast_iff.2 ⟨hkey, hmode, httl⟩
        simp only [keptUnique, hresolved, Functor.map, Except.map, if_true] at hunique
        obtain rfl := Except.ok.inj hunique
        obtain ⟨delayMs, hdelay, hle⟩ := hwindow key ttlMs rfl
        obtain rfl := Option.some.inj hdelay
        by_contra hnan
        have hnan : overrides.delayMs.getD 0 = .nan ∨ ttlMs = .nan := by
          by_contra hnone
          refine hnan ⟨fun heq => hnone (Or.inr heq), fun heq => hnone (Or.inl ?_)⟩
          rw [heq]
          rfl
        exact absurd hle (by simp [DeliveryOverrides.over, not_le_maxNumber hnan])
  · intro hwindowed key ttlMs hkeepLast
    obtain rfl : unique = some (.keepLast key ttlMs) := hkeepLast
    cases hdeclared : uniqueOf definition validated with
    | none =>
        rw [hdeclared] at hunique
        cases hunique
    | some declared =>
        obtain ⟨overrides, ho, hu⟩ := uniqueOf_eq_some_iff.1 hdeclared
        rw [resolveDeliveryWithoutUniqueness_of_some ho] at hplain
        obtain rfl := Except.ok.inj hplain
        have hresolved : resolveUnique declared validated = .ok (.keepLast key ttlMs) := by
          rw [hdeclared] at hunique
          cases hres : resolveUnique declared validated with
          | error e => simp [keptUnique, hres, Functor.map, Except.map] at hunique
          | ok r => simpa [keptUnique, hres, Functor.map, Except.map] using hunique
        obtain ⟨-, hmode, httl⟩ := resolveUnique_eq_keepLast_iff.1 hresolved
        obtain ⟨hwindow, hdelay⟩ := hwindowed validated overrides declared ttlMs hvalidated ho hu
          hmode httl
        refine ⟨_, rfl, le_maxNumber ?_ hwindow⟩
        show overrides.delayMs.getD 0 ≠ .nan
        cases hd : overrides.delayMs with
        | none => exact Number.noConfusion
        | some delayMs =>
            rintro rfl
            exact hdelay hd

/-! ### What the six ways owe to a policy -/

/-- A delivery that carries no `unique` waits for no window. -/
theorem window_of_none {delivery : Delivery} (h : delivery.unique = none) : ∀ key ttlMs,
    delivery.unique = some (.keepLast key ttlMs) →
      ∃ delayMs, delivery.delayMs = some delayMs ∧ ttlMs.le delayMs = true := by
  intro key ttlMs hunique
  rw [h] at hunique
  cases hunique

/-- A direct enqueue, held or not. -/
theorem policyKept_of_direct {path : EnqueuePath} {definition : JobDefinition} {data : Value}
    {request : EnqueueRequest} (hpath : path = .direct ∨ path = .held)
    (h : directRequest definition data = .ok request) :
    PolicyKept path definition data request.delivery request.jobId ↔
      WindowedPolicy definition data := by
  obtain ⟨validated, delivery, hvalidated, hdelivery, rfl⟩ := directRequest_eq_ok_iff.1 h
  constructor
  · intro hkept
    exact (window_iff hvalidated hdelivery).1 hkept.window
  · intro hwindowed
    refine ⟨fun _ => hpath, fun _ => rfl, ?_, ?_, (window_iff hvalidated hdelivery).2 hwindowed⟩
    · rintro rfl
      simp at hpath
    · rintro (rfl | rfl | rfl) <;> simp at hpath

/-- A node of a flow. -/
theorem policyKept_of_flow {definition : JobDefinition} {data awaits : Value} {node : FlowNode}
    (h : composeFlow definition data awaits = .ok node) (jobId : Option String) :
    PolicyKept .flow definition data node.delivery jobId := by
  obtain ⟨filled, validated, delivery, composing, -, hvalidated, hdelivery, hunique, -, rfl⟩ :=
    composeFlow_eq_ok_iff.1 h
  have hnone : ¬ delivery.unique.isSome = true := by simp [hunique]
  refine ⟨fun hsome => absurd hsome hnone, fun hsome => absurd hsome hnone, ?_, ?_,
    window_of_none hunique⟩
  · intro _ validated' hvalid
    obtain rfl := Except.ok.inj (hvalidated.symm.trans hvalid)
    rw [unique_isSome_iff hdelivery] at hnone
    simpa using hnone
  · rintro (h | h | h) <;> cases h

/-- A way that resolves the delivery without uniqueness. -/
theorem policyKept_of_plain {path : EnqueuePath} {definition : JobDefinition}
    {data validated : Value} {delivery : Delivery} (hpath : path ≠ .flow)
    (hvalidated : validatePayload definition data = .ok validated)
    (h : resolveDeliveryWithoutUniqueness definition validated = .ok delivery)
    (jobId : Option String) : PolicyKept path definition data delivery jobId := by
  have hunique := unique_resolveDeliveryWithoutUniqueness h
  have hnone : ¬ delivery.unique.isSome = true := by simp [hunique]
  refine ⟨fun hsome => absurd hsome hnone, fun hsome => absurd hsome hnone, fun hflow =>
    absurd hflow hpath, ?_, window_of_none hunique⟩
  intro _ request hrequest
  obtain ⟨validated', direct, hvalid, hdirect, rfl⟩ := directRequest_eq_ok_iff.1 hrequest
  obtain rfl := Except.ok.inj (hvalidated.symm.trans hvalid)
  exact sameButUnique_of_resolve h hdirect

/-- The payload a replay validates is the migrated one. -/
theorem planReplay_eq_ok {definitions : List JobDefinition} {record : BuriedRecord}
    {plan : ReplayPlan} (h : planReplay definitions record = some (.ok plan)) :
    ∃ migrated, migrateEnvelope plan.definition record.entry.envelope = some (.ok migrated) ∧
      validatePayload plan.definition migrated = .ok plan.validated := by
  unfold planReplay at h
  simp only at h
  split at h
  · cases h
  · split at h
    · cases h
    · split at h
      · cases h
      · obtain ⟨answer, hanswer, h⟩ := Option.map_eq_some_iff.1 h
        change (answer >>= _) = _ at h
        obtain ⟨migrated, hmigrated, h⟩ := bind_eq_ok.1 h
        rw [hmigrated] at hanswer
        obtain ⟨validated, hvalidated, h⟩ := bind_eq_ok.1 h
        obtain ⟨key, -, h⟩ := bind_eq_ok.1 h
        obtain rfl := Except.ok.inj h
        exact ⟨migrated, hanswer, hvalidated⟩

/-- **When a way to the driver pays what it owes**: always, but for a direct or held enqueue whose
window or delay is no number. -/
theorem policyKept_of_hands {path : EnqueuePath} {definition : JobDefinition} {data : Value}
    {delivery : Delivery} {jobId : Option String}
    (h : Hands path definition data delivery jobId) :
    PolicyKept path definition data delivery jobId ↔
      (path = .direct ∨ path = .held → WindowedPolicy definition data) := by
  have hplain : ∀ {path : EnqueuePath}, path ≠ .direct → path ≠ .held →
      PolicyKept path definition data delivery jobId →
      (PolicyKept path definition data delivery jobId ↔
        (path = .direct ∨ path = .held → WindowedPolicy definition data)) := by
    intro path hdirect hheld hkept
    exact ⟨fun _ hpath => (hpath.elim hdirect hheld).elim, fun _ => hkept⟩
  cases h with
  | direct run called outside job made =>
      rw [policyKept_of_direct (Or.inl rfl) (heldJob_eq_direct made)]
      simp
  | held run called inside job made =>
      rw [policyKept_of_direct (Or.inr rfl) (heldJob_eq_direct made)]
      simp
  | root made => exact hplain (by decide) (by decide) (policyKept_of_flow (heldJob_eq_flow made) _)
  | child uuid made within child_mem composed =>
      exact hplain (by decide) (by decide) (policyKept_of_flow composed _)
  | relay found migrates prepared =>
      rw [prepare, found] at prepared
      obtain ⟨answer, hanswer, h⟩ := Option.map_eq_some_iff.1 prepared
      obtain rfl := Option.some.inj (migrates.symm.trans hanswer)
      change requestOf _ _ _ = _ at h
      obtain ⟨validated, hvalidated, h⟩ := bind_eq_ok.1 h
      obtain ⟨delivery, hdelivery, h⟩ := bind_eq_ok.1 h
      obtain ⟨derived, -, h⟩ := bind_eq_ok.1 h
      obtain rfl := Except.ok.inj h
      exact hplain (by decide) (by decide) (policyKept_of_plain (by decide) hvalidated hdelivery _)
  | replay planned migrates prepared =>
      obtain ⟨migrated', hmigrated, hvalidated⟩ := planReplay_eq_ok planned
      obtain rfl := Except.ok.inj (Option.some.inj (migrates.symm.trans hmigrated))
      obtain ⟨delivery, hdelivery, h⟩ := bind_eq_ok.1 prepared
      obtain rfl := Except.ok.inj h
      exact hplain (by decide) (by decide) (policyKept_of_plain (by decide) hvalidated hdelivery _)
  | schedule declared =>
      obtain ⟨validated, delivery, hvalidated, hdelivery, -, rfl⟩ :=
        scheduleUpsert_eq_ok_iff.1 declared
      exact hplain (by decide) (by decide) (policyKept_of_plain (by decide) hvalidated hdelivery _)

/-- A flow whose policy declares `unique` is refused. -/
theorem composeFlow_refuses {definition : JobDefinition} {data validated awaits : Value}
    {unique : Unique} (hvalidated : validatePayload definition data = .ok validated)
    (hunique : uniqueOf definition validated = some unique) :
    ∃ error, composeFlow definition data awaits = .error error := by
  cases h : composeFlow definition data awaits with
  | error error => exact ⟨error, rfl⟩
  | ok node =>
      have hnone := (policyKept_of_flow h none).undeclared rfl validated hvalidated
      rw [hunique] at hnone
      cases hnone

/-- And so is its enqueue in a block that writes to the outbox. -/
theorem holdOrDeliver_refuses {s : AtomicState} {n : ℕ} {scope : AtomicScope} {e : Enqueue}
    {definition : JobDefinition} {data validated : Value} {request : EnqueueRequest}
    {unique : Unique} (hstore : s.getStore e.scope = some (n, scope)) (hopen : scope.closed = false)
    (htx : scope.tx.isSome = true) (hjob : e.job = .direct request)
    (hrequest : directRequest definition data = .ok request)
    (hvalidated : validatePayload definition data = .ok validated)
    (hunique : uniqueOf definition validated = some unique) :
    holdOrDeliver s e = .error (uniqueInOutboxError request.envelope.name) := by
  obtain ⟨validated', delivery, hvalid, hdelivery, rfl⟩ := directRequest_eq_ok_iff.1 hrequest
  obtain rfl := Except.ok.inj (hvalidated.symm.trans hvalid)
  have hsome : delivery.unique.isSome = true := by rw [unique_isSome_iff hdelivery, hunique]; rfl
  simp [holdOrDeliver, hstore, hopen, htx, hjob, forOutbox, envelopeForOutbox, hsome, bind,
    Except.bind]

/-- Every node of a flow is handed over. -/
theorem hands_within {definition : JobDefinition} {data awaits : Value} {name : String}
    {root node : FlowNode} (h : heldJob definition data awaits = .ok (.flow name root))
    (hwithin : node.Within root) (uuid : Uuid) :
    ∃ definition data jobId, Hands .flow definition data node.delivery jobId := by
  cases hwithin with
  | root => exact ⟨definition, data, none, .root h⟩
  | child above hmem =>
      obtain ⟨below, childData, childAwaits, hchild⟩ :=
        composeFlow_within (heldJob_eq_flow h) (.child above hmem)
      exact ⟨below, childData, _, .child uuid h above hmem hchild⟩

/-- **What the six ways owe to a policy, and when they pay it.**  Each of them pays it, but for a
direct or held enqueue whose `keepLast` window or delay is no number; a policy that declares
`unique` is refused by a flow, whose every node is one of those handed over, and by a block that
writes to the outbox; and over every run the driver is handed, and the outbox given, nothing
else. -/
theorem policyKept_iff (definition : JobDefinition) (data : Value) :
    (∀ path delivery jobId, Hands path definition data delivery jobId →
      (PolicyKept path definition data delivery jobId ↔
        (path = .direct ∨ path = .held → WindowedPolicy definition data))) ∧
    (∀ awaits validated unique, validatePayload definition data = .ok validated →
      uniqueOf definition validated = some unique →
        (∃ error, composeFlow definition data awaits = .error error) ∧
        ∀ s n scope e request, s.getStore e.scope = some (n, scope) → scope.closed = false →
          scope.tx.isSome = true → e.job = .direct request →
          directRequest definition data = .ok request →
            holdOrDeliver s e = .error (uniqueInOutboxError request.envelope.name)) ∧
    (∀ awaits name (root node : FlowNode),
      heldJob definition data awaits = .ok (.flow name root) → node.Within root → Uuid →
        ∃ definition data jobId, Hands .flow definition data node.delivery jobId) ∧
    ∀ outbox l s, (atomicRun outbox).exec .init l = some s → HandedOver s :=
  ⟨fun _ _ _ h => policyKept_of_hands h,
    fun _ _ _ hvalidated hunique => ⟨composeFlow_refuses hvalidated hunique,
      fun _ _ _ _ _ hstore hopen htx hjob hrequest =>
        holdOrDeliver_refuses hstore hopen htx hjob hrequest hvalidated hunique⟩,
    fun _ _ _ _ h hwithin uuid => hands_within h hwithin uuid, fun _ _ _ h => atomicRun_made h⟩

/-! ### A delay below its window -/

/-- A job that is replaced by a later one within five seconds, with a delay of its own. -/
def replacedJob (delayMs : Option Number) : JobDefinition :=
  { lineJob with delivery := some (.static
      { attempts := none, backoff := none, priority := none, keepCompletedForMs := none
        keepFailedCount := none, delayMs := delayMs
        unique := some ⟨fun _ => .ok "invoice:7", .keepLast, some 5000⟩ }) }

/-- Its direct request. -/
def replacedRequest (delayMs : Option Number) : EnqueueRequest where
  queue := "mail"
  envelope := writeEnvelope (replacedJob delayMs) .null .direct
  delivery := { deliveryDefaults with
    delayMs := some (maxNumber (delayMs.getD 0) 5000)
    unique := some (.keepLast "invoice:7" 5000) }
  jobId := none

theorem heldJob_replacedJob (delayMs : Option Number) :
    heldJob (replacedJob delayMs) .null .undefined = .ok (.direct (replacedRequest delayMs)) := rfl

/-- Its enqueue outside every block is handed to the driver. -/
theorem hands_replacedJob (delayMs : Option Number) : Hands .direct (replacedJob delayMs) .null
    (replacedRequest delayMs).delivery (replacedRequest delayMs).jobId :=
  @Hands.direct false [.enqueue 0 (replacedJob delayMs) .null .undefined] _
    ⟨0, 0, none, .direct (replacedRequest delayMs)⟩ _ _ .undefined _ rfl List.mem_cons_self rfl rfl
    (heldJob_replacedJob delayMs)

/-- Without a delay of its own, it waits for its window. -/
theorem policyKept_example : PolicyKept .direct (replacedJob none) .null
    (replacedRequest none).delivery (replacedRequest none).jobId := by
  refine ((policyKept_iff _ _).1 _ _ _ (hands_replacedJob none)).2 ?_
  rintro - validated overrides unique ttlMs ⟨⟩ ⟨⟩ ⟨⟩ - ⟨⟩
  exact ⟨by rintro ⟨⟩, by rintro ⟨⟩⟩

/-- **A delay that is below its window**: `Math.max(NaN, 5000)` is `NaN`. -/
theorem window_lost : Hands .direct (replacedJob (some .nan)) .null
      (replacedRequest (some .nan)).delivery none ∧
    (replacedRequest (some .nan)).delivery.unique = some (.keepLast "invoice:7" 5000) ∧
    (replacedRequest (some .nan)).delivery.delayMs = some .nan ∧
    ¬ PolicyKept .direct (replacedJob (some .nan)) .null (replacedRequest (some .nan)).delivery
      none := by
  have hdelay : (replacedRequest (some .nan)).delivery.delayMs = some .nan := by
    simp [replacedRequest, maxNumber]
  refine ⟨hands_replacedJob (some .nan), rfl, hdelay, ?_⟩
  intro hkept
  obtain ⟨delayMs, heq, hle⟩ := hkept.window _ _ rfl
  rw [hdelay] at heq
  obtain rfl := Option.some.inj heq
  cases hle

end Jubs
