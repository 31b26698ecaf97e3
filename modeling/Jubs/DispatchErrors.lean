/-
**What a dispatch fails with.**

Some errors reach the end of a dispatch as they were thrown, some are wrapped, some are replaced.
Two properties of errors survive all of that, and both follow from what code outside the package
throws: being of no class inside the package, and having a text.

Main definitions:

* `Jubs.Throws`, `Jubs.Wraps` — a property of what code outside throws, and that the library's own
  steps keep it;
* `Jubs.Foreign`, `Jubs.Legible` — the two properties, of what code outside throws.

Main results:

* `Jubs.dispatch_throws` — **what code outside throws carries over to what a dispatch fails with**;
* `Jubs.wraps_reportable`, `Jubs.wraps_presentable` — the two properties are kept.
-/

import Jubs.Dispatch

set_option autoImplicit false

namespace Jubs

/-! ### What a dispatch throws -/

/-- A dispatch whose start was announced ends with the error its work throws. -/
theorem dispatch_of_work_error {config : JobsConfig} {handlers : List JobHandler}
    {envelope : Envelope}
    {event : JobEvent} {delivery : JobDelivery} {handler : JobHandler} {error : Thrown}
    {l : List Notice} (hfind : handlerFor handlers envelope = .ok handler)
    (hknown : assertVersionIsKnown handler.definition envelope = .ok ())
    (hstart : notify config.hooks.onStart .onStart event = some (l, .ok ()))
    (hwork : (work config handler envelope event delivery : Effect Notice Thrown Value) =
      some ([], .error error)) :
    dispatch config handlers envelope event delivery = some (l, .error error) := by
  rw [dispatch, hfind]
  refine Effect.bind_eq_error_iff.2 (Or.inr ⟨handler, [], l, rfl, ?_, rfl⟩)
  rw [hknown]
  refine Effect.bind_eq_error_iff.2 (Or.inr ⟨(), [], l, rfl, ?_, rfl⟩)
  refine Effect.bind_eq_error_iff.2 (Or.inr ⟨(), l, [], hstart, ?_, (List.append_nil l).symm⟩)
  exact Effect.bind_eq_error_iff.2 (Or.inl hwork)

/-- The dispatch of a job that guards nothing ends with what its handler throws. -/
theorem dispatch_thrown {config : JobsConfig} {handlers : List JobHandler} {envelope : Envelope}
    {event : JobEvent} {delivery : JobDelivery} {handler : JobHandler} {stored data : Value}
    {children : List (String × Value)} {error : Thrown} {l : List Notice}
    (hfind : handlerFor handlers envelope = .ok handler)
    (hknown : assertVersionIsKnown handler.definition envelope = .ok ())
    (hmigrated : migrateEnvelope handler.definition envelope = some (.ok stored))
    (hdata : validatePayload handler.definition stored = .ok data)
    (hchildren : (childrenFor (config.driver.read event.queue delivery.id) handler.definition
      envelope : Effect Notice Thrown (List (String × Value))) = some ([], .ok children))
    (hkey : handler.definition.idempotencyKey = none)
    (hrun : ∀ context, (runHandler handler envelope.name data context :
      Effect Notice Thrown Value) = some ([], .error error))
    (hstart : notify config.hooks.onStart .onStart event = some (l, .ok ())) :
    dispatch config handlers envelope event delivery = some (l, .error error) := by
  have hnone : idempotencyKeyFor handler.definition data = .ok none := by
    rw [idempotencyKeyFor, hkey]
  have hwork : (work config handler envelope event delivery : Effect Notice Thrown Value) =
      some ([], .error error) := by
    rw [work, hmigrated]
    refine Effect.bind_eq_error_iff.2 (Or.inr ⟨stored, [], [], rfl, ?_, rfl⟩)
    rw [hdata]
    refine Effect.bind_eq_error_iff.2 (Or.inr ⟨data, [], [], rfl, ?_, rfl⟩)
    refine Effect.bind_eq_error_iff.2 (Or.inr ⟨children, [], [], ?_, ?_, rfl⟩)
    · exact Effect.onError_eq_some_iff.2 (Or.inl ⟨children, hchildren, rfl⟩)
    rw [hnone]
    exact Effect.bind_eq_error_iff.2 (Or.inr ⟨none, [], [], rfl, hrun _, rfl⟩)
  exact dispatch_of_work_error hfind hknown hstart hwork

section Throws

variable {P Q : Thrown → Prop} {config : JobsConfig} {handlers : List JobHandler}

/-- What code outside the package throws: `P` holds of what a dispatch fails with as it was thrown,
and `Q` of what is thrown while the children are read. -/
structure Throws (P Q : Thrown → Prop) (config : JobsConfig) (handlers : List JobHandler) :
    Prop where
  acquire : ∀ key error, config.driver.acquire key = some (.error error) → P error
  complete : ∀ key token kept error, config.driver.complete key token kept = some (.error error) →
    P error
  release : ∀ key token error, config.driver.release key token = some (.error error) → P error
  read : ∀ queue id error, config.driver.read queue id = some (.error error) → Q error
  result : ∀ handler ∈ handlers, ∀ slot ∈ slotsOf handler.definition, ∀ value error,
    validateResult slot.definition value = .error error → Q error
  key : ∀ handler ∈ handlers, ∀ data error,
    idempotencyKeyFor handler.definition data = .error error → P error
  body : ∀ handler ∈ handlers, ∀ data context raised,
    (handler.run data context).settles = some (.error raised) → P raised.error

/-- What the errors of the library itself satisfy, and what wrapping and replacing keeps. -/
structure Wraps (P Q : Thrown → Prop) : Prop where
  unrecoverable : ∀ error, P (unrecoverable error)
  leaseHeld : ∀ key, P (leaseHeldError key)
  versionAhead : ∀ name stored running, P (versionAheadError name stored running)
  expired : ∀ name timeoutMs, P (handlerTimeoutError name timeoutMs)
  aborted : ∀ name definition execution raised, P raised.error →
    P (abortedWith name (signalReason definition name execution) raised)
  pending : ∀ definition n, Q (childrenPendingError definition n)
  dead : ∀ definition state, Q (childDeadError definition state)
  short : ∀ message, Q (childrenShortError message)
  refused : ∀ error, Q error → P (childrenRefusal error)

theorem runUnderTimeout_throws (hwraps : Wraps P Q) {definition : JobDefinition}
    {execution : Execution}
    (h : ∀ raised, execution.settles = some (.error raised) → P raised.error) {raised : Raised}
    (hr : runUnderTimeout definition execution = some (.error raised)) : P raised.error := by
  unfold runUnderTimeout at hr
  split at hr
  · rename_i expired hexpired
    obtain ⟨timeoutMs, -, hexpired⟩ := Option.bind_eq_some_iff.1 hexpired
    split_ifs at hexpired
    cases hexpired
    cases hr
    exact hwraps.expired _ _
  · obtain ⟨outcome, hsettles, hoc⟩ := Option.map_eq_some_iff.1 hr
    cases outcome with
    | error raised' =>
        cases hoc
        exact h _ hsettles
    | ok value =>
        change checkedResult definition value = .error raised at hoc
        unfold checkedResult at hoc
        split at hoc
        · cases hoc
        · cases hoc
          exact hwraps.unrecoverable _

theorem runHandler_throws {ω : Type} (hwraps : Wraps P Q) {handler : JobHandler} {name : String}
    {data : Value} {context : HandlerContext}
    (h : ∀ raised, (handler.run data context).settles = some (.error raised) → P raised.error) :
    (runHandler handler name data context : Effect ω Thrown Value).Fails P := by
  refine Effect.Fails.await ?_
  intro error herror
  obtain ⟨outcome, hrun, hmap⟩ := Option.map_eq_some_iff.1 herror
  obtain ⟨raised, rfl, rfl⟩ := mapError_eq_error hmap
  exact hwraps.aborted _ _ _ _ (runUnderTimeout_throws hwraps h hrun)

theorem settleLease_throws {ω : Type} (hthrows : Throws P Q config handlers) {key token : String}
    {outcome : Except Thrown Value} (h : ∀ error, outcome = .error error → P error) :
    (settleLease config.driver key token outcome : Effect ω Thrown Value).Fails P := by
  cases outcome with
  | ok result =>
      refine Effect.Fails.bind ?_ fun _ => Effect.Fails.pure result
      exact Effect.Fails.await fun error => hthrows.complete key token _ error
  | error error =>
      have herror : P error := h error rfl
      cases hrunning : stillRunning error with
      | some running =>
          simp only [settleLease, hrunning]
          exact Effect.Fails.fail herror
      | none =>
          simp only [settleLease, hrunning]
          refine Effect.Fails.bind ?_ fun _ => Effect.Fails.fail herror
          exact Effect.Fails.await fun error => hthrows.release key token error

theorem runUnderKey_throws {ω : Type} (hwraps : Wraps P Q) (hthrows : Throws P Q config handlers)
    {key : String} {run : Effect ω Thrown Value} (h : run.Fails P) :
    (runUnderKey config.driver key run).Fails P := by
  refine Effect.Fails.bind (Effect.Fails.await fun error => hthrows.acquire key error) ?_
  intro lease
  cases lease with
  | held => exact Effect.Fails.fail (hwraps.leaseHeld key)
  | complete kept => exact Effect.Fails.pure _
  | acquired token =>
      refine Effect.Fails.attempt_bind h ?_ ?_
      · intro result
        exact settleLease_throws hthrows fun error herror => by cases herror
      · intro error herror
        refine settleLease_throws hthrows ?_
        intro error' heq
        cases heq
        exact herror

theorem childrenOf_throws {definition : JobDefinition} {state : FlowState} {error : Thrown}
    (hresult : ∀ slot ∈ slotsOf definition, ∀ value error,
      validateResult slot.definition value = .error error → Q error)
    (h : childrenOf definition state = .error error) : Q error := by
  obtain ⟨slot, hslot, h⟩ := mapM_eq_error h
  cases hvalues : slotValues slot state.results with
  | ok values =>
      rw [hvalues] at h
      cases h
  | error e =>
      rw [hvalues] at h
      cases h
      obtain ⟨result, -, hresult'⟩ := mapM_eq_error hvalues
      exact hresult slot hslot _ _ hresult'

theorem childrenFor_throws {ω : Type} (hwraps : Wraps P Q) {read : Answer Thrown FlowState}
    {definition : JobDefinition} (envelope : Envelope)
    (hread : ∀ error, read = some (.error error) → Q error)
    (hresult : ∀ slot ∈ slotsOf definition, ∀ value error,
      validateResult slot.definition value = .error error → Q error) :
    (childrenFor read definition envelope : Effect ω Thrown _).Fails Q := by
  unfold childrenFor
  split_ifs
  · exact Effect.Fails.pure _
  refine Effect.Fails.bind (Effect.Fails.await hread) ?_
  intro state
  refine Effect.Fails.ofExcept ?_
  intro error herror
  unfold childrenRead at herror
  split_ifs at herror
  · cases herror
    exact hwraps.pending _ _
  · cases herror
    exact hwraps.dead _ _
  · split at herror
    · cases herror
      exact hwraps.short _
    · exact childrenOf_throws hresult herror

theorem work_throws {ω : Type} (hwraps : Wraps P Q) (hthrows : Throws P Q config handlers)
    {handler : JobHandler} (hmem : handler ∈ handlers) (envelope : Envelope) (event : JobEvent)
    (delivery : JobDelivery) :
    (work config handler envelope event delivery : Effect ω Thrown Value).Fails P := by
  have hrun : ∀ data context, (runHandler handler envelope.name data context :
      Effect ω Thrown Value).Fails P := fun data context =>
    runHandler_throws hwraps (hthrows.body handler hmem data context)
  have hwrapped : ∀ {α : Type} (r : Except Thrown α),
      (Effect.ofExcept (r.mapError unrecoverable) : Effect ω Thrown α).Fails P := by
    intro α r
    refine Effect.Fails.ofExcept ?_
    intro error herror
    obtain ⟨cause, -, rfl⟩ := mapError_eq_error herror
    exact hwraps.unrecoverable cause
  refine Effect.Fails.bind (Effect.Fails.await ?_) ?_
  · intro error herror
    obtain ⟨migrated, -, hmigrated⟩ := Option.map_eq_some_iff.1 herror
    obtain ⟨cause, -, rfl⟩ := mapError_eq_error hmigrated
    exact hwraps.unrecoverable cause
  intro migrated
  refine (hwrapped _).bind ?_
  intro data
  have hchildren : (childrenFor (config.driver.read event.queue delivery.id) handler.definition
      envelope : Effect ω Thrown _).Fails Q :=
    childrenFor_throws hwraps envelope (hthrows.read _ _) (hthrows.result handler hmem)
  refine Effect.Fails.bind (hchildren.onError_of ?_) ?_
  · intro error herror
    exact Effect.Fails.fail (hwraps.refused error herror)
  intro children
  refine Effect.Fails.bind (Effect.Fails.ofExcept (hthrows.key handler hmem data)) ?_
  intro key
  cases key with
  | none => exact hrun _ _
  | some key => exact runUnderKey_throws hwraps hthrows (hrun _ _)

theorem notify_throws {Event : Type} (hook : Option (Event → Answer Thrown Unit))
    (fired : Event → Notice) (event : Event) : (notify hook fired event).Fails P := by
  cases hook with
  | none => exact Effect.Fails.pure ()
  | some answer =>
      refine Effect.Fails.bind ?_ fun _ => Effect.Fails.onError fun _ => Effect.Fails.pure ()
      intro l error h
      cases h

theorem handlerFor_ok {envelope : Envelope} {handler : JobHandler}
    (h : handlerFor handlers envelope = .ok handler) : handler ∈ handlers := by
  unfold handlerFor at h
  split at h
  · rename_i found hfind
    cases h
    exact List.mem_of_find?_eq_some hfind
  · cases h

/-- **What a dispatch fails with**, as far as it can be told from what code outside throws. -/
theorem dispatch_throws (hwraps : Wraps P Q) (hthrows : Throws P Q config handlers)
    (envelope : Envelope) (event : JobEvent) (delivery : JobDelivery) :
    (dispatch config handlers envelope event delivery).Fails P := by
  intro l error h
  rcases Effect.bind_eq_error_iff.1 h with h | ⟨handler, l₁, l₂, hfind, h, -⟩
  · obtain ⟨-, h⟩ := Effect.ofExcept_eq_some_iff.1 h
    unfold handlerFor at h
    split at h
    · cases h
    · cases h
      exact hwraps.unrecoverable _
  have hmem : handler ∈ handlers := handlerFor_ok (Effect.ofExcept_eq_some_iff.1 hfind).2
  refine Effect.Fails.bind ?_ ?_ _ _ h
  · refine Effect.Fails.ofExcept ?_
    intro e he
    simp only [assertVersionIsKnown] at he
    split_ifs at he
    cases he
    exact hwraps.versionAhead _ _ _
  · intro _
    refine (notify_throws _ _ _).bind fun _ => ?_
    refine (work_throws hwraps hthrows hmem envelope event delivery).bind fun value => ?_
    exact (notify_throws _ _ _).bind fun _ => Effect.Fails.pure value

end Throws

/-! ### Errors of the classes inside the package -/

theorem reportable_of_cls {error : Thrown} {cls : ErrorClass} (h : error.cls = some cls)
    (hcls : cls.isInternal = false) : Reportable error := by
  simp [Reportable, Thrown.isInternal, h, hcls]

theorem reportable_unrecoverable (error : Thrown) : Reportable (unrecoverable error) := by
  rcases cls_unrecoverable error with h | h
  · exact reportable_of_cls h rfl
  · exact reportable_of_cls h rfl

theorem reportable_childrenRefusal (error : Thrown) : Reportable (childrenRefusal error) := by
  unfold childrenRefusal
  split_ifs with h
  · exact reportable_unrecoverable error
  · simp only [not_or, Bool.not_eq_true] at h
    exact h.1

/-- The dispatch wraps every error of a class inside the package. -/
theorem wraps_reportable : Wraps Reportable fun _ => True where
  unrecoverable := reportable_unrecoverable
  leaseHeld _ := reportable_of_cls (cls_newError _ _ _ _ _) rfl
  versionAhead _ _ _ := reportable_of_cls (cls_newError _ _ _ _ _) rfl
  expired _ _ := reportable_of_cls (cls_newError _ _ _ _ _) rfl
  aborted name definition execution raised h := by
    rcases cls_abortedWith name (signalReason definition name execution) raised with hc | hc | hc
    · rw [hc]
      exact h
    · exact reportable_of_cls hc rfl
    · exact reportable_of_cls hc rfl
  pending _ _ := trivial
  dead _ _ := trivial
  short _ := trivial
  refused error _ := reportable_childrenRefusal error

/-- The package never hands out the classes of `ChildDeadError` and `ChildrenShortError`, so code
outside it throws no error of them. -/
abbrev Foreign (config : JobsConfig) (handlers : List JobHandler) : Prop :=
  Throws Reportable (fun _ => True) config handlers

/-! ### Errors that have a text -/

/-- An error `serializeError` can read. -/
abbrev Presentable (error : Thrown) : Prop := (serializeError error).isSome = true

theorem presentable_newError (cls : ErrorClass) (name message : String) (running : Option Running) :
    Presentable (newError cls name message running none) := rfl

/-- A presentable error can be read as the cause of another. -/
theorem snapshot_of_presentable {error : Thrown} (h : Presentable error) :
    (snapshot error).isSome = true := by
  rcases error with e | v
  · rfl
  · cases hv : v.toText with
    | some text => simp [snapshot, hv]
    | none => simp [Presentable, serializeError, snapshot, hv] at h

/-- An error object is presentable exactly when its cause can be read. -/
theorem presentable_iff {e : ErrorObject} :
    Presentable (.inl e) ↔ ∀ cause ∈ e.cause, (snapshot cause).isSome = true := by
  obtain ⟨cls, name, message, stack, running, results, cause⟩ := e
  cases cause with
  | none => simp [Presentable, serializeError, snapshot]
  | some cause =>
      rcases cause with e | v
      · simp [Presentable, serializeError, snapshot]
      · cases hv : v.toText <;> simp [Presentable, serializeError, snapshot, hv]

theorem mem_asCause {error cause : Thrown} (h : cause ∈ error.asCause) : cause = error := by
  unfold Thrown.asCause at h
  split at h
  · cases h
  · exact (Option.some.inj h).symm

/-- An error object that was given a readable cause is presentable. -/
theorem presentable_withCause {e : ErrorObject} {cause : Thrown}
    (h : (snapshot cause).isSome = true) : Presentable (Thrown.withCause (.inl e) cause) := by
  refine presentable_iff.2 ?_
  intro c hc
  rw [mem_asCause hc]
  exact h

theorem presentable_unrecoverable (error : Thrown) : Presentable (unrecoverable error) := by
  unfold unrecoverable
  split
  · rename_i text htext
    refine presentable_iff.2 ?_
    intro cause hcause
    rw [mem_asCause hcause]
    rcases error with e | v
    · rfl
    · simp [snapshot, show v.toText = some text from htext]
  · exact presentable_newError _ _ _ _

/-- The reasons the runtime aborts a signal with are error objects. -/
theorem signalReason_eq {definition : JobDefinition} {name : String} {execution : Execution}
    {reason : Thrown} (h : signalReason definition name execution = some reason) :
    ∃ e, reason = .inl e := by
  have hinterrupted : ∀ i : Interruption, ∃ e, i.reason name = .inl e := by
    intro i
    cases i <;> exact ⟨_, rfl⟩
  unfold signalReason at h
  cases hi : execution.interrupted with
  | some i =>
      rw [hi] at h
      obtain ⟨e, he⟩ := hinterrupted i
      cases hexp : execution.expired definition <;> simp [hexp, abort] at h <;>
        exact ⟨e, h ▸ he⟩
  | none =>
      rw [hi] at h
      cases hexp : execution.expired definition with
      | none => simp [hexp] at h
      | some expired =>
          obtain ⟨timeoutMs, -, hexpired⟩ := Option.bind_eq_some_iff.1 hexp
          split_ifs at hexpired
          cases hexpired
          simp [hexp, abort] at h
          exact ⟨_, h.symm⟩

theorem presentable_replaceBy {fresh : Option Running → Thrown} {e : ErrorObject} {raised : Raised}
    (hfresh : ∀ running, ∃ e', fresh running = .inl e') (h : Presentable raised.error) :
    Presentable (replaceBy fresh (.inl e) raised) := by
  unfold replaceBy
  split
  · rename_i running _
    obtain ⟨e', he'⟩ := hfresh (some running)
    rw [he']
    exact presentable_withCause (snapshot_of_presentable h)
  · split_ifs
    · exact h
    · exact presentable_withCause (snapshot_of_presentable h)

/-- The dispatch keeps every error readable. -/
theorem wraps_presentable : Wraps Presentable Presentable where
  unrecoverable := presentable_unrecoverable
  leaseHeld _ := presentable_newError _ _ _ _
  versionAhead _ _ _ := presentable_newError _ _ _ _
  expired _ _ := presentable_newError _ _ _ _
  aborted name definition execution raised h := by
    unfold abortedWith
    cases hreason : signalReason definition name execution with
    | none => exact h
    | some reason =>
        obtain ⟨e, rfl⟩ := signalReason_eq hreason
        dsimp only
        split_ifs
        · exact presentable_replaceBy (fun running => ⟨_, rfl⟩) h
        · exact h
        · exact presentable_replaceBy (fun running => ⟨_, rfl⟩) h
  pending _ _ := presentable_newError _ _ _ _
  dead _ _ := rfl
  short _ := presentable_newError _ _ _ _
  refused error h := by
    unfold childrenRefusal
    split_ifs
    · exact presentable_unrecoverable error
    · exact h

/-- Code outside the package throws nothing that `String` refuses to convert. -/
abbrev Legible (config : JobsConfig) (handlers : List JobHandler) : Prop :=
  Throws Presentable Presentable config handlers

end Jubs
