/-
**What a delivery fires.**

The hooks of a delivery and the burial it asks for are one list of notices.  It is determined by how
the dispatch ended and by BullMQ's retry rule, whatever the hooks and the dead store do.

Main definitions:

* `Jubs.JobsConfig.heard` — the notices that reach a configured hook;
* `Jubs.Noticed`, `Jubs.finalNotices` — the notices of a delivery that settled.

Main results:

* `Jubs.dispatch_notices` — what a dispatch fires, however it ends;
* `Jubs.runOn_finished`, `Jubs.runOn_postponed` — what the delivery that finishes a job off fires,
  and one that ends no attempt;
* `Jubs.runOn_notices` — **the hooks and the burial of every delivery that settles**.
-/

import Jubs.DispatchErrors

set_option autoImplicit false

namespace Jubs

/-! ### What a dispatch fires -/

/-- Whether a notice reaches anybody: a hook that is not configured is not fired. -/
def JobHooks.hears (hooks : JobHooks) : Notice → Bool
  | .onStart _ => hooks.onStart.isSome
  | .onSuccess _ => hooks.onSuccess.isSome
  | .onAttemptFailed _ => hooks.onAttemptFailed.isSome
  | .onDead _ => hooks.onDead.isSome
  | .bury _ _ => true

/-- What is noticed of a list of notices. -/
def JobsConfig.heard (config : JobsConfig) (l : List Notice) : List Notice :=
  l.filter config.hooks.hears

theorem heard_append (config : JobsConfig) (l l' : List Notice) :
    config.heard (l ++ l') = config.heard l ++ config.heard l' := List.filter_append ..

/-- A hook is fired once, and whatever it does nothing of it reaches the delivery. -/
theorem notify_eq_some (config : JobsConfig) {Event : Type} {event : Event}
    {hook : Option (Event → Answer Thrown Unit)} {fired : Event → Notice} {l : List Notice}
    {r : Except Thrown Unit} (hhears : config.hooks.hears (fired event) = hook.isSome)
    (h : notify hook fired event = some (l, r)) : r = .ok () ∧ l = config.heard [fired event] := by
  cases hook with
  | none =>
      cases h
      exact ⟨rfl, by simp [JobsConfig.heard, hhears]⟩
  | some answer =>
      have hl : config.heard [fired event] = [fired event] := by simp [JobsConfig.heard, hhears]
      rcases Effect.bind_eq_some_iff.1 h with ⟨e, h, -⟩ | ⟨a, l₁, l₂, h₁, h₂, rfl⟩
      · cases h
      cases h₁
      rcases Effect.onError_eq_some_iff.1 h₂ with ⟨a, ha, rfl⟩ | ⟨e, l₁, l₃, he, h₃, rfl⟩
      · rw [Effect.Quiet.await _ _ _ ha]
        exact ⟨rfl, hl.symm⟩
      · cases h₃
        rw [Effect.Quiet.await _ _ _ he]
        exact ⟨rfl, hl.symm⟩

theorem work_quiet {ω : Type} (config : JobsConfig) (handler : JobHandler) (envelope : Envelope)
    (event : JobEvent) (delivery : JobDelivery) :
    (work config handler envelope event delivery : Effect ω Thrown Value).Quiet := by
  have hrun : ∀ data context, (runHandler handler envelope.name data context :
      Effect ω Thrown Value).Quiet := fun data context => Effect.Quiet.await _
  refine (Effect.Quiet.await _).bind fun migrated => (Effect.Quiet.ofExcept _).bind fun data => ?_
  refine Effect.Quiet.bind ?_ fun children => (Effect.Quiet.ofExcept _).bind fun key => ?_
  · refine Effect.Quiet.onError ?_ fun error => Effect.Quiet.fail _
    unfold childrenFor
    split_ifs
    · exact Effect.Quiet.pure _
    · exact (Effect.Quiet.await _).bind fun state => Effect.Quiet.ofExcept _
  · cases key with
    | none => exact hrun _ _
    | some key =>
        refine (Effect.Quiet.await _).bind ?_
        intro lease
        cases lease with
        | held => exact Effect.Quiet.fail _
        | complete kept => exact Effect.Quiet.pure _
        | acquired token =>
            refine (hrun _ _).attempt.bind ?_
            intro outcome
            cases outcome with
            | ok result => exact (Effect.Quiet.await _).bind fun _ => Effect.Quiet.pure _
            | error error =>
                cases hrunning : stillRunning error with
                | some running =>
                    simp only [settleLease, hrunning]
                    exact Effect.Quiet.fail _
                | none =>
                    simp only [settleLease, hrunning]
                    exact (Effect.Quiet.await _).bind fun _ => Effect.Quiet.fail _

/-- What a dispatch that ends fires: nothing before it knows its handler and its version, `onStart`
from there on, and `onSuccess` when it ends with a value. -/
theorem dispatch_notices {config : JobsConfig} {handlers : List JobHandler} {envelope : Envelope}
    {event : JobEvent} {delivery : JobDelivery} {l : List Notice} {r : Except Thrown Value}
    (h : dispatch config handlers envelope event delivery = some (l, r)) :
    (∃ value, r = .ok value ∧ l = config.heard [.onStart event, .onSuccess event]) ∨
      ∃ error, r = .error error ∧ (l = [] ∨ l = config.heard [.onStart event]) := by
  rcases Effect.bind_eq_some_iff.1 h with ⟨error, hfind, rfl⟩ | ⟨handler, l₁, l₂, hfind,
    hknown, rfl⟩
  · obtain ⟨rfl, -⟩ := Effect.ofExcept_eq_some_iff.1 hfind
    exact Or.inr ⟨error, rfl, Or.inl rfl⟩
  obtain ⟨rfl, -⟩ := Effect.ofExcept_eq_some_iff.1 hfind
  rcases Effect.bind_eq_some_iff.1 hknown with ⟨error, hv, rfl⟩ | ⟨_, l₃, l₄, hv, hstarts, rfl⟩
  · obtain ⟨rfl, -⟩ := Effect.ofExcept_eq_some_iff.1 hv
    exact Or.inr ⟨error, rfl, Or.inl rfl⟩
  obtain ⟨rfl, -⟩ := Effect.ofExcept_eq_some_iff.1 hv
  rcases Effect.bind_eq_some_iff.1 hstarts with ⟨error, hn, rfl⟩ | ⟨_, l₅, l₆, hn, hworks, rfl⟩
  · cases (notify_eq_some config rfl hn).1
  -- From here on `onStart` has been fired.
  obtain ⟨-, rfl⟩ := notify_eq_some config rfl hn
  rcases Effect.bind_eq_some_iff.1 hworks with ⟨error, hw, rfl⟩ | ⟨value, l₇, l₈, hw, hends, rfl⟩
  · obtain rfl := work_quiet _ _ _ _ _ _ _ hw
    exact Or.inr ⟨error, rfl, Or.inr (by simp)⟩
  obtain rfl := work_quiet _ _ _ _ _ _ _ hw
  rcases Effect.bind_eq_some_iff.1 hends with ⟨error, hs, rfl⟩ | ⟨_, l₉, l₁₀, hs, hpure, rfl⟩
  · cases (notify_eq_some config rfl hs).1
  obtain ⟨-, rfl⟩ := notify_eq_some config rfl hs
  cases hpure
  refine Or.inl ⟨value, rfl, ?_⟩
  simp [← heard_append]

/-! ### What a delivery fires -/

theorem bury_eq_some {config : JobsConfig} {queue : String} {entry : DeadEntry} {l : List Notice}
    {r : Except Thrown Unit} (h : bury config queue entry = some (l, r)) :
    r = .ok () ∧ l = if queue ∈ config.deadQueues then [.bury queue entry] else [] := by
  unfold bury at h
  split_ifs at h with hqueue
  · rw [if_pos hqueue]
    have hnotify : notify (some (config.driver.bury queue)) (.bury queue) entry = some (l, r) := h
    exact notify_eq_some config rfl hnotify
  · cases h
    exact ⟨rfl, (if_neg hqueue).symm⟩

/-- What is noticed of a failure that finishes a job off.  The record of the burial is the job's
own: its queue, its id, its envelope and the error its hooks are told. -/
def finalNotices (config : JobsConfig) (envelope : Envelope) (event : JobEvent)
    (serialized : SerializedError) (burial : Burial) : List Notice :=
  config.heard [.onAttemptFailed { event with error := serialized }] ++
    (if event.queue ∈ config.deadQueues then
      [.bury event.queue ⟨event.id, envelope, serialized, burial⟩] else []) ++
    config.heard [.onDead { event with error := serialized }]

/-- The notices of a delivery that ended with `outcome`. -/
def Noticed (config : JobsConfig) (envelope : Envelope) (event : JobEvent)
    (delivery : JobDelivery) : Except Thrown Value → List Notice → Prop
  | .ok _, l => l = config.heard [.onStart event, .onSuccess event]
  | .error error, l =>
      ∃ started : List Notice, (started = [] ∨ started = config.heard [.onStart event]) ∧
        if error.isPostponement then l = started
        else
          ∃ serialized, serializeError error = some serialized ∧
            if willRetry delivery error then
              l = started ++ config.heard [.onAttemptFailed { event with error := serialized }]
            else ∃ burial, l = started ++ finalNotices config envelope event serialized burial

section Report

variable {config : JobsConfig} {envelope : Envelope} {event : JobEvent} {delivery : JobDelivery}
variable {error : Thrown} {serialized : SerializedError}

/-- A report starts by telling `onAttemptFailed`. -/
theorem report_eq_some {l : List Notice} {r : Except Thrown Unit}
    (hserialized : serializeError error = some serialized)
    (h : report config envelope event delivery error = some (l, r)) :
    ∃ l', l = config.heard [.onAttemptFailed { event with error := serialized }] ++ l' ∧
      finishOff config envelope { event with error := serialized } (burialFor delivery error) =
        some (l', r) := by
  rcases Effect.bind_eq_some_iff.1 h with ⟨e, hser, -⟩ | ⟨_, l₁, l₂, hser, htold, rfl⟩
  · rw [hserialized] at hser
    cases hser
  rw [hserialized] at hser
  cases hser
  rcases Effect.bind_eq_some_iff.1 htold with ⟨e, hn, -⟩ | ⟨_, l₃, l₄, hn, hburial, rfl⟩
  · cases (notify_eq_some config rfl hn).1
  obtain ⟨-, rfl⟩ := notify_eq_some config rfl hn
  exact ⟨l₄, rfl, hburial⟩

/-- The report of a failure after which the job runs again. -/
theorem report_retried {l : List Notice} {r : Except Thrown Unit} (hinternal : Reportable error)
    (hserialized : serializeError error = some serialized)
    (hretry : willRetry delivery error = true)
    (h : report config envelope event delivery error = some (l, r)) :
    r = .ok () ∧ l = config.heard [.onAttemptFailed { event with error := serialized }] := by
  obtain ⟨l', rfl, hburial⟩ := report_eq_some hserialized h
  rw [burialFor_of_retried hretry hinternal] at hburial
  cases hburial
  exact ⟨rfl, List.append_nil _⟩

/-- The report of a failure that finishes the job off. -/
theorem report_finished {l : List Notice} {r : Except Thrown Unit}
    (hserialized : serializeError error = some serialized)
    (hretry : willRetry delivery error = false)
    (h : report config envelope event delivery error = some (l, r)) :
    r = .ok () ∧ ∃ burial, l = finalNotices config envelope event serialized burial := by
  obtain ⟨l', rfl, hburial⟩ := report_eq_some hserialized h
  obtain ⟨burial, hb⟩ := Option.isSome_iff_exists.1 (burialFor_of_finished hretry)
  rw [hb] at hburial
  rcases Effect.bind_eq_some_iff.1 hburial with ⟨e, hbury, -⟩ | ⟨_, l₁, l₂, hbury, hdead, rfl⟩
  · cases (bury_eq_some hbury).1
  obtain ⟨-, rfl⟩ := bury_eq_some hbury
  obtain ⟨rfl, rfl⟩ := notify_eq_some config rfl hdead
  exact ⟨rfl, burial, (List.append_assoc _ _ _).symm⟩

/-- What a delivery does after its dispatch failed: it keeps the error, and a report comes before it
unless the error ends no attempt. -/
theorem rejectWith_eq_some {l : List Notice} {r : Except Thrown Value}
    (hserialized : serializeError error = some serialized)
    (h : rejectWith config envelope event delivery error = some (l, r)) :
    r = .error error ∧ ((error.isPostponement = true ∧ l = []) ∨
      (error.isPostponement = false ∧
        report config envelope event delivery error = some (l, .ok ()))) := by
  unfold rejectWith at h
  split_ifs at h with hpostponed
  · cases h
    exact ⟨rfl, Or.inl ⟨hpostponed, rfl⟩⟩
  have hpostponed : error.isPostponement = false := by simpa using hpostponed
  rcases Effect.bind_eq_some_iff.1 h with ⟨e, hr, -⟩ | ⟨_, l₁, l₂, hr, hfail, rfl⟩
  · cases hretry : willRetry delivery error with
    | true =>
        -- A report never fails, since it drops what the hooks and the dead store throw.
        obtain ⟨l', -, hburial⟩ := report_eq_some hserialized hr
        cases hb : burialFor delivery error with
        | none =>
            rw [hb] at hburial
            cases hburial
        | some burial =>
            rw [hb] at hburial
            rcases Effect.bind_eq_some_iff.1 hburial with ⟨e, hb, -⟩ | ⟨_, l₁, l₂, -, hdead, -⟩
            · cases (bury_eq_some hb).1
            · cases (notify_eq_some config rfl hdead).1
    | false => cases (report_finished hserialized hretry hr).1
  cases hfail
  rw [List.append_nil]
  exact ⟨rfl, Or.inr ⟨hpostponed, hr⟩⟩

end Report

/-! ### When a delivery settles -/

/-- The hooks of a failure and the dead store settle in the end, whatever they settle with. -/
structure JobsConfig.Answers (config : JobsConfig) : Prop where
  onAttemptFailed : ∀ hook ∈ config.hooks.onAttemptFailed, ∀ failure, hook failure ≠ none
  onDead : ∀ hook ∈ config.hooks.onDead, ∀ failure, hook failure ≠ none
  bury : ∀ queue entry, config.driver.bury queue entry ≠ none

theorem notify_settles {Event : Type} {hook : Option (Event → Answer Thrown Unit)}
    {fired : Event → Notice} {event : Event} (h : ∀ answer ∈ hook, answer event ≠ none) :
    ∃ l, notify hook fired event = some (l, .ok ()) := by
  cases hook with
  | none => exact ⟨[], rfl⟩
  | some answer =>
      obtain ⟨r, hr⟩ := Option.ne_none_iff_exists'.1 (h answer rfl)
      cases r with
      | ok u => exact ⟨[fired event], by simp only [notify, hr]; rfl⟩
      | error e => exact ⟨[fired event], by simp only [notify, hr]; rfl⟩

theorem bury_settles {config : JobsConfig} (hanswers : config.Answers) (queue : String)
    (entry : DeadEntry) : ∃ l, bury config queue entry = some (l, .ok ()) := by
  unfold bury
  split_ifs
  · have hanswer : ∀ answer ∈ some (config.driver.bury queue), answer entry ≠ none := by
      intro answer hmem
      cases hmem
      exact hanswers.bury _ _
    exact notify_settles hanswer
  · exact ⟨[], rfl⟩

/-- A report gets through when each of its parts does. -/
theorem report_settles_of_parts {config : JobsConfig} {envelope : Envelope} {event : JobEvent}
    {delivery : JobDelivery} {error : Thrown} {serialized : SerializedError}
    (hserialized : serializeError error = some serialized)
    (htold : ∃ l, notify config.hooks.onAttemptFailed .onAttemptFailed
      { event with error := serialized } = some (l, .ok ()))
    (hburied : ∀ burial ∈ burialFor delivery error,
      (∃ l, bury config event.queue ⟨event.id, envelope, serialized, burial⟩ = some (l, .ok ())) ∧
        ∃ l, notify config.hooks.onDead .onDead { event with error := serialized } =
          some (l, .ok ())) :
    ∃ l, report config envelope event delivery error = some (l, .ok ()) := by
  obtain ⟨l₁, htold⟩ := htold
  have hser : (Effect.ofExcept ((serializeError error).elim (.error typeError) .ok) :
      Effect Notice Thrown SerializedError) = some ([], .ok serialized) := by
    rw [hserialized]
    rfl
  obtain ⟨l₂, hfinish⟩ : ∃ l, finishOff config envelope { event with error := serialized }
      (burialFor delivery error) = some (l, .ok ()) := by
    cases hburial : burialFor delivery error with
    | none => exact ⟨[], rfl⟩
    | some burial =>
        obtain ⟨⟨l₃, hbury⟩, l₄, hdead⟩ := hburied burial hburial
        exact ⟨_, Effect.bind_eq_ok_iff.2 ⟨_, _, _, hbury, hdead, rfl⟩⟩
  exact ⟨_, Effect.bind_eq_ok_iff.2 ⟨_, _, _, hser,
    Effect.bind_eq_ok_iff.2 ⟨_, _, _, htold, hfinish, rfl⟩, rfl⟩⟩

theorem report_settles {config : JobsConfig} (hanswers : config.Answers) {envelope : Envelope}
    {event : JobEvent} {delivery : JobDelivery} {error : Thrown} {serialized : SerializedError}
    (hserialized : serializeError error = some serialized) :
    ∃ l, report config envelope event delivery error = some (l, .ok ()) := by
  refine report_settles_of_parts hserialized ?_ ?_
  · exact notify_settles fun hook hhook => hanswers.onAttemptFailed hook hhook _
  · intro burial _
    refine ⟨bury_settles hanswers _ _, ?_⟩
    exact notify_settles fun hook hhook => hanswers.onDead hook hhook _

theorem rejectWith_settles {config : JobsConfig} (hanswers : config.Answers) {envelope : Envelope}
    {event : JobEvent} {delivery : JobDelivery} {error : Thrown}
    (hserializes : (serializeError error).isSome) :
    ∃ l, rejectWith config envelope event delivery error = some (l, .error error) := by
  obtain ⟨serialized, hserialized⟩ := Option.isSome_iff_exists.1 hserializes
  unfold rejectWith
  split_ifs
  · exact ⟨[], rfl⟩
  · obtain ⟨l, hreport⟩ : ∃ l, report config envelope event delivery error = some (l, .ok ()) :=
      report_settles hanswers hserialized
    exact ⟨_, Effect.bind_eq_error_iff.2 (Or.inr ⟨_, _, _, hreport, rfl, rfl⟩)⟩

/-- `runOn`, once the envelope is read. -/
theorem runOn_eq {config : JobsConfig} {handlers : List JobHandler} {queue : String}
    {delivery : JobDelivery} {envelope : Envelope}
    (henvelope : readEnvelope delivery.envelope = .ok envelope) :
    runOn config handlers queue delivery =
      (dispatch config handlers envelope (eventOf queue envelope delivery) delivery).onError
        (rejectWith config envelope (eventOf queue envelope delivery) delivery) := by
  have hread : envelopeOf delivery = .ok envelope := by
    rw [envelopeOf, henvelope]
    rfl
  rw [runOn, hread, Effect.ofExcept_ok_bind]

/-- What a delivery that was finished off fires, whatever code outside throws. -/
theorem runOn_finished {config : JobsConfig} {handlers : List JobHandler} {queue : String}
    {delivery : JobDelivery} {envelope : Envelope} {l : List Notice} {error : Thrown}
    (henvelope : readEnvelope delivery.envelope = .ok envelope)
    (hserializes : (dispatch config handlers envelope (eventOf queue envelope delivery)
      delivery).Fails fun error => (serializeError error).isSome)
    (h : runOn config handlers queue delivery = some (l, .error error))
    (hpostponed : error.isPostponement = false) (hretry : willRetry delivery error = false) :
    ∃ started serialized burial, l = started ++
      finalNotices config envelope (eventOf queue envelope delivery) serialized burial := by
  rw [runOn_eq henvelope] at h
  rcases Effect.onError_eq_some_iff.1 h with ⟨value, -, heq⟩ | ⟨e, l₁, l₂, hd, hreject, rfl⟩
  · cases heq
  obtain ⟨serialized, hserialized⟩ := Option.isSome_iff_exists.1 (hserializes _ _ hd)
  obtain ⟨heq, ⟨hp, -⟩ | ⟨-, hreport⟩⟩ := rejectWith_eq_some hserialized hreject
  · cases heq
    simp [hp] at hpostponed
  · cases heq
    obtain ⟨-, burial, rfl⟩ := report_finished hserialized hretry hreport
    exact ⟨l₁, serialized, burial, rfl⟩

/-- What a delivery that ends no attempt fires. -/
theorem runOn_postponed {config : JobsConfig} {handlers : List JobHandler} {queue : String}
    {delivery : JobDelivery} {envelope : Envelope} {l : List Notice} {error : Thrown}
    (henvelope : readEnvelope delivery.envelope = .ok envelope)
    (hserializes : (dispatch config handlers envelope (eventOf queue envelope delivery)
      delivery).Fails fun error => (serializeError error).isSome)
    (h : runOn config handlers queue delivery = some (l, .error error))
    (hpostponed : error.isPostponement = true) :
    l = [] ∨ l = config.heard [.onStart (eventOf queue envelope delivery)] := by
  rw [runOn_eq henvelope] at h
  rcases Effect.onError_eq_some_iff.1 h with ⟨value, -, heq⟩ | ⟨e, l₁, l₂, hd, hreject, rfl⟩
  · cases heq
  obtain ⟨serialized, hserialized⟩ := Option.isSome_iff_exists.1 (hserializes _ _ hd)
  obtain ⟨heq, ⟨-, rfl⟩ | ⟨hp, -⟩⟩ := rejectWith_eq_some hserialized hreject
  · rw [List.append_nil]
    rcases dispatch_notices hd with ⟨value, hvalue, -⟩ | ⟨e', -, hstarted⟩
    · cases hvalue
    · exact hstarted
  · cases heq
    simp [hp] at hpostponed

/-- **The hooks and the burial of every delivery of a readable envelope**, whatever its dispatch
ended with.  A delivery that settles does so with the very value or the very error of its dispatch,
and it settles as soon as its hooks and the dead store have. -/
theorem runOn_notices {config : JobsConfig} {handlers : List JobHandler} {queue : String}
    {delivery : JobDelivery} {envelope : Envelope} {l₀ : List Notice}
    {outcome : Except Thrown Value}
    (hforeign : Foreign config handlers) (henvelope : readEnvelope delivery.envelope = .ok envelope)
    (hdispatch : dispatch config handlers envelope (eventOf queue envelope delivery) delivery =
      some (l₀, outcome))
    (hserializes : ∀ error, outcome = .error error → (serializeError error).isSome) :
    (∀ l r, runOn config handlers queue delivery = some (l, r) →
      r = outcome ∧ Noticed config envelope (eventOf queue envelope delivery) delivery outcome l) ∧
    (config.Answers → ∃ l, runOn config handlers queue delivery = some (l, outcome)) := by
  rw [runOn_eq henvelope]
  constructor
  · intro l r h
    rcases Effect.onError_eq_some_iff.1 h with ⟨value, hd, rfl⟩ | ⟨error, l₁, l₂, hd, hreject, rfl⟩
    · cases hdispatch.symm.trans hd
      rcases dispatch_notices hd with ⟨value', -, hl⟩ | ⟨error, heq, -⟩
      · exact ⟨rfl, hl⟩
      · cases heq
    cases hdispatch.symm.trans hd
    rcases dispatch_notices hd with ⟨value, heq, -⟩ | ⟨e, heq, hstarted⟩
    · cases heq
    cases heq
    obtain ⟨serialized, hserialized⟩ := Option.isSome_iff_exists.1 (hserializes error rfl)
    obtain ⟨heq, hcases⟩ := rejectWith_eq_some hserialized hreject
    refine ⟨heq, l₀, hstarted, ?_⟩
    rcases hcases with ⟨hp, rfl⟩ | ⟨hp, hreport⟩
    · rw [if_pos hp, List.append_nil]
    rw [if_neg (by simp [hp])]
    refine ⟨serialized, hserialized, ?_⟩
    cases hretry : willRetry delivery error with
    | true =>
        have hinternal : Reportable error :=
          dispatch_throws wraps_reportable hforeign _ _ _ _ _ hd
        rw [if_pos rfl, (report_retried hinternal hserialized hretry hreport).2]
    | false =>
        obtain ⟨-, burial, rfl⟩ := report_finished hserialized hretry hreport
        rw [if_neg (by simp)]
        exact ⟨burial, rfl⟩
  · intro hanswers
    cases outcome with
    | ok value => exact ⟨l₀, Effect.onError_eq_some_iff.2 (Or.inl ⟨value, hdispatch, rfl⟩)⟩
    | error error =>
        obtain ⟨l, hreject⟩ := rejectWith_settles hanswers (hserializes error rfl)
        exact ⟨_, Effect.onError_eq_some_iff.2 (Or.inr ⟨error, l₀, l, hdispatch, hreject, rfl⟩)⟩

/-- A configuration whose driver and hooks all answer, with one queue opted in. -/
def mailConfig : JobsConfig where
  driver := {
    acquire := fun _ => some (.ok .held)
    complete := fun _ _ _ => some (.ok ())
    release := fun _ _ => some (.ok ())
    read := fun _ _ => some (.ok ⟨[], [], 0⟩)
    bury := fun _ _ => some (.error typeError) }
  hooks := {
    onStart := some fun _ => some (.ok ())
    onSuccess := none
    onAttemptFailed := some fun _ => some (.error typeError)
    onDead := some fun _ => some (.ok ()) }
  deadQueues := ["mail"]

/-- A driver that refuses nothing leaves only the handlers to throw. -/
theorem throws_mailConfig {P Q : Thrown → Prop} {handlers : List JobHandler}
    (hresult : ∀ handler ∈ handlers, ∀ slot ∈ slotsOf handler.definition, ∀ value error,
      validateResult slot.definition value = .error error → Q error)
    (hkey : ∀ handler ∈ handlers, ∀ data error,
      idempotencyKeyFor handler.definition data = .error error → P error)
    (hbody : ∀ handler ∈ handlers, ∀ data context raised,
      (handler.run data context).settles = some (.error raised) → P raised.error) :
    Throws P Q mailConfig handlers where
  acquire key error h := by cases h
  complete key token kept error h := by cases h
  release key token error h := by cases h
  read queue id error h := by cases h
  result := hresult
  key := hkey
  body := hbody

theorem answers_mailConfig : mailConfig.Answers where
  onAttemptFailed hook h := by
    obtain rfl := Option.some.inj h
    exact fun _ => Option.some_ne_none _
  onDead hook h := by
    obtain rfl := Option.some.inj h
    exact fun _ => Option.some_ne_none _
  bury _ _ := Option.some_ne_none _

/-! ### A handler that throws -/

/-- The envelope of a line. -/
def lineEnvelope : Envelope := writeEnvelope lineJob .null .direct

/-- A handler of lines that throws. -/
def throwingHandler (error : Thrown) : JobHandler :=
  ⟨lineJob, fun _ _ => ⟨some (.error ⟨error, false⟩), false, none⟩⟩

/-- What it throws is what its dispatch ends with. -/
theorem dispatch_throwing {config : JobsConfig} (hhooks : config.hooks = mailConfig.hooks)
    (error : Thrown) (queue : String) (delivery : JobDelivery) :
    dispatch config [throwingHandler error] lineEnvelope (eventOf queue lineEnvelope delivery)
      delivery = some ([.onStart (eventOf queue lineEnvelope delivery)], .error error) := by
  have hfind : handlerFor [throwingHandler error] lineEnvelope = .ok (throwingHandler error) := rfl
  have hknown : assertVersionIsKnown (throwingHandler error).definition lineEnvelope = .ok () :=
    if_pos ((Number.le_natCast 1 1).trans (by decide))
  have hmigrated : migrateEnvelope (throwingHandler error).definition lineEnvelope =
      some (.ok .null) := migrateEnvelope_current rfl rfl
  refine dispatch_thrown hfind hknown hmigrated rfl rfl rfl (fun _ => rfl) ?_
  rw [hhooks]
  rfl

/-- A driver that refuses nothing leaves only that error. -/
theorem throws_throwing {P Q : Thrown → Prop} {error : Thrown} (h : P error) :
    Throws P Q mailConfig [throwingHandler error] := by
  refine throws_mailConfig ?_ ?_ ?_
  · intro handler hmem slot hslot
    obtain rfl := List.mem_singleton.1 hmem
    cases hslot
  · intro handler hmem data refusal hkey
    obtain rfl := List.mem_singleton.1 hmem
    cases hkey
  · intro handler hmem data context raised hraised
    obtain rfl := List.mem_singleton.1 hmem
    obtain rfl := Except.error.inj (Option.some.inj hraised)
    exact h

/-- What a handler throws while its mail server is down. -/
def mailDown : Thrown := plainError "the mail server is down" none

theorem reportable_mailDown : Reportable mailDown := reportable_of_cls (cls_newError _ _ _ _ _) rfl

/-- The second of the two attempts of a line. -/
def secondAttempt : JobDelivery := ⟨"7", 2, 2, 2, lineEnvelope.toValue⟩

/-- Its handler throws, and the job is told failed once, buried once and told dead once, although
the hook and the dead store both throw. -/
theorem runOn_notices_example : ∃ l,
    runOn mailConfig [throwingHandler mailDown] "mail" secondAttempt = some (l, .error mailDown) ∧
      Noticed mailConfig lineEnvelope (eventOf "mail" lineEnvelope secondAttempt) secondAttempt
        (.error mailDown) l := by
  have hserializes : ∀ error, (Except.error mailDown : Except Thrown Value) = .error error →
      (serializeError error).isSome := by
    rintro error ⟨⟩
    rfl
  obtain ⟨hnotices, hsettles⟩ := runOn_notices (throws_throwing reportable_mailDown) rfl
    (dispatch_throwing rfl mailDown "mail" secondAttempt) hserializes
  obtain ⟨l, hrun⟩ := hsettles answers_mailConfig
  exact ⟨l, hrun, (hnotices l _ hrun).2⟩

end Jubs
