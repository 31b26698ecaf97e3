/-
**Thrown values, the error classes of the library, and their serialization.**

Handlers, hooks, schemas and stores throw anything.  The library classifies what was thrown by
`instanceof`, reads a few properties of it, wraps it, and serializes it for the hooks and the dead
queue.

Main definitions:

* `Jubs.ErrorClass`, `Jubs.ErrorObject`, `Jubs.Thrown` — the classes, and thrown values;
* `Jubs.stillRunning` — the promise of a body that outlived its delivery;
* `Jubs.leaseHeldError`, `Jubs.cancelledError`, `Jubs.shutdownAbortError`,
  `Jubs.handlerTimeoutError`, `Jubs.unrecoverable` — the errors the dispatch throws;
* `Jubs.serializeError` — the serialized form, which does not exist when a conversion to text
  throws.

Main results:

* `Jubs.isUnrecoverable_unrecoverable` — a wrapped error is unrecoverable unless its own text
  cannot be read.
-/

import Jubs.Value

set_option autoImplicit false

namespace Jubs

/-- A chain of fallible steps that succeeds has succeeded at each step. -/
theorem bind_eq_ok {ε α β : Type} {x : Except ε α} {f : α → Except ε β} {b : β} :
    (x >>= f) = .ok b ↔ ∃ a, x = .ok a ∧ f a = .ok b := by
  cases x with
  | error e => simp [bind, Except.bind]
  | ok a => simp [bind, Except.bind]

/-- A chain of two steps fails in one of them. -/
theorem bind_eq_error {ε α β : Type} {x : Except ε α} {f : α → Except ε β} {e : ε}
    (h : (x >>= f) = .error e) : x = .error e ∨ ∃ a, x = .ok a ∧ f a = .error e := by
  cases x with
  | error e' =>
      cases h
      exact Or.inl rfl
  | ok a => exact Or.inr ⟨a, rfl, h⟩

/-- An error that was mapped comes from an error. -/
theorem mapError_eq_error {ε ε' α : Type} {f : ε → ε'} {r : Except ε α} {e : ε'}
    (h : r.mapError f = .error e) : ∃ e₀, r = .error e₀ ∧ e = f e₀ := by
  cases r with
  | error e₀ => exact ⟨e₀, rfl, (Except.error.inj h).symm⟩
  | ok a => cases h

/-- A chain over a list fails with an error of one of its steps. -/
theorem mapM_eq_error {ε α β : Type} {f : α → Except ε β} {l : List α} {e : ε}
    (h : l.mapM f = .error e) : ∃ a ∈ l, f a = .error e := by
  induction l with
  | nil => cases h
  | cons a l ih =>
      rw [List.mapM_cons] at h
      cases ha : f a with
      | error e' =>
          rw [ha] at h
          cases h
          exact ⟨a, List.mem_cons_self, ha⟩
      | ok b =>
          rw [ha] at h
          cases hl : l.mapM f with
          | error e' =>
              change (l.mapM f >>= fun bs => pure (b :: bs)) = Except.error e at h
              rw [hl] at h
              cases h
              obtain ⟨a', hmem, ha'⟩ := ih hl
              exact ⟨a', List.mem_cons_of_mem a hmem, ha'⟩
          | ok bs =>
              change (l.mapM f >>= fun bs => pure (b :: bs)) = Except.error e at h
              rw [hl] at h
              cases h

/-- A chain over a list that succeeds gives what its steps give, one by one. -/
theorem forall₂_of_mapM_eq_ok {ε α β : Type} {f : α → Except ε β} {l : List α} {bs : List β}
    (h : l.mapM f = .ok bs) : List.Forall₂ (fun a b => f a = .ok b) l bs := by
  induction l generalizing bs with
  | nil =>
      obtain rfl := Except.ok.inj h
      exact .nil
  | cons a l ih =>
      rw [List.mapM_cons] at h
      obtain ⟨b, hb, h⟩ := bind_eq_ok.1 h
      obtain ⟨bs', hbs', h⟩ := bind_eq_ok.1 h
      obtain rfl := Except.ok.inj h
      exact .cons hb (ih hbs')

/-- So each of its steps succeeds. -/
theorem exists_of_mapM_eq_ok {ε α β : Type} {f : α → Except ε β} {l : List α} {bs : List β}
    (h : l.mapM f = .ok bs) {a : α} (ha : a ∈ l) : ∃ b, f a = .ok b := by
  have hall := forall₂_of_mapM_eq_ok h
  clear h
  induction hall with
  | nil => cases ha
  | cons hfirst _ ih =>
      rcases List.mem_cons.1 ha with rfl | ha
      · exact ⟨_, hfirst⟩
      · exact ih ha

/-- And each thing it gives comes from one of its steps. -/
theorem exists_of_mem_mapM {ε α β : Type} {f : α → Except ε β} {l : List α} {bs : List β}
    (h : l.mapM f = .ok bs) {b : β} (hb : b ∈ bs) : ∃ a ∈ l, f a = .ok b := by
  have hall := forall₂_of_mapM_eq_ok h
  clear h
  induction hall with
  | nil => cases hb
  | cons hfirst _ ih =>
      rcases List.mem_cons.1 hb with rfl | hb
      · exact ⟨_, List.mem_cons_self, hfirst⟩
      · obtain ⟨a, ha, heq⟩ := ih hb
        exact ⟨a, List.mem_cons_of_mem _ ha, heq⟩

/-- And a chain whose steps all succeed succeeds with what they give. -/
theorem mapM_eq_ok_of_forall₂ {ε α β : Type} {f : α → Except ε β} {l : List α} {bs : List β}
    (h : List.Forall₂ (fun a b => f a = .ok b) l bs) : l.mapM f = .ok bs := by
  induction h with
  | nil => rfl
  | cons hb hrest ih =>
      rw [List.mapM_cons, hb, ih]
      rfl

/-- A chain whose steps each give something gives something. -/
theorem exists_mapM_eq_ok {ε α β : Type} {f : α → Except ε β} {l : List α}
    (h : ∀ a ∈ l, ∃ b, f a = .ok b) : ∃ bs, l.mapM f = .ok bs := by
  induction l with
  | nil => exact ⟨[], rfl⟩
  | cons a l ih =>
      obtain ⟨⟨b, hb⟩, hrest⟩ := List.forall_mem_cons.1 h
      obtain ⟨bs, hbs⟩ := ih hrest
      refine ⟨b :: bs, ?_⟩
      rw [List.mapM_cons, hb, hbs]
      rfl

/-- The most specific class of an error, among those some `instanceof` of the library asks for.
`plain` is `Error` and every subclass the library does not know; `unrecoverable` is BullMQ's
`UnrecoverableError` and every subclass of it the library does not know. -/
inductive ErrorClass where
  | plain
  | unrecoverable
  | cancelled
  | versionAhead
  | leaseHeld
  | shutdownAbort
  | handlerTimeout
  | childrenPending
  | childDead
  | childrenShort
  | result
  | payload
deriving DecidableEq

/-- The classes that extend `UnrecoverableError`. -/
def ErrorClass.isUnrecoverable : ErrorClass → Bool
  | .unrecoverable | .cancelled | .versionAhead => true
  | _ => false

/-- The classes whose delivery leaves without being reported. -/
def ErrorClass.isPostponement : ErrorClass → Bool
  | .leaseHeld | .shutdownAbort | .childrenPending => true
  | _ => false

/-- The two classes the package does not export and never hands to code outside it. -/
def ErrorClass.isInternal : ErrorClass → Bool
  | .childDead | .childrenShort => true
  | _ => false

/-- What a `running` property holds when it holds a promise: the promise of this delivery's own
handler body, or some other promise. -/
inductive Running where
  | body
  | foreign
deriving DecidableEq

/-- What one child of a flow gave back, under the slot it filled. -/
structure ChildResult where
  slot : String
  value : Value

/-- An error object.  `stack` is `undefined` when the object has none, `cause` is `none` when it is
`undefined`, and `results` is the field of a `ChildDeadError`, empty for every other class. -/
structure ErrorObject where
  cls : ErrorClass
  name : Value
  message : Value
  stack : Value
  running : Option Running
  results : List ChildResult
  cause : Option (ErrorObject ⊕ Value)

/-- What a `throw` or a rejection carries: an error object, or any other value. -/
abbrev Thrown : Type := ErrorObject ⊕ Value

namespace Thrown

/-- The class of an error object, and `none` for a value that is no error. -/
def cls : Thrown → Option ErrorClass
  | .inl e => some e.cls
  | .inr _ => none

/-- `error instanceof UnrecoverableError`. -/
def isUnrecoverable (t : Thrown) : Bool := t.cls.any ErrorClass.isUnrecoverable

/-- Whether an error is a `LeaseHeldError`, a `ShutdownAbortError` or a `ChildrenPendingError`. -/
def isPostponement (t : Thrown) : Bool := t.cls.any ErrorClass.isPostponement

/-- Whether an error is of a class that code outside the package cannot construct. -/
def isInternal (t : Thrown) : Bool := t.cls.any ErrorClass.isInternal

/-- `error instanceof Error ? error.message : error`, ready for `String`. -/
def messageValue : Thrown → Value
  | .inl e => e.message
  | .inr v => v

/-- What a `cause` property that was given a value reads as: nothing when the value is
`undefined`. -/
def asCause : Thrown → Option Thrown
  | .inr .undefined => none
  | t => some t

/-- `error.cause = cause`. -/
def withCause : Thrown → Thrown → Thrown
  | .inl e, cause => .inl { e with cause := cause.asCause }
  | .inr v, _ => .inr v

@[simp] theorem cls_withCause (t cause : Thrown) : (t.withCause cause).cls = t.cls := by
  cases t <;> rfl

end Thrown

/-- An error the library or the language builds.  The frames of its stack are left out. -/
def newError (cls : ErrorClass) (name message : String) (running : Option Running)
    (cause : Option Thrown) : Thrown :=
  .inl {
    cls := cls
    name := .str name
    message := .str message
    stack := .str (name ++ ": " ++ message)
    running := running
    results := []
    cause := cause.bind Thrown.asCause }

@[simp] theorem cls_newError (cls : ErrorClass) (name message : String) (running : Option Running)
    (cause : Option Thrown) : Thrown.cls (newError cls name message running cause) = some cls := rfl

/-- The promise of a body that an error says is still running. -/
def stillRunning : Thrown → Option Running
  | .inl e => e.running
  | .inr _ => none

@[simp] theorem stillRunning_newError (cls : ErrorClass) (name message : String)
    (running : Option Running) (cause : Option Thrown) :
    stillRunning (newError cls name message running cause) = running := rfl

@[simp] theorem stillRunning_withCause (t cause : Thrown) :
    stillRunning (t.withCause cause) = stillRunning t := by
  cases t <;> rfl

/-! ### The errors of the dispatch -/

/-- What `String(value)` throws on a value it cannot convert. -/
def typeError : Thrown :=
  newError .plain "TypeError" "Cannot convert object to primitive value" none none

/-- Why a delivery met a held idempotency key. -/
def leaseHeldError (key : String) : Thrown :=
  newError .leaseHeld "LeaseHeldError"
    ("jubs: the idempotency key \"" ++ key ++
      "\" is held by a running delivery — this delivery is postponed and delivered again") none none

/-- The reason a cancelled handler's signal is aborted with, and the error its delivery fails
with. -/
def cancelledError (name : String) (running : Option Running) : Thrown :=
  newError .cancelled "CancelledError"
    ("jubs: the job \"" ++ name ++ "\" was cancelled while it ran — its signal was aborted and " ++
      "the attempt failed without a retry") running none

/-- The reason a handler's signal is aborted with when `close` runs out of patience. -/
def shutdownAbortError (name : String) (running : Option Running) : Thrown :=
  newError .shutdownAbort "ShutdownAbortError"
    ("jubs: the job \"" ++ name ++ "\" was still running when close() ran out of time — this " ++
      "delivery waits 1000ms, is delivered again and spends no attempt") running none

/-- The error of an attempt that ran past its `timeoutMs`, while the body keeps running. -/
def handlerTimeoutError (name : String) (timeoutMs : Number) : Thrown :=
  newError .handlerTimeout "HandlerTimeoutError"
    ("jubs: the job \"" ++ name ++ "\" ran past its `timeoutMs` of " ++
      Value.numberText timeoutMs ++ "ms — its signal was aborted and the attempt failed, while " ++
      "the handler body kept running") (some .body) none

/-- The message BullMQ gives an `UnrecoverableError` that is built from a text, or without one when
the message of the error it wraps is `undefined`. -/
def unrecoverableText (error : Thrown) (text : String) : String :=
  match error with
  | .inl e => if e.message.isUndefined then "bullmq:unrecoverable" else text
  | .inr _ => text

/-- `throw unrecoverable(error)`: the error that reaches the caller.  It is the wrapper, or the
`TypeError` of a conversion to text that failed while building it. -/
def unrecoverable (error : Thrown) : Thrown :=
  match error.messageValue.toText with
  | some text =>
      newError .unrecoverable "UnrecoverableError" (unrecoverableText error text) none (some error)
  | none => typeError

@[simp] theorem stillRunning_unrecoverable (error : Thrown) :
    stillRunning (unrecoverable error) = none := by
  unfold unrecoverable
  split <;> rfl

/-- A wrapper is never one of the errors that leave unreported, nor one of the internal classes. -/
theorem cls_unrecoverable (error : Thrown) :
    (unrecoverable error).cls = some .unrecoverable ∨ (unrecoverable error).cls = some .plain := by
  unfold unrecoverable
  split
  · exact Or.inl rfl
  · exact Or.inr rfl

/-! ### Serialization -/

/-- What is kept of one error. -/
structure ErrorSnapshot where
  name : Value
  message : Value
  stack : Option Value

/-- What the hooks and the dead queue keep of an error: the error, and its cause. -/
structure SerializedError extends ErrorSnapshot where
  cause : Option ErrorSnapshot

/-- The snapshot of a thrown value; `none` when `String` throws on it. -/
def snapshot : Thrown → Option ErrorSnapshot
  | .inl e => some ⟨e.name, e.message, if e.stack.isUndefined then none else some e.stack⟩
  | .inr v => v.toText.map fun text => ⟨.str "Error", .str text, none⟩

/-- `serializeError(error)`; `none` when it throws. -/
def serializeError (error : Thrown) : Option SerializedError := do
  let serialized ← snapshot error
  match error with
  | .inl { cause := some cause, .. } =>
      let cause ← snapshot cause
      return { serialized with cause := some cause }
  | _ => return { serialized with cause := none }

end Jubs
