/-
**What a delivery fails with once its signal was aborted.**

A handler's signal is aborted by its timeout, by a cancellation and by a shutdown, and the first of
them leaves its reason on the signal.  When the run of the handler rejects, the dispatch may
replace the error by the reason, or by a new error that carries the body the old one left running.

Main definitions:

* `Jubs.Raised` — an error of a handler's run, and whether it is the very reason of its signal;
* `Jubs.abort` — the reason a signal keeps;
* `Jubs.abortedWith` — the error a delivery fails with.

Main results:

* `Jubs.stillRunning_abortedWith` — **replacing an error never loses the body it left running**;
* `Jubs.cls_abortedWith` — the class of the error that replaces another.
-/

import Jubs.Definition

set_option autoImplicit false

namespace Jubs

/-- What the run of a handler rejects with.  `isReason` tells whether it is the very object
`signal.reason`, which only identity can say. -/
structure Raised where
  error : Thrown
  isReason : Bool

/-- The result of a body, validated against the schema of its definition. -/
def checkedResult (definition : JobDefinition) (value : Value) : Except Raised Value :=
  match validateResult definition value with
  | .ok value => .ok value
  | .error error => .error ⟨unrecoverable error, false⟩

/-- `controller.abort(reason)`: the first reason stays. -/
def abort (reason : Thrown) : Option Thrown → Option Thrown
  | none => some reason
  | some first => some first

/-- Replaces an error by `fresh`, which carries the body the error left running, or by the reason
of the signal when it left none. -/
def replaceBy (fresh : Option Running → Thrown) (reason : Thrown) (raised : Raised) : Thrown :=
  match stillRunning raised.error with
  | some running => (fresh (some running)).withCause raised.error
  | none => if raised.isReason then raised.error else reason.withCause raised.error

/-- The `catch` of a handler's run in `dispatch`, for the job `name`. -/
def abortedWith (name : String) (reason : Option Thrown) (raised : Raised) : Thrown :=
  match reason with
  | none => raised.error
  | some reason =>
      if reason.cls = some .cancelled then replaceBy (cancelledError name) reason raised
      else if reason.cls ≠ some .shutdownAbort ∨ raised.error.isUnrecoverable then raised.error
      else replaceBy (shutdownAbortError name) reason raised

theorem stillRunning_replaceBy {fresh : Option Running → Thrown} {reason : Thrown}
    {raised : Raised} {running : Running}
    (hfresh : stillRunning (fresh (some running)) = some running)
    (h : stillRunning raised.error = some running) :
    stillRunning (replaceBy fresh reason raised) = some running := by
  simp [replaceBy, h, hfresh]

/-- **Replacing an error never loses the body it left running.** -/
theorem stillRunning_abortedWith {name : String} {reason : Option Thrown} {raised : Raised}
    {running : Running} (h : stillRunning raised.error = some running) :
    stillRunning (abortedWith name reason raised) = some running := by
  unfold abortedWith
  split
  · exact h
  · split
    · exact stillRunning_replaceBy rfl h
    · split
      · exact h
      · exact stillRunning_replaceBy rfl h

theorem cls_replaceBy (fresh : Option Running → Thrown) (reason : Thrown) (raised : Raised)
    (hfresh : ∀ running, (fresh running).cls = reason.cls) :
    (replaceBy fresh reason raised).cls = reason.cls ∨
      replaceBy fresh reason raised = raised.error := by
  unfold replaceBy
  split
  · exact Or.inl (by rw [Thrown.cls_withCause, hfresh])
  · split
    · exact Or.inr rfl
    · exact Or.inl (Thrown.cls_withCause _ _)

/-- The error a delivery fails with is the one its run rejected with, or it has the class of the
reason, which is then a cancellation or a shutdown. -/
theorem cls_abortedWith (name : String) (reason : Option Thrown) (raised : Raised) :
    abortedWith name reason raised = raised.error ∨
      (abortedWith name reason raised).cls = some .cancelled ∨
      (abortedWith name reason raised).cls = some .shutdownAbort := by
  unfold abortedWith
  split
  · exact Or.inl rfl
  · rename_i reason
    split
    · rename_i hreason
      rcases cls_replaceBy (cancelledError name) reason raised fun _ => hreason.symm with h | h
      · exact Or.inr (Or.inl (h.trans hreason))
      · exact Or.inl h
    · split
      · exact Or.inl rfl
      · rename_i hreason
        have hreason : reason.cls = some .shutdownAbort := by
          by_contra hne
          exact hreason (Or.inl hne)
        rcases cls_replaceBy (shutdownAbortError name) reason raised fun _ =>
          hreason.symm with h | h
        · exact Or.inr (Or.inr (h.trans hreason))
        · exact Or.inl h

end Jubs
