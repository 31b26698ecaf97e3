/-
**The names of queues, each once.**

Many definitions share a queue, and a queue is opened, reconciled and shown once.  The names are
kept in the order they were first met, as a JavaScript `Set` keeps them.

Main definitions:

* `Jubs.onceEach` — the elements of a list, each once;
* `Jubs.queuesOf` — the queues a list of definitions uses.

Main results:

* `Jubs.nodup_onceEach`, `Jubs.mem_onceEach` — nothing is repeated, and nothing lost;
* `Jubs.deadQueueName_injective` — two queues of one dead queue are one queue.
-/

import Jubs.ClientIds

set_option autoImplicit false

namespace Jubs

/-- `[...new Set(names)]`. -/
def onceEach (names : List String) : List String := names.eraseDups

@[simp] theorem mem_onceEach {name : String} {names : List String} :
    name ∈ onceEach names ↔ name ∈ names := List.mem_eraseDups

theorem nodup_onceEach (names : List String) : (onceEach names).Nodup := by
  induction h : names.length using Nat.strong_induction_on generalizing names with
  | _ n ih =>
      cases names with
      | nil => exact List.nodup_nil
      | cons name names =>
          have hlength : (names.filter fun other => !other == name).length < n := by
            rw [← h, List.length_cons]
            exact Nat.lt_succ_of_le (List.length_filter_le _ _)
          rw [onceEach, List.eraseDups_cons, List.nodup_cons]
          refine ⟨?_, ih _ hlength _ rfl⟩
          rw [List.mem_eraseDups, List.mem_filter]
          rintro ⟨-, hne⟩
          simp at hne

theorem onceEach_eq_nil {names : List String} : onceEach names = [] ↔ names = [] := by
  cases names with
  | nil => exact iff_of_true rfl rfl
  | cons name names =>
      refine iff_of_false ?_ (List.cons_ne_nil _ _)
      rw [onceEach, List.eraseDups_cons]
      exact List.cons_ne_nil _ _

/-- The queues a list of definitions uses. -/
def queuesOf (definitions : List JobDefinition) : List String :=
  onceEach (definitions.map JobDefinition.queue)

theorem mem_queuesOf {queue : String} {definitions : List JobDefinition} :
    queue ∈ queuesOf definitions ↔ queue ∈ definitions.map JobDefinition.queue := mem_onceEach

/-- Two queues of one dead queue are one queue. -/
theorem deadQueueName_injective : Function.Injective deadQueueName := by
  intro queue queue' h
  have htext := congrArg String.toList h
  rw [toList_deadQueueName, toList_deadQueueName] at htext
  exact String.toList_inj.1 (List.append_cancel_right htext)

/-- The names of queues in a message. -/
def quoted (queues : List String) : String :=
  ", ".intercalate (queues.map fun queue => "\"" ++ queue ++ "\"")

end Jubs
