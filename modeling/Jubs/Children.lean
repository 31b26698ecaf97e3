/-
**What a job reads of the children it waits on.**

A job whose definition declares slots reads what its children settled into before its handler runs.
A read with a child in flight, with a child that failed for good, or with a slot that holds fewer
children than the envelope counts is refused; what is left goes through the result schema of the
definition each slot declares.

Main definitions:

* `Jubs.FlowState` — what the children of one job settled into;
* `Jubs.childrenPendingError`, `Jubs.childDeadError`, `Jubs.childrenShortError` — the refusals;
* `Jubs.childrenShort`, `Jubs.childrenOf`, `Jubs.childrenFor` — the three checks and the read.

Main results:

* `Jubs.childrenShort_eq_none_iff` — when the counts of an envelope let a read pass;
* `Jubs.childrenRead_eq_ok_iff` — **when a job gets past its children, and what it reads**.
-/

import Jubs.Effect
import Jubs.Envelope

set_option autoImplicit false

namespace Jubs

/-- One child that failed every attempt. -/
structure ChildFailure where
  id : String
  slot : String
  reason : String

/-- What the children of one job settled into. -/
structure FlowState where
  results : List ChildResult
  failures : List ChildFailure
  pending : ℕ

/-- `listed(names)`. -/
def listed (names : List String) : String :=
  String.intercalate ", " (names.map fun name => "\"" ++ name ++ "\"")

/-! ### The refusals -/

/-- The clause of a `ChildDeadError` on one failure.  `declared` maps each slot to the name of the
definition it runs. -/
def failureReason (declared : List (String × String)) (failure : ChildFailure) : String :=
  let named := match declared.lookup failure.slot with
    | some runs => if runs = "" then "\"" ++ failure.slot ++ "\""
        else "\"" ++ failure.slot ++ "\", which runs \"" ++ runs ++ "\""
    | none => "\"" ++ failure.slot ++ "\""
  named ++ " (" ++ failure.id ++ "): " ++ failure.reason

/-- The text of a `ChildDeadError`. -/
def childDeadMessage (definition : JobDefinition) (state : FlowState) : String :=
  let declared := (slotsOf definition).map fun slot => (slot.name, slot.definition.name)
  "jubs: the job \"" ++ definition.name ++ "\" waits on children, and one of them failed every " ++
    "attempt — " ++ String.intercalate "; " (state.failures.map (failureReason declared))

/-- `new ChildDeadError(definition, state)`. -/
def childDeadError (definition : JobDefinition) (state : FlowState) : Thrown :=
  let message := childDeadMessage definition state
  .inl {
    cls := .childDead
    name := .str "ChildDeadError"
    message := .str message
    stack := .str ("ChildDeadError: " ++ message)
    running := none
    results := state.results
    cause := none }

/-- `new ChildrenPendingError(definition, pending)`. -/
def childrenPendingError (definition : JobDefinition) (pending : ℕ) : Thrown :=
  newError .childrenPending "ChildrenPendingError"
    ("jubs: the job \"" ++ definition.name ++ "\" waits on children, and " ++ toString pending ++
      " of them " ++ (if pending = 1 then "has" else "have") ++ " not finished yet — this " ++
      "delivery ended before the handler ran, because a slot they fill would have read empty. " ++
      "The job waits on its children again, spending no attempt, and runs once they settle.") none
        none

/-- `new ChildrenShortError(message)`. -/
def childrenShortError (message : String) : Thrown :=
  newError .childrenShort "ChildrenShortError" message none none

/-- The text for slots the envelope counts nothing for. -/
def unrecordedMessage (definition : JobDefinition) (unrecorded : List String) : String :=
  "jubs: the job \"" ++ definition.name ++ "\" waits on the slots " ++ listed unrecorded ++
    ", and its envelope carries no record of how many children they were given — it was written " ++
    "by a build that did not record those counts, or it was enqueued with no children at all, " ++
    "and nothing left tells the two apart. Without the counts the runtime cannot know whether " ++
    "those slots are full or empty, and running the handler would risk reading an empty slot " ++
    "and completing green. Enqueue the flow again from the top with " ++
    "jobs.enqueue(definition, data, awaits), which builds the whole flow; one envelope on its " ++
    "own cannot be replayed into a flow."

/-- The text for slots that hold fewer children than the envelope counts. -/
def shortMessage (definition : JobDefinition) (short : List String) : String :=
  "jubs: the job \"" ++ definition.name ++ "\" waits on children, and a slot holds fewer than " ++
    "it was enqueued with — " ++ String.intercalate "; " short ++ ". Redis writes nothing when " ++
    "a child leaves its parent, so the missing ones were most likely cancelled with " ++
    "jobs.cancel(id) or removed with another job of this flow. The handler would read that slot " ++
    "short and complete green, so the job is buried instead: enqueue the flow again with " ++
    "jobs.enqueue(definition, data, awaits)."

/-! ### Counting -/

/-- `arrivedIn(state, slot)`. -/
def arrivedIn (state : FlowState) (slot : String) : ℕ :=
  (state.results.filter fun result => result.slot = slot).length

/-- `arrived < expected`, and the clause that says so.  Against a value that is no number, which
compares as `NaN`, nothing is short. -/
def shortClause (slot : String) (arrived : ℕ) : Value → Option String
  | .num expected =>
      if Number.lt (.finite arrived) expected then
        some ("\"" ++ slot ++ "\" was given " ++ Value.numberText expected ++ " and " ++
          toString arrived ++ " arrived")
      else none
  | _ => none

/-- `childrenShort(definition, declared, state)`: the message of the refusal, and nothing when the
read may pass. -/
def childrenShort (definition : JobDefinition) (declared : Option Slots) (state : FlowState) :
    Option String :=
  let expected := fun slot : Slot JobDefinition => Envelope.declared declared slot.name
  let unrecorded := (slotsOf definition).filter fun slot => (expected slot).isUndefined
  if unrecorded ≠ [] then some (unrecordedMessage definition (unrecorded.map Slot.name))
  else
    let short := (slotsOf definition).filterMap fun slot =>
      shortClause slot.name (arrivedIn state slot.name) (expected slot)
    if short = [] then none else some (shortMessage definition short)

/-! ### Reading -/

/-- The values of one slot, through the result schema of its definition.  Its schemas settle in the
order of the values. -/
def slotValues (slot : Slot JobDefinition) (results : List ChildResult) :
    Except Thrown (List Value) :=
  (results.filter fun result => result.slot = slot.name).mapM fun result =>
    validateResult slot.definition result.value

/-- What a slot of one child reads, and what a slot of many reads. -/
def slotValue (slot : Slot JobDefinition) (values : List Value) : Value :=
  if slot.many then .arr values else values.headD .undefined

/-- `childrenOf(definition, state)`. -/
def childrenOf (definition : JobDefinition) (state : FlowState) :
    Except Thrown (List (String × Value)) :=
  (slotsOf definition).mapM fun slot => do
    let values ← slotValues slot state.results
    return (slot.name, slotValue slot values)

/-- `childrenFor`, once the flow store has answered. -/
def childrenRead (definition : JobDefinition) (slots : Option Slots) (state : FlowState) :
    Except Thrown (List (String × Value)) :=
  if 0 < state.pending then .error (childrenPendingError definition state.pending)
  else if state.failures ≠ [] then .error (childDeadError definition state)
  else
    match childrenShort definition slots state with
    | some message => .error (childrenShortError message)
    | none => childrenOf definition state

/-- `childrenFor({ flow, definition, envelope, queue, id })`, where `read` is what the flow store
answers about this job. -/
def childrenFor {ω : Type} (read : Answer Thrown FlowState) (definition : JobDefinition)
    (envelope : Envelope) : Effect ω Thrown (List (String × Value)) :=
  if slotsOf definition = [] then pure []
  else do
    let state ← Effect.await read
    Effect.ofExcept (childrenRead definition envelope.slots state)

/-! ### When a read passes -/

theorem shortClause_eq_none_iff {slot : String} {arrived : ℕ} {expected : Value} :
    shortClause slot arrived expected = none ↔
      ∀ n, expected = .num n → Number.lt (.finite arrived) n = false := by
  unfold shortClause
  split
  · simp
  · rename_i h
    simp only [true_iff]
    intro n hn
    exact absurd hn (h n)

/-- When the counts of an envelope let a read pass: every slot reads some count, and no slot holds
fewer children than a count that is a number. -/
theorem childrenShort_eq_none_iff {definition : JobDefinition} {declared : Option Slots}
    {state : FlowState} :
    childrenShort definition declared state = none ↔
      ∀ slot ∈ slotsOf definition,
        (Envelope.declared declared slot.name).isUndefined = false ∧
        ∀ n, Envelope.declared declared slot.name = .num n →
          Number.lt (.finite (arrivedIn state slot.name)) n = false := by
  unfold childrenShort
  simp only [ne_eq, ite_not]
  split
  · rename_i hrec
    have hrec : ∀ slot ∈ slotsOf definition,
        (Envelope.declared declared slot.name).isUndefined = false := by
      simpa [List.filter_eq_nil_iff] using hrec
    split
    · rename_i hshort
      simp only [true_iff]
      intro slot hslot
      refine ⟨hrec slot hslot, ?_⟩
      exact shortClause_eq_none_iff.1 (List.filterMap_eq_nil_iff.1 hshort slot hslot)
    · rename_i hshort
      simp only [reduceCtorEq, false_iff]
      intro h
      refine hshort (List.filterMap_eq_nil_iff.2 ?_)
      intro slot hslot
      exact shortClause_eq_none_iff.2 (h slot hslot).2
  · rename_i hrec
    simp only [reduceCtorEq, false_iff]
    intro h
    refine hrec (List.filter_eq_nil_iff.2 ?_)
    intro slot hslot
    simp [(h slot hslot).1]

/-- The read of a job that waits on children passes exactly when no child is in flight, none failed
for good and no slot is short. -/
theorem childrenRead_eq_ok_iff {definition : JobDefinition} {slots : Option Slots}
    {state : FlowState} {children : List (String × Value)} :
    childrenRead definition slots state = .ok children ↔
      state.pending = 0 ∧ state.failures = [] ∧ childrenShort definition slots state = none ∧
        childrenOf definition state = .ok children := by
  unfold childrenRead
  split
  · rename_i h
    simp [Nat.pos_iff_ne_zero.1 h]
  · rename_i h
    have h : state.pending = 0 := by omega
    split
    · rename_i hf
      simp [hf]
    · rename_i hf
      have hf : state.failures = [] := by simpa using hf
      split
      · rename_i hs
        simp [hs]
      · rename_i hs
        simp [h, hf, hs]

end Jubs
