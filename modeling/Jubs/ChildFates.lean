/-
**What a parent is told of its children, whatever becomes of each.**

A child of a flow completes, fails for good, is removed or is still out.  Redis keeps the first two
in two hashes under the keys of the children, the last in a set, and nothing at all of a child that
was removed.  The parent reads the hashes back, in the order Redis lists them, and holds the
arrivals of every slot against the count its envelope was written with.  A slot named `__proto__`
has no count to be held against; a place of an array that was never set is counted, and no child
arrives for it; and an id whose queue is named like a dead queue reaches no live job.

Main definitions:

* `Jubs.ChildFate` — what becomes of one child;
* `Jubs.completedResults`, `Jubs.failuresOf`, `Jubs.lostSlots` — the results, the failures and the
  losses of a job, told from the fates of its children alone;
* `Jubs.shortSlots` — the slots that hold fewer children than the envelope counts;
* `Jubs.ChildrenLaw` — what a job owes to the fates of its children;
* `Jubs.Accountable` — the counts tell the losses, and the ids reach the failures.

Main results:

* `Jubs.Flow.failures_perm` — what the failures of a job are read as;
* `Jubs.childrenShort_eq` — which slots a read refuses;
* `Jubs.lostSlots_eq_of_shortMessage` — which slots a refusal names;
* `Jubs.childrenLaw_iff` — **when a job pays what it owes**;
* `Jubs.loss_untold` — a child that was removed, and a handler that is run without it.
-/

import Jubs.ClientIds
import Jubs.FlowInputs
import Jubs.FlowVersions
import Jubs.NumberTexts
import Jubs.Quoted

set_option autoImplicit false

namespace Jubs

/-! ### What becomes of a child -/

/-- What becomes of one child: it is still out, it returned a value JSON keeps, it failed for good,
or it was removed. -/
inductive ChildFate where
  | pending
  | completed (json : Json)
  | failed (reason : String)
  | removed

/-- Where Redis keeps a child. -/
def ChildFate.place : ChildFate → Ledger.Place String String
  | .pending => .pending
  | .completed json => .done json.stringify
  | .failed reason => .lost reason
  | .removed => .gone

/-- The value a child returned. -/
def ChildFate.json : ChildFate → Option Json
  | .completed json => some json
  | _ => none

/-- The reason a child failed for. -/
def ChildFate.reason : ChildFate → Option String
  | .failed reason => some reason
  | _ => none

/-- Whether a child is still out. -/
def ChildFate.isPending : ChildFate → Bool
  | .pending => true
  | _ => false

/-- Whether a child was removed. -/
def ChildFate.isRemoved : ChildFate → Bool
  | .removed => true
  | _ => false

/-- The id a child is stored under. -/
def Flow.storedId (flow : Flow) (p : Path) (job : FlowJob) (i : Fin job.size) : String :=
  composeChildId (job.slotOf i) (flow.uuid (i :: p))

/-- The queue a child runs on. -/
def FlowJob.queueOf (job : FlowJob) (i : Fin job.size) :
    String := (job.node.children.get i).node.queue

section

variable (flow : Flow) (p : Path) (job : FlowJob) (fate : Fin job.size → ChildFate) (awaits : Value)

/-- How many children are out. -/
def pendingCount : ℕ := (List.finRange job.size).countP fun i => (fate i).isPending

/-- What the children returned that completed, under the slots they fill. -/
def completedResults : List ChildResult :=
  (List.finRange job.size).filterMap fun i =>
    (fate i).json.map fun json => ⟨job.slotOf i, .ofJson json⟩

/-- The children that failed, under ids of their own. -/
def failuresOf : List ChildFailure :=
  (List.finRange job.size).filterMap fun i => (fate i).reason.map fun reason =>
    ⟨composeJobId (job.queueOf i) (flow.storedId p job i), job.slotOf i, reason⟩

/-- Whether a slot lost a child. -/
def lostIn (name : String) : Bool :=
  (List.finRange job.size).any fun i => job.slotOf i = name && (fate i).isRemoved

/-- The slots that lost a child. -/
def lostSlots : List (Slot JobDefinition) :=
  (slotsOf job.definition).filter fun slot => lostIn job fate slot.name

/-- How many children of a slot completed. -/
def completedIn (name : String) : ℕ :=
  (List.finRange job.size).countP fun i => job.slotOf i = name && (fate i).json.isSome

/-- Whether a slot was given a place that was never set. -/
def hasUnset (slot : Slot JobDefinition) : Bool :=
  (placesOf Value.get slot awaits).any Option.isNone

/-- The slots that hold fewer children than the envelope counts: those that lost one, and those that
were given a place that was never set.  A slot named `__proto__` is not counted. -/
def shortSlots : List (Slot JobDefinition) :=
  (slotsOf job.definition).filter fun slot =>
    slot.name ≠ "__proto__" && (lostIn job fate slot.name || hasUnset awaits slot)

/-- The clause of a `ChildrenShortError` on a slot. -/
def lossOf (slot : Slot JobDefinition) : String :=
  "\"" ++ slot.name ++ "\" was given " ++
    Value.numberText (.finite ((placesOf Value.get slot awaits).length : ℕ)) ++ " and " ++
    toString (completedIn job fate slot.name) ++ " arrived"

/-! ### What a job owes -/

/-- A slot that is filled: a slot of one by the one value its child returned, a slot of many by the
values its children returned, in some order, every one checked by the slot's own definition. -/
structure FilledBy (value : Fin job.size → Json) (slot : Slot JobDefinition)
    (read : String × Value) : Prop where
  name : read.1 = slot.name
  value : ∃ values checked : List Value,
    values.Perm (((List.finRange job.size).filter fun i => job.slotOf i = slot.name).map
      fun i => .ofJson (value i)) ∧
    values.mapM (validateResult slot.definition) = .ok checked ∧
    if slot.many then read.2 = .arr checked else checked = [read.2]

/-- The result schema of a definition answers about a value, whatever it answers. -/
def Answers (definition : JobDefinition) (value : Value) : Prop :=
  ∀ schema ∈ definition.result, ∃ answer, schema.validate value = .ok answer

/-- A value one of the children returned, which the definition of its slot refuses. -/
structure RefusedChild (value : Fin job.size → Json) (error : Thrown) : Prop where
  slot : ∃ slot ∈ slotsOf job.definition, ∃ i, job.slotOf i = slot.name ∧
    validateResult slot.definition (.ofJson (value i)) = .error error ∧
    (Answers slot.definition (.ofJson (value i)) →
      ∃ is, error = resultError slot.definition.name is)

/-- **What a job owes to the fates of its children.**  With a child still out it waits again;
otherwise it names exactly the children that failed, under ids the calls of the client resolve, and
carries exactly what the others returned; otherwise it names exactly the slots that lost a child;
and otherwise its handler is given every value, unless a result schema refuses one of them. -/
structure ChildrenLaw (outcome : Except Thrown (List (String × Value))) : Prop where
  pending : ∀ i, fate i = .pending →
    outcome = .error (childrenPendingError job.definition (pendingCount job fate))
  dead : (∀ i, fate i ≠ .pending) → ∀ i reason, fate i = .failed reason →
    ∃ results failures, results.Perm (completedResults job fate) ∧
      failures.Perm (failuresOf flow p job fate) ∧
      outcome = .error (childDeadError job.definition ⟨results, failures, 0⟩)
  addresses : (∀ i, fate i ≠ .pending) → ∀ i reason, fate i = .failed reason →
    readLiveJobId (composeJobId (job.queueOf i) (flow.storedId p job i)) =
      .ok (some (job.queueOf i, flow.storedId p job i))
  short : (∀ i, fate i ≠ .pending) → (∀ i reason, fate i ≠ .failed reason) →
    ∀ i, fate i = .removed → outcome = .error (childrenShortError
      (shortMessage job.definition ((lostSlots job fate).map (lossOf job fate awaits))))
  filled : ∀ value : Fin job.size → Json, (∀ i, fate i = .completed (value i)) →
    (¬ ∃ error, RefusedChild job value error) →
      ∃ children, outcome = .ok children ∧
        List.Forall₂ (FilledBy job value) (slotsOf job.definition) children
  refused : ∀ value : Fin job.size → Json, (∀ i, fate i = .completed (value i)) →
    (∃ error, RefusedChild job value error) →
      ∃ error, RefusedChild job value error ∧ outcome = .error error

/-- **The counts tell the losses, and the ids reach the failures**: a child is out; or a child
failed, and no queue that one failed on is named like a dead queue; or no child failed, none that
fills a slot named `__proto__` was removed, and every other slot that was given a place that was
never set lost a child. -/
def Accountable : Prop :=
  (∃ i, fate i = .pending) ∨
  ((∃ i reason, fate i = .failed reason) ∧
    ∀ i reason, fate i = .failed reason → liveQueueName (job.queueOf i) = none) ∨
  ((∀ i reason, fate i ≠ .failed reason) ∧
    (∀ i, job.slotOf i = "__proto__" → fate i ≠ .removed) ∧
    ∀ slot ∈ slotsOf job.definition, slot.name ≠ "__proto__" →
      none ∈ placesOf Value.get slot awaits → ∃ i, job.slotOf i = slot.name ∧ fate i = .removed)

/-- The result schemas of a job's slots throw no error of the classes this package keeps to
itself. -/
def OwnResultErrors : Prop :=
  ∀ slot ∈ slotsOf job.definition, ∀ schema ∈ slot.definition.result, ∀ value error,
    schema.validate value = .error error → error.isInternal = false

end

/-! ### Reading the fates back -/

/-- What one entry of the `:failed` hash of a job is read as, on a queue BullMQ accepts. -/
theorem Flow.readFailure_child {flow : Flow} {p : Path} {job : FlowJob}
    (hjob : flow.jobAt p = some job)
    {i : Fin job.size} (hqueue : ':' ∉ (job.queueOf i).toList) (reason : String) :
    readFailure (flow.key (i :: p), reason) =
      ⟨composeJobId (job.queueOf i) (flow.storedId p job i), job.slotOf i, reason⟩ := by
  obtain ⟨slot, hslot, hname, hchild⟩ := Flow.jobAt_child hjob i
  obtain ⟨haccepted, -, -⟩ := (Flow.jobAt_built hjob).defined
  obtain ⟨hcolon, hmarker⟩ := defineJob_slot_name haccepted slot hslot
  rw [← hname] at hcolon hmarker
  have hkey : flow.key (i :: p) = toKey (job.queueOf i) (flow.storedId p job i) := by
    rw [Flow.key, hchild]
    rfl
  have hread : readChildKey (flow.key (i :: p)) = (job.queueOf i, flow.storedId p job i) := by
    rw [hkey]
    exact readChildKey_toKey_queue hqueue (colon_not_mem_composeChildId _ hcolon)
  rw [readFailure, hread, Flow.storedId]
  simp only [readChildSlot_composeChildId _ hmarker]

section

variable {flow : Flow} {p : Path} {job : FlowJob} {fate : Fin job.size → ChildFate}
variable {data awaits : Value} {ledger : Ledger String String String}

theorem hasUnset_iff {slot : Slot JobDefinition} :
    hasUnset awaits slot = true ↔ none ∈ placesOf Value.get slot awaits := by
  simp [hasUnset]

theorem place_value (f : ChildFate) :
    f.place.value = f.json.map Json.stringify := by cases f <;> rfl

theorem place_reason (f : ChildFate) : f.place.reason = f.reason := by cases f <;> rfl

theorem place_isPending (f : ChildFate) : f.place.isPending = f.isPending := by cases f <;> rfl

/-- **The results of a job are read as what its children returned.** -/
theorem completed_perm (hjob : flow.jobAt p = some job)
    (h : ledger.Agrees (flow.keys p job) fun i => (fate i).place) {processed : HashEntries}
    (hprocessed : (hashOf ledger.processed).Perm processed) :
    (processed.map readResult).Perm (completedResults job fate) := by
  have hperm := Flow.results_perm hjob h hprocessed
  have hread : ∀ i : Fin job.size, ((fate i).place.value.map fun stored =>
      (⟨job.slotOf i, childValue stored⟩ : ChildResult)) =
        (fate i).json.map fun json => ⟨job.slotOf i, .ofJson json⟩ := by
    intro i
    rw [place_value, Option.map_map]
    cases (fate i).json with
    | none => rfl
    | some json => simp [childValue, Json.parse_stringify]
  simp only [hread] at hperm
  exact hperm

/-- **And its failures as the children that failed**, when the queues they ran on have names BullMQ
accepts. -/
theorem Flow.failures_perm (hjob : flow.jobAt p = some job)
    (hqueues : ∀ i reason, fate i = .failed reason → ':' ∉ (job.queueOf i).toList)
    (h : ledger.Agrees (flow.keys p job) fun i => (fate i).place) {failed : HashEntries}
    (hfailed : (hashOf ledger.failed).Perm failed) :
    (failed.map readFailure).Perm (failuresOf flow p job fate) := by
  have hperm := h.failed_perm (Flow.key_injective hjob)
  have hmap := (hfailed.symm.trans hperm).map readFailure
  rw [List.map_filterMap] at hmap
  have hread : ∀ i : Fin job.size, (((fate i).place.reason.map fun reason =>
      (flow.keys p job i, reason)).map readFailure) = (fate i).reason.map fun reason =>
        ⟨composeJobId (job.queueOf i) (flow.storedId p job i), job.slotOf i, reason⟩ := by
    intro i
    rw [place_reason]
    cases hi : fate i with
    | failed reason =>
        exact congrArg some (Flow.readFailure_child hjob (hqueues i reason hi) reason)
    | _ => rfl
  simp only [hread] at hmap
  exact hmap

/-- The children that are out are counted. -/
theorem pendingCount_eq (hjob : flow.jobAt p = some job)
    (h : ledger.Agrees (flow.keys p job) fun i => (fate i).place) :
    ledger.pending.card = pendingCount job fate := by
  rw [h.card_pending (Flow.key_injective hjob), pendingCount]
  simp only [place_isPending]

/-- No child of a slot is out or failed: the completed ones and the removed ones are all of them. -/
theorem childCount_eq_add (hpending : ∀ i, fate i ≠ .pending)
    (hfailed : ∀ i reason, fate i ≠ .failed reason) (name : String) :
    childCount job.node.children name = completedIn job fate name +
      (List.finRange job.size).countP fun i => job.slotOf i = name && (fate i).isRemoved := by
  rw [childCount_eq_countP, completedIn, List.countP_eq_countP_filter_add _ _ fun i =>
    (fate i).json.isSome, List.countP_filter, List.countP_filter]
  refine congrArg₂ _ rfl (List.countP_congr ?_)
  intro i _
  cases hi : fate i with
  | pending => exact absurd hi (hpending i)
  | failed reason => exact absurd hi (hfailed i reason)
  | _ => simp [ChildFate.json, ChildFate.isRemoved]

/-- **Fewer arrived than the envelope counts** exactly when the slot lost a child or was given a
place that was never set. -/
theorem completedIn_lt_iff (hpending : ∀ i, fate i ≠ .pending)
    (hfailed : ∀ i reason, fate i ≠ .failed reason) {slot : Slot JobDefinition}
    (hcount : childCount job.node.children slot.name = (givenTo Value.get slot awaits).length) :
    completedIn job fate slot.name < (placesOf Value.get slot awaits).length ↔
      (lostIn job fate slot.name || hasUnset awaits slot) = true := by
  have hsplit := childCount_eq_add hpending hfailed slot.name
  have hlost : lostIn job fate slot.name = true ↔ 0 < (List.finRange job.size).countP fun i =>
      job.slotOf i = slot.name && (fate i).isRemoved := by
    rw [lostIn, List.any_eq_true, List.countP_pos_iff]
  have hunset : hasUnset awaits slot = true ↔
      (givenTo Value.get slot awaits).length < (placesOf Value.get slot awaits).length := by
    rw [hasUnset_iff, givenTo, List.reduceOption_length_lt_iff]
  have hle := List.reduceOption_length_le (placesOf Value.get slot awaits)
  rw [Bool.or_eq_true, hlost, hunset]
  rw [← givenTo] at hle
  omega

/-- The results of a slot are the children of it that completed. -/
theorem arrivedIn_completed {state : FlowState} (h : state.results.Perm (completedResults job fate))
    (name : String) : arrivedIn state name = completedIn job fate name := by
  rw [arrivedIn, ← List.countP_eq_length_filter, h.countP_eq, completedResults,
    List.countP_filterMap, completedIn]
  refine List.countP_congr ?_
  intro i _
  cases (fate i).json <;> simp

theorem filterMap_ite {α β : Type} {q : α → Bool} {f : α → β} (l : List α) :
    (l.filterMap fun a => if q a then some (f a) else none) = (l.filter q).map f := by
  induction l with
  | nil => rfl
  | cons a l ih => cases h : q a <;> simp [h, ih]

/-- What a worker reads as the count of a slot: the places the slot was given, unless it is named
`__proto__`. -/
theorem declared_of_composed (hdefined : WellDefined job.definition)
    (hcomposed : composeFlow job.definition data awaits = .ok job.node) {envelope : Envelope}
    (henvelope : envelope.slots = job.node.envelope.slots.map assigned) {slot : Slot JobDefinition}
    (hslot : slot ∈ slotsOf job.definition) : Envelope.declared envelope.slots slot.name =
      if slot.name = "__proto__" then .obj []
      else .num (.finite ((placesOf Value.get slot awaits).length : ℕ)) := by
  rw [henvelope, (counts_of_composeFlow hdefined hcomposed).1, if_neg (List.ne_nil_of_mem hslot)]
  obtain ⟨-, hdistinct, -⟩ := hdefined
  split_ifs with hproto
  · rw [hproto]
    exact declared_proto _
  · have hnames : ((countsOf job.definition fun slot =>
        (placesOf Value.get slot awaits).length).map Prod.fst).Nodup := by
      simpa [countsOf, Function.comp_def] using hdistinct
    exact declared_of_ne hproto (lookup_of_mem hnames (List.mem_map.2 ⟨slot, hslot, rfl⟩))

/-- **Which slots a read refuses**: those that hold fewer children than the envelope counts. -/
theorem childrenShort_eq (hdefined : WellDefined job.definition)
    (hcomposed : composeFlow job.definition data awaits = .ok job.node)
    (hpending : ∀ i, fate i ≠ .pending) (hfailed : ∀ i reason, fate i ≠ .failed reason)
    {state : FlowState} (hresults : state.results.Perm (completedResults job fate))
    {envelope : Envelope} (henvelope : envelope.slots = job.node.envelope.slots.map assigned) :
    childrenShort job.definition envelope.slots state =
      if (shortSlots job fate awaits).map (lossOf job fate awaits) = [] then none
      else some (shortMessage job.definition
        ((shortSlots job fate awaits).map (lossOf job fate awaits))) := by
  have hdeclared := fun slot hslot =>
    @declared_of_composed job data awaits hdefined hcomposed _ henvelope slot hslot
  have hunrecorded : ((slotsOf job.definition).filter fun slot =>
      (Envelope.declared envelope.slots slot.name).isUndefined) = [] := by
    refine List.filter_eq_nil_iff.2 ?_
    intro slot hslot
    rw [hdeclared slot hslot]
    split_ifs <;> simp [Value.isUndefined]
  have hclause : ∀ slot ∈ slotsOf job.definition,
      shortClause slot.name (arrivedIn state slot.name)
        (Envelope.declared envelope.slots slot.name) =
        if slot.name ≠ "__proto__" && (lostIn job fate slot.name || hasUnset awaits slot) then
          some (lossOf job fate awaits slot) else none := by
    intro slot hslot
    rw [hdeclared slot hslot, arrivedIn_completed hresults]
    by_cases hproto : slot.name = "__proto__"
    · simp [hproto, shortClause]
    · have hshort := completedIn_lt_iff hpending hfailed
        ((counts_of_composeFlow hdefined hcomposed).2 slot hslot)
      simp [hproto, shortClause, Number.lt_natCast, hshort, lossOf]
  have hshort : ((slotsOf job.definition).filterMap fun slot =>
      shortClause slot.name (arrivedIn state slot.name)
        (Envelope.declared envelope.slots slot.name)) =
      (shortSlots job fate awaits).map (lossOf job fate awaits) := by
    rw [List.filterMap_congr hclause, filterMap_ite, shortSlots]
  unfold childrenShort
  simp only [hunrecorded, ne_eq, not_true_eq_false, if_false, hshort]

/-- The values of a slot, once every child completed. -/
theorem filledBy_of_slotValues (hbuilt : job.Built) {value : Fin job.size → Json}
    (hfate : ∀ i, fate i = .completed (value i)) {state : FlowState}
    (hresults : state.results.Perm (completedResults job fate)) {slot : Slot JobDefinition}
    (hslot : slot ∈ slotsOf job.definition) {checked : List Value}
    (hchecked : slotValues slot state.results = .ok checked) :
    FilledBy job value slot (slot.name, slotValue slot checked) := by
  obtain ⟨-, -, -, hcounted, -⟩ := composeFlow_eq hbuilt.defined hbuilt.composed
  have hall : completedResults job fate = (List.finRange job.size).map fun i =>
      ⟨job.slotOf i, .ofJson (value i)⟩ := by
    simp [completedResults, hfate, ChildFate.json]
  have hvalues : (state.results.filter fun result => result.slot = slot.name).Perm
      (((List.finRange job.size).filter fun i => job.slotOf i = slot.name).map
        fun i => ⟨job.slotOf i, .ofJson (value i)⟩) := by
    refine (hresults.filter _).trans ?_
    rw [hall, List.filter_map]
    exact .refl _
  refine ⟨rfl, (state.results.filter fun result => result.slot = slot.name).map ChildResult.value,
    checked, ?_, ?_, ?_⟩
  · simpa [Function.comp_def] using hvalues.map ChildResult.value
  · rw [List.mapM_map]
    exact hchecked
  · unfold slotValue
    split_ifs with hmany
    · rfl
    · have hlength := (forall₂_of_mapM_eq_ok hchecked).length_eq
      rw [hvalues.length_eq, List.length_map, ← List.countP_eq_length_filter,
        ← childCount_eq_countP, hcounted.one slot hslot (by simpa using hmany)] at hlength
      obtain ⟨v, rfl⟩ := List.length_eq_one_iff.1 hlength.symm
      rfl

/-- What a read fails with, once every child completed, is what one of their values was refused
with. -/
theorem refusedChild_of_childrenOf {value : Fin job.size → Json}
    (hfate : ∀ i, fate i = .completed (value i)) {state : FlowState}
    (hresults : state.results.Perm (completedResults job fate)) {error : Thrown}
    (h : childrenOf job.definition state = .error error) : RefusedChild job value error := by
  obtain ⟨slot, hslot, h⟩ := mapM_eq_error h
  rcases bind_eq_error h with h | ⟨checked, -, h⟩
  swap
  · cases h
  obtain ⟨result, hresult, herror⟩ := mapM_eq_error h
  obtain ⟨hresult, hname⟩ := List.mem_filter.1 hresult
  obtain ⟨i, -, hi⟩ := List.mem_filterMap.1 (hresults.mem_iff.1 hresult)
  rw [hfate i] at hi
  obtain rfl : (⟨job.slotOf i, .ofJson (value i)⟩ : ChildResult) = result := Option.some.inj hi
  refine ⟨slot, hslot, i, by simpa using hname, herror, ?_⟩
  intro hanswers
  unfold validateResult at herror
  cases hschema : slot.definition.result with
  | none => simp [hschema] at herror
  | some schema =>
      obtain ⟨answer, hanswer⟩ := hanswers schema hschema
      simp only [hschema, hanswer] at herror
      cases answer with
      | issues is =>
          cases herror
          exact ⟨is, rfl⟩
      | value v => cases herror

/-- A read of a job that lost no child fails exactly when some value is refused. -/
theorem not_refused_of_childrenOf {value : Fin job.size → Json}
    (hfate : ∀ i, fate i = .completed (value i)) {state : FlowState}
    (hresults : state.results.Perm (completedResults job fate)) {children : List (String × Value)}
    (h : childrenOf job.definition state = .ok children) (error : Thrown) :
    ¬ RefusedChild job value error := by
  rintro ⟨slot, hslot, i, hname, herror, -⟩
  obtain ⟨read, -, checked, hchecked, -⟩ :=
    exists_of_forall₂ (childrenOf_eq_ok_iff.1 h).flip (by exact hslot)
  have hmem : (⟨job.slotOf i, .ofJson (value i)⟩ : ChildResult) ∈ state.results := by
    refine hresults.mem_iff.2 (List.mem_filterMap.2 ⟨i, List.mem_finRange i, ?_⟩)
    rw [hfate i]
    rfl
  obtain ⟨v, -, hv⟩ := exists_of_forall₂ (forall₂_of_mapM_eq_ok hchecked).flip
    (List.mem_filter.2 ⟨hmem, by simpa using hname⟩)
  rw [herror] at hv
  cases hv

end

/-! ### Messages that differ -/

theorem shortMessage_inj {definition : JobDefinition} {l l' : List String}
    (h : shortMessage definition l = shortMessage definition l') :
    String.intercalate "; " l = String.intercalate "; " l' := by
  unfold shortMessage at h
  simp only [String.append_left_inj, String.append_right_inj] at h
  exact h

section

variable {job : FlowJob} {fate : Fin job.size → ChildFate} {awaits : Value}

/-- What stands behind the name of a slot in its clause, and the separator behind that. -/
def lossTail (job : FlowJob) (fate : Fin job.size → ChildFate) (awaits : Value)
    (slot : Slot JobDefinition) : String :=
  " was given " ++ Value.numberText (.finite ((placesOf Value.get slot awaits).length : ℕ)) ++
    " and " ++ toString (completedIn job fate slot.name) ++ " arrived; "

theorem lossOf_append (slot : Slot JobDefinition) : lossOf job fate awaits slot ++ "; " =
    "\"" ++ slot.name ++ "\"" ++ lossTail job fate awaits slot := by
  rw [← String.toList_inj]
  simp [lossOf, lossTail]

theorem quote_not_mem_lossTail (slot : Slot JobDefinition) :
    '"' ∉ (lossTail job fate awaits slot).toList := by
  have hgiven : '"' ∉ (Value.numberText
      (.finite ((placesOf Value.get slot awaits).length : ℕ))).toList := by
    intro h
    rcases Number.plain_numberText _ _ h with hdigit | hmark
    · cases hdigit
    · exact absurd hmark (by decide)
  have harrived : '"' ∉ Nat.toDigits 10 (completedIn job fate slot.name) := by
    intro h
    cases Nat.isDigit_of_mem_toDigits (b := 10) (by decide) (by decide) h
  simp [lossTail, hgiven, harrived]

theorem lossTail_ne_proto (slot : Slot JobDefinition) :
    lossTail job fate awaits slot ≠ "__proto__" := by
  intro h
  have hhead := congrArg (fun s => s.toList.head?) h
  simp [lossTail] at hhead

/-- **The refusal names the slots that lost a child only when it names no others.** -/
theorem lostSlots_eq_of_shortMessage (hdefined : WellDefined job.definition)
    (hlost : lostSlots job fate ≠ []) (hshort : shortSlots job fate awaits ≠ [])
    (h : shortMessage job.definition ((shortSlots job fate awaits).map (lossOf job fate awaits)) =
      shortMessage job.definition ((lostSlots job fate).map (lossOf job fate awaits))) :
    lostSlots job fate = shortSlots job fate awaits := by
  obtain ⟨-, hdistinct, -⟩ := hdefined
  have hjoin : ∀ l : List (Slot JobDefinition), l ≠ [] →
      Cut.segments '"' (String.intercalate "; " (l.map (lossOf job fate awaits)) ++ "; ") =
        "" :: l.flatMap (Cut.quotedParts Slot.name (lossTail job fate awaits)) := by
    intro l hl
    rw [Cut.intercalate_append_self (by simpa using hl), List.map_map, ← String.empty_append
      (s := String.join _), ← Cut.segments_quoted quote_not_mem_lossTail l (by decide)]
    simp only [Function.comp_def, lossOf_append]
  have hparts := hjoin _ hshort
  rw [shortMessage_inj h, hjoin _ hlost] at hparts
  refine Cut.filter_eq_of_quotedParts hdistinct (by decide) lossTail_ne_proto ?_ ?_
    (List.Perm.of_eq (List.cons.inj hparts).2)
  · intro slot _ hcounted
    exact of_decide_eq_true (Bool.and_eq_true_iff.1 hcounted).1
  · intro slot _ hlost hnot
    by_contra hne
    simp [hne, hlost] at hnot

end

/-! ### When a job pays what it owes -/

section

variable {flow : Flow} {p : Path} {job : FlowJob} {fate : Fin job.size → ChildFate}
variable {data awaits : Value} {envelope : Envelope} {state : FlowState}

/-- What a job with slots decides is what it reads. -/
theorem childrenFor_of_slots (hslots : slotsOf job.definition ≠ []) :
    (childrenFor (some (.ok state)) job.definition envelope :
      Effect Empty Thrown (List (String × Value))) =
      some ([], childrenRead job.definition envelope.slots state) := by
  rw [childrenFor, if_neg hslots]
  rfl

/-- A job without slots has no children, and owes nothing. -/
theorem childrenLaw_of_no_slots (hbuilt : job.Built) (hslots : slotsOf job.definition = []) :
    ChildrenLaw flow p job fate awaits (.ok []) := by
  obtain ⟨-, -, -, hcounted, -⟩ := composeFlow_eq hbuilt.defined hbuilt.composed
  have hnone : ∀ i : Fin job.size, False := fun i =>
    absurd i.2 (by simp [FlowJob.size, hcounted.leaf hslots])
  refine ⟨fun i => (hnone i).elim, fun _ i => (hnone i).elim, fun _ i => (hnone i).elim,
    fun _ _ i => (hnone i).elim, ?_, ?_⟩
  · intro value _ _
    exact ⟨[], rfl, hslots ▸ .nil⟩
  · rintro value - ⟨error, ⟨slot, hslot, -⟩⟩
    rw [hslots] at hslot
    cases hslot

/-- A slot whose child was removed is among the slots that lost one. -/
theorem mem_lostSlots (hbuilt : job.Built) {i : Fin job.size} (hi : fate i = .removed) :
    ∃ slot ∈ lostSlots job fate, job.slotOf i = slot.name := by
  obtain ⟨-, -, -, -, hchildren⟩ := composeFlow_eq hbuilt.defined hbuilt.composed
  obtain ⟨slot, hslot, hname, -⟩ := hchildren _ (List.get_mem job.node.children i)
  refine ⟨slot, List.mem_filter.2 ⟨hslot, List.any_eq_true.2 ⟨i, List.mem_finRange i, ?_⟩⟩, hname⟩
  have hname : job.slotOf i = slot.name := hname
  simp [hname, hi, ChildFate.isRemoved]

/-- A slot that lost a child has a child that was removed. -/
theorem removed_of_lostSlots {slot : Slot JobDefinition} (h : slot ∈ lostSlots job fate) :
    ∃ i, job.slotOf i = slot.name ∧ fate i = .removed := by
  obtain ⟨-, hlost⟩ := List.mem_filter.1 h
  obtain ⟨i, -, hi⟩ := List.any_eq_true.1 hlost
  obtain ⟨hname, hremoved⟩ : job.slotOf i = slot.name ∧
      (fate i).isRemoved = true := by simpa using hi
  refine ⟨i, hname, ?_⟩
  cases hf : fate i <;> simp_all [ChildFate.isRemoved]

/-- Where no child was removed, no slot lost one. -/
theorem lostSlots_eq_nil (h : ∀ i, fate i ≠ .removed) : lostSlots job fate = [] := by
  refine List.eq_nil_iff_forall_not_mem.2 ?_
  intro slot hslot
  obtain ⟨i, -, hi⟩ := removed_of_lostSlots hslot
  exact h i hi

theorem settled_pending (hnone : ∀ i, fate i ≠ .pending)
    (hpending : state.pending = pendingCount job fate) :
    state.pending = 0 := by
  rw [hpending]
  refine List.countP_eq_zero.2 ?_
  intro i _ hi
  exact hnone i (by cases hf : fate i <;> simp_all [ChildFate.isPending])

theorem intact_failures (hlive : ∀ i reason, fate i ≠ .failed reason)
    (hfailures : state.failures.Perm (failuresOf flow p job fate)) : state.failures = [] := by
  refine List.perm_nil.1 (hfailures.trans (List.Perm.of_eq ?_))
  refine List.filterMap_eq_nil_iff.2 ?_
  intro i _
  cases hi : fate i with
  | failed reason => exact absurd hi (hlive i reason)
  | _ => rfl

/-- A child that failed is told of. -/
theorem mem_failuresOf {i : Fin job.size} {reason : String} (hi : fate i = .failed reason) :
    ⟨composeJobId (job.queueOf i) (flow.storedId p job i), job.slotOf i, reason⟩ ∈
      failuresOf flow p job fate := by
  refine List.mem_filterMap.2 ⟨i, List.mem_finRange i, ?_⟩
  rw [hi]
  rfl

/-- What a job decides once every child settled and none failed. -/
theorem childrenRead_settled (hdefined : WellDefined job.definition)
    (hcomposed : composeFlow job.definition data awaits = .ok job.node)
    (hnone : ∀ i, fate i ≠ .pending) (hlive : ∀ i reason, fate i ≠ .failed reason)
    (hpending : state.pending = 0) (hfailures : state.failures = [])
    (hresults : state.results.Perm (completedResults job fate))
    (henvelope : envelope.slots = job.node.envelope.slots.map assigned) :
    childrenRead job.definition envelope.slots state =
      if shortSlots job fate awaits = [] then childrenOf job.definition state
      else .error (childrenShortError (shortMessage job.definition
        ((shortSlots job fate awaits).map (lossOf job fate awaits)))) := by
  rw [childrenRead, if_neg (by omega), if_neg (by simp [hfailures]),
    childrenShort_eq hdefined hcomposed hnone hlive hresults henvelope]
  simp only [List.map_eq_nil_iff]
  split_ifs <;> rfl

/-- **When the slots that are counted short are the ones that lost a child.** -/
theorem lostSlots_eq_iff (hbuilt : job.Built) : lostSlots job fate = shortSlots job fate awaits ↔
    (∀ i, job.slotOf i = "__proto__" → fate i ≠ .removed) ∧
      ∀ slot ∈ slotsOf job.definition, slot.name ≠ "__proto__" →
        none ∈ placesOf Value.get slot awaits → ∃ i, job.slotOf i = slot.name ∧
          fate i = .removed := by
  constructor
  · intro h
    refine ⟨?_, ?_⟩
    · intro i hproto hi
      obtain ⟨slot, hslot, hname⟩ := mem_lostSlots hbuilt hi
      rw [h] at hslot
      have hcounted := (List.mem_filter.1 hslot).2
      simp [← hname, hproto] at hcounted
    · intro slot hslot hne hunset
      have hshort : slot ∈ shortSlots job fate awaits :=
        List.mem_filter.2 ⟨hslot, by simp [hne, hasUnset_iff.2 hunset]⟩
      exact removed_of_lostSlots (h ▸ hshort)
  · rintro ⟨hspared, htold⟩
    refine List.filter_congr ?_
    intro slot hslot
    by_cases hlost : slot ∈ lostSlots job fate
    · obtain ⟨i, hname, hi⟩ := removed_of_lostSlots hlost
      have hne : slot.name ≠ "__proto__" := fun hproto => hspared i (hname.trans hproto) hi
      simp [(List.mem_filter.1 hlost).2, hne]
    · have hkept : lostIn job fate slot.name = false := by
        simpa [lostSlots, hslot] using hlost
      by_cases hne : slot.name = "__proto__"
      · rw [hkept, hne]
        rfl
      · have hset : hasUnset awaits slot = false := by
          rw [Bool.eq_false_iff]
          intro hunset
          obtain ⟨i, hname, hi⟩ := htold slot hslot hne (hasUnset_iff.1 hunset)
          obtain ⟨slot', hslot', hname'⟩ := mem_lostSlots hbuilt hi
          have hlost' := (List.mem_filter.1 hslot').2
          rw [← hname', hname, hkept] at hlost'
          cases hlost'
        simp [hkept, hset]

/-- **A job whose losses are all counted, and whose failures are all reached, pays what it
owes.** -/
theorem childrenLaw_of_accountable (hbuilt : job.Built)
    (hcomposed : composeFlow job.definition data awaits = .ok job.node)
    (haddresses : ∀ i reason, fate i = .failed reason → liveQueueName (job.queueOf i) = none →
      readLiveJobId (composeJobId (job.queueOf i) (flow.storedId p job i)) =
        .ok (some (job.queueOf i, flow.storedId p job i)))
    (henvelope : envelope.slots = job.node.envelope.slots.map assigned)
    (hresults : state.results.Perm (completedResults job fate))
    (hfailures : state.failures.Perm (failuresOf flow p job fate))
    (hpending : state.pending = pendingCount job fate) (h : Accountable job fate awaits) :
    ChildrenLaw flow p job fate awaits (childrenRead job.definition envelope.slots state) := by
  have hout : ∀ i, fate i = .pending → 0 < state.pending := by
    intro i hi
    rw [hpending]
    exact List.countP_pos_iff.2 ⟨i, List.mem_finRange i, by rw [hi]; rfl⟩
  have hsettled := fun hnone => settled_pending hnone hpending
  have hintact := fun hlive => intact_failures hlive hfailures
  have hcounted : (∀ i, fate i ≠ .pending) → (∀ i reason, fate i ≠ .failed reason) →
      lostSlots job fate = shortSlots job fate awaits := by
    intro hnone hlive
    rcases h with ⟨i, hi⟩ | ⟨⟨i, reason, hi⟩, -⟩ | ⟨-, htold⟩
    · exact absurd hi (hnone i)
    · exact absurd hi (hlive i reason)
    · exact (lostSlots_eq_iff hbuilt).2 htold
  -- with every child completed no slot lost one, and only the schemas are left to answer
  have hread : ∀ value : Fin job.size → Json, (∀ i, fate i = .completed (value i)) →
      childrenRead job.definition envelope.slots state = childrenOf job.definition state := by
    intro value hfate
    have hnone : ∀ i, fate i ≠ .pending := fun i hi => by simp [hfate i] at hi
    have hlive : ∀ i reason, fate i ≠ .failed reason := fun i reason hi => by simp [hfate i] at hi
    rw [childrenRead_settled hbuilt.defined hcomposed hnone hlive (hsettled hnone) (hintact hlive)
      hresults henvelope, if_pos]
    rw [← hcounted hnone hlive]
    exact lostSlots_eq_nil fun i hi => by simp [hfate i] at hi
  refine ⟨?_, ?_, ?_, ?_, ?_, ?_⟩
  · intro i hi
    rw [childrenRead, if_pos (hout i hi), hpending]
  · intro hnone i reason hi
    have hfailed : state.failures ≠ [] :=
      List.ne_nil_of_mem (hfailures.mem_iff.2 (mem_failuresOf hi))
    refine ⟨state.results, state.failures, hresults, hfailures, ?_⟩
    obtain ⟨results, failures, pending⟩ := state
    obtain rfl : pending = 0 := hsettled hnone
    rw [childrenRead, if_neg (Nat.lt_irrefl 0), if_pos hfailed]
  · intro hnone i reason hi
    rcases h with ⟨j, hj⟩ | ⟨-, hlive⟩ | ⟨hlive, -⟩
    · exact absurd hj (hnone j)
    · exact haddresses i reason hi (hlive i reason hi)
    · exact absurd hi (hlive i reason)
  · intro hnone hlive i hi
    obtain ⟨slot, hslot, -⟩ := mem_lostSlots hbuilt hi
    rw [childrenRead_settled hbuilt.defined hcomposed hnone hlive (hsettled hnone) (hintact hlive)
      hresults henvelope, ← hcounted hnone hlive, if_neg (List.ne_nil_of_mem hslot)]
  · intro value hfate haccepted
    rw [hread value hfate]
    cases hchildren : childrenOf job.definition state with
    | error error =>
        exact absurd ⟨error, refusedChild_of_childrenOf hfate hresults hchildren⟩ haccepted
    | ok children =>
        refine ⟨children, rfl, ?_⟩
        have hslotwise := (List.forall₂_and_left (p := fun slot => slot ∈ slotsOf job.definition) _
          _).2
          ⟨fun _ hslot => hslot, childrenOf_eq_ok_iff.1 hchildren⟩
        refine hslotwise.imp ?_
        rintro slot read ⟨hslot, checked, hchecked, rfl⟩
        exact filledBy_of_slotValues hbuilt hfate hresults hslot hchecked
  · rintro value hfate ⟨error, hrefused⟩
    rw [hread value hfate]
    cases hchildren : childrenOf job.definition state with
    | error error' => exact ⟨error', refusedChild_of_childrenOf hfate hresults hchildren, rfl⟩
    | ok children =>
        exact absurd hrefused (not_refused_of_childrenOf hfate hresults hchildren error)

/-- What a result is refused with is of no class this package keeps to itself. -/
theorem isInternal_validateResult (hown : OwnResultErrors job) {slot : Slot JobDefinition}
    (hslot : slot ∈ slotsOf job.definition) {value : Value} {error : Thrown}
    (h : validateResult slot.definition value = .error error) : error.isInternal = false := by
  unfold validateResult at h
  cases hschema : slot.definition.result with
  | none => simp [hschema] at h
  | some schema =>
      simp only [hschema] at h
      rcases bind_eq_error h with h | ⟨answer, -, h⟩
      · exact hown slot hslot schema hschema _ _ h
      · cases answer with
        | issues is =>
            cases h
            rfl
        | value v => cases h

/-- And so is what a read fails with. -/
theorem isInternal_childrenOf (hown : OwnResultErrors job) {error : Thrown}
    (h : childrenOf job.definition state = .error error) : error.isInternal = false := by
  obtain ⟨slot, hslot, h⟩ := mapM_eq_error h
  rcases bind_eq_error h with h | ⟨checked, -, h⟩
  · obtain ⟨result, -, h⟩ := mapM_eq_error h
    exact isInternal_validateResult hown hslot h
  · cases h

/-- **A job that pays what it owes counts its losses and reaches its failures**, when the result
schemas of its slots throw errors of their own. -/
theorem accountable_of_childrenLaw (hbuilt : job.Built)
    (hcomposed : composeFlow job.definition data awaits = .ok job.node)
    (haddresses : ∀ i reason, fate i = .failed reason →
      readLiveJobId (composeJobId (job.queueOf i) (flow.storedId p job i)) =
        .ok (some (job.queueOf i, flow.storedId p job i)) → liveQueueName (job.queueOf i) = none)
    (hown : OwnResultErrors job) (henvelope : envelope.slots = job.node.envelope.slots.map assigned)
    (hresults : state.results.Perm (completedResults job fate))
    (hfailures : state.failures.Perm (failuresOf flow p job fate))
    (hpending : state.pending = pendingCount job fate)
    (h : ChildrenLaw flow p job fate awaits (childrenRead job.definition envelope.slots state)) :
    Accountable job fate awaits := by
  by_cases hnone : ∃ i, fate i = .pending
  · exact .inl hnone
  by_cases hfailed : ∃ i reason, fate i = .failed reason
  · refine .inr (.inl ⟨hfailed, ?_⟩)
    intro i reason hi
    exact haddresses i reason hi (h.addresses (not_exists.1 hnone) i reason hi)
  have hnone := not_exists.1 hnone
  have hlive : ∀ i reason, fate i ≠ .failed reason := fun i reason hi => hfailed ⟨i, reason, hi⟩
  have hread := childrenRead_settled hbuilt.defined hcomposed hnone hlive
    (settled_pending hnone hpending) (intact_failures hlive hfailures) hresults henvelope
  refine .inr (.inr ⟨hlive, (lostSlots_eq_iff hbuilt).1 ?_⟩)
  by_cases hremoved : ∃ i, fate i = .removed
  · -- a refusal is owed, and the one that is made names the same slots
    obtain ⟨i, hi⟩ := hremoved
    obtain ⟨slot, hslot, -⟩ := mem_lostSlots hbuilt hi
    have hshort := h.short hnone hlive i hi
    rw [hread] at hshort
    split_ifs at hshort with hnil
    · cases isInternal_childrenOf hown hshort
    · have hmessage := congrArg Thrown.messageValue (Except.error.inj hshort)
      exact lostSlots_eq_of_shortMessage hbuilt.defined (List.ne_nil_of_mem hslot) hnil
        (Value.str.inj hmessage)
  · -- every child completed, and no refusal of this kind is owed
    have hall : ∀ i, ∃ json, fate i = .completed json := by
      intro i
      cases hi : fate i with
      | completed json => exact ⟨json, rfl⟩
      | pending => exact absurd hi (hnone i)
      | failed reason => exact absurd hi (hlive i reason)
      | removed => exact absurd ⟨i, hi⟩ hremoved
    choose value hvalue using hall
    rw [lostSlots_eq_nil fun i hi => hremoved ⟨i, hi⟩]
    by_contra hshort
    rw [if_neg (Ne.symm hshort)] at hread
    by_cases hrefused : ∃ error, RefusedChild job value error
    · obtain ⟨error, ⟨slot, hslot, i, -, hresult, -⟩, herror⟩ := h.refused value hvalue hrefused
      rw [hread] at herror
      obtain rfl := Except.error.inj herror
      cases isInternal_validateResult hown hslot hresult
    · obtain ⟨children, hchildren, -⟩ := h.filled value hvalue hrefused
      rw [hread] at hchildren
      cases hchildren

end

/-- An id of a queue is resolved by the calls about live jobs exactly when the queue is not named
like a dead queue. -/
theorem readLiveJobId_composeJobId_iff (q : QueueName) {id : String} (hid : id ≠ "") :
    readLiveJobId (composeJobId q.name id) = .ok (some (q.name, id)) ↔
      liveQueueName q.name = none := by
  rw [readLiveJobId, readJobId_composeJobId q hid]
  cases h : liveQueueName q.name with
  | none => simp [h, bind, Except.bind, pure, Except.pure]
  | some live => simp [h, bind, Except.bind, pure, Except.pure]

/-- **When a job pays what it owes**, over the envelope a worker is handed and whatever order Redis
lists the hashes in: when the counts tell its losses, and the ids reach its failures. -/
theorem childrenLaw_iff {flow : Flow} {p : Path} {job : FlowJob} (hjob : flow.jobAt p = some job)
    {data awaits : Value} (hcomposed : composeFlow job.definition data awaits = .ok job.node)
    {fate : Fin job.size → ChildFate}
    (hqueues : ∀ i reason, fate i = .failed reason → ∃ q : QueueName, q.name = job.queueOf i)
    (hown : OwnResultErrors job) {stored : Value}
    (hstored : storedData job.node.envelope = some stored)
    {envelope : Envelope} (hread : readEnvelope stored = .ok envelope)
    {ledger : Ledger String String String}
    (hledger : ledger.Agrees (flow.keys p job) fun i => (fate i).place)
    {processed failed : HashEntries} (hprocessed : (hashOf ledger.processed).Perm processed)
    (hfailed : (hashOf ledger.failed).Perm failed) :
    (∃ outcome, (childrenFor (some (.ok (readFlowState
        (readFlowLua processed failed ledger.pending.card)))) job.definition envelope :
          Effect Empty Thrown (List (String × Value))) = some ([], outcome) ∧
        ChildrenLaw flow p job fate awaits outcome) ↔
      Accountable job fate awaits := by
  have hbuilt := Flow.jobAt_built hjob
  have henvelope := slots_of_composed hbuilt.composed hstored hread
  rw [readFlowState_readFlowLua]
  have hresults := completed_perm hjob hledger hprocessed
  have hcolon : ∀ i reason, fate i = .failed reason → ':' ∉ (job.queueOf i).toList := by
    intro i reason hi
    obtain ⟨q, hq⟩ := hqueues i reason hi
    exact hq ▸ q.noColon
  have hfailures := Flow.failures_perm hjob hcolon hledger hfailed
  have hpending := pendingCount_eq hjob hledger
  have haddresses : ∀ i reason, fate i = .failed reason →
      (readLiveJobId (composeJobId (job.queueOf i) (flow.storedId p job i)) =
        .ok (some (job.queueOf i, flow.storedId p job i)) ↔
          liveQueueName (job.queueOf i) = none) := by
    intro i reason hi
    obtain ⟨q, hq⟩ := hqueues i reason hi
    rw [← hq]
    refine readLiveJobId_composeJobId_iff q ?_
    intro hempty
    have hid := congrArg String.toList hempty
    simp [Flow.storedId, composeChildId, Cut.toList_join] at hid
  by_cases hslots : slotsOf job.definition = []
  · have hempty : job.size = 0 := by
      obtain ⟨-, -, -, hcounted, -⟩ := composeFlow_eq hbuilt.defined hbuilt.composed
      simp [FlowJob.size, hcounted.leaf hslots]
    constructor
    · intro _
      have hnone : ∀ i : Fin job.size, False := fun i => absurd i.2 (by omega)
      exact .inr (.inr ⟨fun i => (hnone i).elim, fun i => (hnone i).elim, by simp [hslots]⟩)
    · intro _
      refine ⟨.ok [], ?_, childrenLaw_of_no_slots hbuilt hslots⟩
      rw [childrenFor, if_pos hslots]
      rfl
  · rw [childrenFor_of_slots hslots]
    constructor
    · rintro ⟨outcome, houtcome, hlaw⟩
      cases houtcome
      exact accountable_of_childrenLaw hbuilt hcomposed
        (fun i reason hi => (haddresses i reason hi).1)
        hown henvelope hresults hfailures hpending hlaw
    · intro h
      exact ⟨_, rfl, childrenLaw_of_accountable hbuilt hcomposed
        (fun i reason hi => (haddresses i reason hi).2) henvelope hresults hfailures hpending h⟩

/-- The result schemas of a slot without one throw nothing. -/
theorem ownResultErrors_slotted (slot : String) : OwnResultErrors (slottedRoot slot) := by
  intro s hs schema hschema
  obtain rfl := List.mem_singleton.1 hs
  cases hschema

/-- A summary over one line that failed names the line. -/
theorem childrenLaw_example : ∃ (ledger : Ledger String String String) (envelope : Envelope)
    (outcome : Except Thrown (List (String × Value))),
    ledger.Agrees ((slottedFlow "lines" noSeparator_lines).keys [] (slottedRoot "lines"))
      (fun _ => ChildFate.place (.failed "no such line")) ∧
    (childrenFor (some (.ok (readFlowState (readFlowLua (hashOf ledger.processed)
      (hashOf ledger.failed) ledger.pending.card)))) (slottedJob "lines") envelope :
        Effect Empty Thrown (List (String × Value))) = some ([], outcome) ∧
    ChildrenLaw (slottedFlow "lines" noSeparator_lines) [] (slottedRoot "lines")
      (fun _ => .failed "no such line") (.obj [("lines", .arr [.null])]) outcome := by
  let flow := slottedFlow "lines" noSeparator_lines
  let root := slottedRoot "lines"
  let first : Fin root.size := ⟨0, Nat.one_pos⟩
  have hall : ∀ i : Fin root.size, i = first := fun i => Fin.ext (Nat.lt_one_iff.1 i.2)
  have hagrees : ((Ledger.start (Finset.univ.image (flow.keys [] root))).fail
      (flow.keys [] root first) "no such line" : Ledger String String String).Agrees
        (flow.keys [] root) (fun _ => ChildFate.place (.failed "no such line")) := by
    have hstart : (Ledger.start (Finset.univ.image (flow.keys [] root)) :
        Ledger String String String).Agrees (flow.keys [] root) fun _ => .pending :=
      Ledger.agrees_start _
    have hfail := hstart.fail (Flow.key_injective slottedFlow_root) (i := first) rfl "no such line"
    have hplace : Function.update (fun _ => Ledger.Place.pending) first (.lost "no such line") =
        fun _ : Fin root.size => ChildFate.place (.failed "no such line") := by
      funext i
      rw [hall i, Function.update_self]
      rfl
    exact hplace ▸ hfail
  have hmail : ∀ i : Fin root.size, root.queueOf i = "mail" := fun i => by rw [hall i]; rfl
  obtain ⟨outcome, houtcome, hlaw⟩ := (@childrenLaw_iff flow [] root slottedFlow_root _ _
    (composeFlow_slotted "lines") (fun _ => .failed "no such line")
    (fun i _ _ => ⟨⟨"mail", by decide, by decide⟩, (hmail i).symm⟩)
    (ownResultErrors_slotted "lines") _ rfl _ rfl _ hagrees _ _ (.refl _) (.refl _)).2
      (.inr (.inl ⟨⟨first, _, rfl⟩, fun i _ _ => by rw [hmail i]; decide⟩))
  exact ⟨_, _, outcome, hagrees, houtcome, hlaw⟩

/-- **A child that was removed, and a handler that is run without it**: the only child of a summary
fills a slot named `__proto__` and is removed, and the summary is handed an empty slot. -/
theorem loss_untold : ∃ stored envelope,
    composeFlow (slottedJob "__proto__") .null (.obj [("__proto__", .arr [.null])]) =
      .ok (slottedRoot "__proto__").node ∧
    storedData (slottedRoot "__proto__").node.envelope = some stored ∧
    readEnvelope stored = .ok envelope ∧
    (⟨∅, ∅, ∅⟩ : Ledger String String String).Agrees
      ((slottedFlow "__proto__" noSeparator_proto).keys [] (slottedRoot "__proto__"))
      (fun _ => ChildFate.removed.place) ∧
    (childrenFor (some (.ok (readFlowState (readFlowLua [] [] 0)))) (slottedJob "__proto__")
      envelope :
        Effect Empty Thrown (List (String × Value))) = some ([], .ok [("__proto__", .arr [])]) ∧
    ¬ ChildrenLaw (slottedFlow "__proto__" noSeparator_proto) [] (slottedRoot "__proto__")
      (fun _ => .removed) (.obj [("__proto__", .arr [.null])]) (.ok [("__proto__", .arr [])]) := by
  refine ⟨_, _, composeFlow_slotted "__proto__", rfl, rfl, ⟨?_, ?_, ?_⟩, rfl, ?_⟩
  · simp [ChildFate.place]
  · simp [ChildFate.place]
  · simp [ChildFate.place]
  · intro hlaw
    have herror := hlaw.short (fun _ h => by cases h) (fun _ _ h => by cases h) ⟨0, Nat.one_pos⟩ rfl
    cases herror

end Jubs
