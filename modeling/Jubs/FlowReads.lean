/-
**What a job of a flow reads once it gets past its children.**

The reader of a job sees two hashes and a number, while the children of the job complete, fail,
vanish and come back around it.  When the ledger of the job agrees with where its children are, a
read that passes counts as many arrivals in every slot as the envelope says there were children, so
none of them is gone.  The count of a slot named `__proto__` is lost when the envelope is read back,
so for such a slot the read counts nothing.

Main definitions:

* `Jubs.SlotRead`, `Jubs.FullyRead` — every child completed, and a job reads what its children
  returned;
* `Jubs.FlowInv` — the invariant of a flow.

Main results:

* `Jubs.done_of_not_short` — a read that is not short lost no child;
* `Jubs.fullyRead_of_read` — **the read that passes reads every child**.
-/

import Jubs.FlowJobs
import Mathlib.Data.Fintype.Basic
import Mathlib.Data.List.Forall2

set_option autoImplicit false

namespace Jubs

/-! ### What a job reads -/

/-- What one slot reads: the values its children returned, in some order of the children, as JSON
keeps them and through the result schema of the definition the slot declares. -/
def SlotRead {n : ℕ} (slotOf : Fin n → String) (returned : Fin n → Value) (order : List (Fin n))
    (slot : Slot JobDefinition) (read : String × Value) : Prop :=
  read.1 = slot.name ∧ ∃ kept checked : List Value,
    (order.filter fun i => slotOf i = slot.name).mapM (fun i => jsonResult (returned i)) =
      some kept ∧ kept.mapM (validateResult slot.definition) = .ok checked ∧
    (slot.many = false → checked.length = 1) ∧ read.2 = slotValue slot checked

/-- **Every child of a job completed, and the job reads what they returned**, slot by slot. -/
def FullyRead (job : FlowJob) (s : FlowRun) (p : Path) (children : List (String × Value)) : Prop :=
  ∃ (returned : Fin job.size → Value) (order : List (Fin job.size)),
    (∀ i : Fin job.size, ∃ stored, (s (i :: p)).status = .completed (returned i) stored) ∧
    order.Perm (List.finRange job.size) ∧
    List.Forall₂ (SlotRead job.slotOf returned order) (slotsOf job.definition) children

/-- What a job read stays true while its children stay completed. -/
theorem FullyRead.of_completed {job : FlowJob} {s t : FlowRun} {p : Path}
    {children : List (String × Value)} (h : FullyRead job s p children)
    (hkept : ∀ (i : Fin job.size) value stored,
      (s (i :: p)).status = .completed value stored → (t (i :: p)).status =
      .completed value stored) :
    FullyRead job t p children := by
  obtain ⟨returned, order, hcompleted, horder, hread⟩ := h
  refine ⟨returned, order, ?_, horder, hread⟩
  intro i
  obtain ⟨stored, hi⟩ := hcompleted i
  exact ⟨stored, hkept i _ _ hi⟩

/-! ### The invariant -/

/-- The keys of the children of a job. -/
def Flow.keys (flow : Flow) (p : Path) (job : FlowJob) : Fin job.size → String :=
  fun i => flow.key (i :: p)

/-- Where the children of a job are. -/
def FlowRun.places (s : FlowRun) (p : Path) (job : FlowJob) :
    Fin job.size → Ledger.Place String String :=
  fun i => (s (i :: p)).status.place

/-- **What holds of a flow at every moment**: the ledger of a job agrees with where its children
are, a completed job is stored as what it returned, no child that fills a slot named `__proto__` was
removed without its parent, and a job that got past its children read all of them. -/
structure FlowInv (flow : Flow) (s : FlowRun) : Prop where
  ledger : ∀ p job, flow.jobAt p = some job → (s p).status ≠ .removed →
    (s p).ledger.Agrees (flow.keys p job) (s.places p job)
  stored : ∀ p value stored, (s p).status = .completed value stored →
    storedResult value = some stored
  spared : ∀ p job, flow.jobAt p = some job → (s p).status ≠ .removed →
    ∀ i : Fin job.size, job.slotOf i = "__proto__" → (s (i :: p)).status ≠ .removed
  read : ∀ p job children, flow.jobAt p = some job → (s p).status.children = some children →
    FullyRead job s p children

/-! ### The read that passes -/

/-- **What the children of a job are read as**, wherever they are. -/
theorem Flow.results_perm {flow : Flow} {p : Path} {job : FlowJob} (hjob : flow.jobAt p = some job)
    {ledger : Ledger String String String} {place : Fin job.size → Ledger.Place String String}
    (h : ledger.Agrees (flow.keys p job) place) {processed : HashEntries}
    (hprocessed : (hashOf ledger.processed).Perm processed) :
    (processed.map readResult).Perm ((List.finRange job.size).filterMap fun i =>
      (place i).value.map fun stored => ⟨job.slotOf i, childValue stored⟩) := by
  have hperm := h.processed_perm (Flow.key_injective hjob)
  have hmap := (hprocessed.symm.trans hperm).map readResult
  rw [List.map_filterMap] at hmap
  have hread : ∀ i : Fin job.size, (((place i).value.map fun stored =>
      (flow.keys p job i, stored)).map readResult) =
        (place i).value.map fun stored => ⟨job.slotOf i, childValue stored⟩ := by
    intro i
    cases (place i).value with
    | none => rfl
    | some stored => exact congrArg some (Flow.readResult_child hjob i stored)
  simpa only [hread] using hmap

/-- What the children of a job are read as while a flow runs. -/
theorem results_perm {flow : Flow} {s : FlowRun} {p : Path} {job : FlowJob}
    (h : FlowInv flow s) (hjob : flow.jobAt p = some job) (hs : (s p).status ≠ .removed)
    {processed : HashEntries} (hprocessed : (hashOf (s p).ledger.processed).Perm processed) :
    (processed.map readResult).Perm ((List.finRange job.size).filterMap fun i =>
      (s.places p job i).value.map fun stored => ⟨job.slotOf i, childValue stored⟩) :=
  Flow.results_perm hjob (h.ledger p job hjob hs) hprocessed

/-- A slot that holds as many arrivals as children lost none of them. -/
theorem done_of_count {n : ℕ} {fills done : Fin n → Bool}
    (h : (List.finRange n).countP (fun i => fills i) ≤
      (List.finRange n).countP fun i => fills i && done i) {i : Fin n} (hi : fills i = true) :
    done i = true := by
  by_contra hlost
  have hlost : done i = false := by simpa using hlost
  have hsplit := List.countP_eq_countP_filter_add (List.finRange n) (fun i => fills i) done
  rw [List.countP_filter, List.countP_filter] at hsplit
  have hpos : 0 < (List.finRange n).countP fun i => fills i && !done i := by
    refine List.countP_pos_iff.2 ⟨i, List.mem_finRange i, ?_⟩
    simp [hi, hlost]
  omega

/-- The children of a job that fill a slot, counted by position. -/
theorem childCount_eq_countP (job : FlowJob) (name : String) :
    childCount job.node.children name =
      (List.finRange job.size).countP fun i => job.slotOf i = name := by
  unfold childCount
  conv_lhs => rw [← List.map_get_finRange job.node.children]
  rw [List.countP_map]
  rfl

/-- A job that gets past its children: it waits on none, or the read passes over the counts its
envelope was stored with. -/
theorem readChildren_eq_ok {job : FlowJob} (hbuilt : job.Built) {reply : Reply}
    {children : List (String × Value)} (h : readChildren job reply = some (.ok children)) :
    (slotsOf job.definition = [] ∧ children = []) ∨
      (slotsOf job.definition ≠ [] ∧ childrenRead job.definition
        (job.node.envelope.slots.map assigned) (readFlowState reply) = .ok children) := by
  obtain ⟨-, -, -, hcounted, -⟩ := composeFlow_eq hbuilt.defined hbuilt.composed
  obtain ⟨stored, hstored, h⟩ := Option.bind_eq_some_iff.1 h
  split at h
  · cases h
  · rename_i envelope henvelope
    obtain ⟨⟨l, outcome⟩, hread, houtcome⟩ := Option.map_eq_some_iff.1 h
    obtain rfl : outcome = .ok children := houtcome
    unfold childrenFor at hread
    split_ifs at hread with hslots
    · cases hread
      exact Or.inl ⟨hslots, rfl⟩
    · obtain ⟨state, _, l', hstate, hread, -⟩ := Effect.bind_eq_ok_iff.1 hread
      obtain ⟨-, hread⟩ := Effect.ofExcept_eq_some_iff.1 hread
      cases hstate
      obtain ⟨slots, hcounts, hwhole, -⟩ := hcounted.counts hslots
      have hkept : envelope.slots = job.node.envelope.slots.map assigned := by
        refine slots_of_storedData ?_ hstored henvelope
        intro slots' hslots'
        rw [hcounts] at hslots'
        exact Option.some.inj hslots' ▸ hwhole
      exact Or.inr ⟨hslots, hkept ▸ hread⟩

/-- How many results of a read fill a slot. -/
theorem arrivedIn_eq {job : FlowJob} {place : Fin job.size → Ledger.Place String String}
    {state : FlowState} (hperm : state.results.Perm ((List.finRange job.size).filterMap fun i =>
      (place i).value.map fun stored => ⟨job.slotOf i, childValue stored⟩)) (name : String) :
    arrivedIn state name = (List.finRange job.size).countP fun i =>
      job.slotOf i = name && (place i).value.isSome := by
  rw [arrivedIn, ← List.countP_eq_length_filter, hperm.countP_eq, List.countP_filterMap]
  refine List.countP_congr ?_
  intro i _
  cases (place i).value <;> simp

/-- **A read that is not short lost no child**, unless the child fills a slot named `__proto__`. -/
theorem done_of_not_short {job : FlowJob} (hbuilt : job.Built)
    {place : Fin job.size → Ledger.Place String String} {state : FlowState}
    (hslots : slotsOf job.definition ≠ [])
    (hperm : state.results.Perm ((List.finRange job.size).filterMap fun i =>
      (place i).value.map fun stored => ⟨job.slotOf i, childValue stored⟩))
    (hshort : childrenShort job.definition (job.node.envelope.slots.map assigned) state = none)
    {i : Fin job.size} (hi : job.slotOf i ≠ "__proto__") : (place i).value.isSome = true := by
  obtain ⟨-, -, -, hcounted, hchildren⟩ := composeFlow_eq hbuilt.defined hbuilt.composed
  obtain ⟨slot, hslot, hname, -⟩ := hchildren _ (List.get_mem job.node.children i)
  have hname : job.slotOf i = slot.name := hname
  obtain ⟨slots, hcounts, -, hlookup⟩ := hcounted.counts hslots
  obtain ⟨count, hcount, hchildren, -⟩ := hlookup slot hslot
  have hdeclared : Envelope.declared (job.node.envelope.slots.map assigned) slot.name =
      .num (.finite count) := by
    rw [hcounts]
    exact declared_of_ne (hname ▸ hi) hcount
  have hlt := (childrenShort_eq_none_iff.1 hshort slot hslot).2 _ hdeclared
  rw [Number.lt_natCast, decide_eq_false_iff_not, not_lt, arrivedIn_eq hperm] at hlt
  -- the count is that of the places the slot was given, which are no fewer than its children
  have hle := hchildren.trans hlt
  rw [childCount_eq_countP] at hle
  exact @done_of_count _ (fun j => job.slotOf j = slot.name) (fun j => (place j).value.isSome) hle i
    (by simpa using hname)

/-- A list in some order of the images of another is the image of that other in some order. -/
theorem exists_order {α β : Type} {l : List β} {m : List α} {f : α → β} (h : l.Perm (m.map f)) :
    ∃ order : List α, order.Perm m ∧ l = order.map f := by
  have hsame : List.Forall₂ (fun b a => b = f a) (m.map f) m :=
    List.forall₂_map_left_iff.2 (List.forall₂_same.2 fun _ _ => rfl)
  obtain ⟨order, hl, horder⟩ := List.perm_comp_forall₂ h hsame
  refine ⟨order, horder, ?_⟩
  have heq : List.Forall₂ Eq l (order.map f) := List.forall₂_map_right_iff.2 hl
  rwa [List.forall₂_eq_eq_eq] at heq

/-- What a slot reads once every child completed. -/
theorem slotRead_of_slotValues {job : FlowJob} (hbuilt : job.Built) {slot : Slot JobDefinition}
    (hslot : slot ∈ slotsOf job.definition) {returned : Fin job.size → Value}
    {stored : Fin job.size → String} {order : List (Fin job.size)}
    (hstored : ∀ i, storedResult (returned i) = some (stored i))
    (horder : order.Perm (List.finRange job.size)) {checked : List Value}
    (h : slotValues slot (order.map fun i => ⟨job.slotOf i, childValue (stored i)⟩) = .ok checked) :
    SlotRead job.slotOf returned order slot (slot.name, slotValue slot checked) := by
  obtain ⟨-, -, -, hcounted, -⟩ := composeFlow_eq hbuilt.defined hbuilt.composed
  let filling := order.filter fun i => job.slotOf i = slot.name
  have hvalues : (filling.map fun i => childValue (stored i)).mapM
      (validateResult slot.definition) =
      .ok checked := by
    rw [slotValues, List.filter_map, List.mapM_map] at h
    rw [List.mapM_map]
    exact h
  refine ⟨rfl, filling.map fun i => childValue (stored i), checked, ?_, hvalues, ?_, rfl⟩
  · have hkept : ∀ i, jsonResult (returned i) = pure (childValue (stored i)) :=
      fun i => childValue_storedResult (hstored i)
    simp only [hkept]
    exact List.mapM_pure
  · intro hone
    have hlength := (forall₂_of_mapM_eq_ok hvalues).length_eq
    rw [List.length_map, ← List.countP_eq_length_filter, horder.countP_eq,
      ← childCount_eq_countP, hcounted.one slot hslot hone] at hlength
    exact hlength.symm

/-- **The read that passes**: every child of the job completed, and the job reads all of them. -/
theorem fullyRead_of_read {flow : Flow} {s : FlowRun} {p : Path} {job : FlowJob}
    (h : FlowInv flow s) (hjob : flow.jobAt p = some job) (hs : (s p).status ≠ .removed)
    {processed failed : HashEntries} {children : List (String × Value)}
    (hprocessed : (hashOf (s p).ledger.processed).Perm processed)
    (hfailed : (hashOf (s p).ledger.failed).Perm failed)
    (hread : readChildren job (readFlowLua processed failed (s p).ledger.pending.card) =
      some (.ok children)) : FullyRead job s p children := by
  have hbuilt := Flow.jobAt_built hjob
  rcases readChildren_eq_ok hbuilt hread with ⟨hslots, rfl⟩ | ⟨hslots, hread⟩
  · obtain ⟨-, -, -, hcounted, -⟩ := composeFlow_eq hbuilt.defined hbuilt.composed
    refine ⟨fun _ => .undefined, List.finRange _, ?_, .refl _, ?_⟩
    · intro i
      exact absurd i.2 (by simp [FlowJob.size, hcounted.leaf hslots])
    · rw [hslots]
      exact .nil
  · rw [readFlowState_readFlowLua] at hread
    obtain ⟨hpending, hfailures, hshort, hchildren⟩ := childrenRead_eq_ok_iff.1 hread
    have hperm := results_perm h hjob hs hprocessed
    have hnone : (s p).ledger.failed = ∅ := by
      obtain rfl : failed = [] := List.map_eq_nil_iff.1 hfailures
      exact AList.ext (List.map_eq_nil_iff.1 (List.perm_nil.1 hfailed))
    have hsettled := (h.ledger p job hjob hs).settled (Finset.card_eq_zero.1 hpending) hnone
    -- no child of this job is gone: the counts tell, or nothing was removed from its slot
    have hdone : ∀ i : Fin job.size, ∃ value stored, (s (i :: p)).status =
        .completed value stored := by
      intro i
      have hvalue : ∃ stored, s.places p job i = .done stored := by
        rcases hsettled i with hi | hi
        · exact hi
        · by_cases hproto : job.slotOf i = "__proto__"
          · refine absurd ?_ (h.spared p job hjob hs i hproto)
            cases hstatus : (s (i :: p)).status with
            | removed => rfl
            | _ => simp [FlowRun.places, hstatus, JobStatus.place] at hi
          · have hsome := done_of_not_short hbuilt hslots hperm hshort hproto
            simp [hi, Ledger.Place.value] at hsome
      obtain ⟨stored, hi⟩ := hvalue
      cases hstatus : (s (i :: p)).status with
      | completed value stored => exact ⟨value, stored, rfl⟩
      | _ => simp [FlowRun.places, hstatus, JobStatus.place] at hi
    choose returned stored hcompleted using hdone
    have hplace : ∀ i, s.places p job i = .done (stored i) := by
      intro i
      rw [FlowRun.places, hcompleted i]
      rfl
    have hall : ((List.finRange job.size).filterMap fun i =>
        (s.places p job i).value.map fun stored =>
        (⟨job.slotOf i, childValue stored⟩ : ChildResult)) =
          (List.finRange job.size).map fun i => ⟨job.slotOf i, childValue (stored i)⟩ := by
      simp [hplace, Ledger.Place.value]
    obtain ⟨order, horder, hresults⟩ := exists_order (hall ▸ hperm)
    refine ⟨returned, order, fun i => ⟨stored i, hcompleted i⟩, horder, ?_⟩
    have hslotwise := (List.forall₂_and_left (p := fun slot => slot ∈ slotsOf job.definition) _ _).2
      ⟨fun _ hslot => hslot, forall₂_of_mapM_eq_ok hchildren⟩
    refine hslotwise.imp ?_
    rintro slot read ⟨hslot, hvalues⟩
    obtain ⟨checked, hchecked, hvalues⟩ := bind_eq_ok.1 hvalues
    obtain rfl := Except.ok.inj hvalues
    rw [hresults] at hchecked
    exact slotRead_of_slotValues hbuilt hslot (fun i => h.stored _ _ _ (hcompleted i))
      horder hchecked

end Jubs
