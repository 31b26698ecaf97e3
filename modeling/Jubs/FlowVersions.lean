/-
**A parent composed under one version of its definition and delivered under another.**

The envelope of a parent counts the children its slots were given, and the definition that runs it
says whether a slot holds one child or many.  The two may come from different deploys.  A read
refuses a slot with no count and a slot with fewer children than its count; it never compares a
count with the arity, so a slot that holds one is entered over the first of several children, or
over none.

Main definitions:

* `Jubs.Settled` — no child is pending or failed, and any of them may be lost;
* `Jubs.Resolves` — the read of the children answers with a value for every slot;
* `Jubs.Filled` — every slot is filled as the running definition declares it;
* `Jubs.Refuses` — a slot lost a child, was never counted, or holds a value its schema refuses;
* `Jubs.SlotMatches` — the count of a slot fits the arity the running definition gives it.

Main results:

* `Jubs.writtenCount_eq` — the counts an envelope is composed with;
* `Jubs.resolves_iff` — when the read answers, and what it answers;
* `Jubs.slots_filled_iff` — **when no handler is entered over a slot that is not filled**;
* `Jubs.slot_drops_child` — a slot that went from many to one drops a child.
-/

import Jubs.FlowRuns

set_option autoImplicit false

namespace Jubs

/-! ### What a read is given, and what it must answer -/

/-- What the children of a node settled into: none is pending and none failed, any may be lost. -/
structure Settled (node : FlowNode) (state : FlowState) : Prop where
  pending : state.pending = 0
  failures : state.failures = []
  results : (state.results.map ChildResult.slot).Subperm (node.children.map FlowChild.slot)

/-- `childrenFor` resolves with the children. -/
def Resolves (running : JobDefinition) (envelope : Envelope) (state : FlowState)
    (children : List (String × Value)) : Prop :=
  (childrenFor (some (.ok state)) running envelope : Effect Empty Thrown _) =
  some ([], .ok children)

/-- The count a slot was given when the node was composed. -/
def writtenCount (node : FlowNode) (slot : String) : Option Number :=
  node.envelope.slots.bind fun slots => slots.lookup slot

/-- A slot that is filled: a slot of one by the value of one settled child, a slot of many by an
array of as many values as its count, every value checked by the slot's own definition. -/
structure FilledSlot (node : FlowNode) (state : FlowState) (slot : Slot JobDefinition)
    (read : String × Value) : Prop where
  name : read.1 = slot.name
  value : ∃ checked, slotValues slot state.results = .ok checked ∧
    if slot.many then
      read.2 = .arr checked ∧ writtenCount node slot.name = some (.finite (checked.length : ℕ))
    else ∃ v, checked = [v] ∧ read.2 = v

/-- Every slot the running definition declares is filled. -/
def Filled (node : FlowNode) (state : FlowState) (running : JobDefinition)
    (children : List (String × Value)) : Prop :=
  List.Forall₂ (FilledSlot node state) (slotsOf running) children

/-! ### The condition -/

/-- Some slot of the running definition was never counted, holds fewer children than its count, or
holds a value that its definition refuses. -/
def Refuses (running : JobDefinition) (envelope : Envelope) (state : FlowState) : Prop :=
  ∃ slot ∈ slotsOf running,
    (Envelope.declared envelope.slots slot.name).isUndefined = true ∨
    (∃ n, Envelope.declared envelope.slots slot.name = .num n ∧
      Number.lt (.finite (arrivedIn state slot.name)) n = true) ∨
    ∃ result ∈ state.results, result.slot = slot.name ∧
      ∃ error, validateResult slot.definition result.value = .error error

/-- The count a slot was given fits its arity: a slot of one was given one child.  A slot named
`__proto__` is never held against its count, so there the children that arrived must fit. -/
def SlotMatches (node : FlowNode) (state : FlowState) (slot : Slot JobDefinition) : Prop :=
  ∃ n : ℕ, writtenCount node slot.name = some (.finite n) ∧
    if slot.name = "__proto__" then arrivedIn state slot.name = if slot.many then n else 1
    else slot.many = false → n = 1

/-- As many children of a slot arrived as the slot takes. -/
def ArrivedFits (node : FlowNode) (state : FlowState) (slot : Slot JobDefinition) : Prop :=
  if slot.many then
    writtenCount node slot.name = some (.finite (arrivedIn state slot.name : ℕ))
  else arrivedIn state slot.name = 1

/-! ### The counts of an envelope -/

section

variable {old : JobDefinition} {node : FlowNode}

/-- **The counts an envelope is composed with**: one for every slot that the definition declared
then, and no slot has more children. -/
theorem exists_writtenCount (hold : WellDefined old) (hnode : Composed old node)
    {slot : Slot JobDefinition} (hslot : slot ∈ slotsOf old) : ∃ n : ℕ,
    writtenCount node slot.name = some (.finite n) ∧ childCount node.children slot.name ≤ n := by
  obtain ⟨-, -, -, hcounted, -⟩ := composeFlow_eq hold hnode
  obtain ⟨slots, hslots, -, hlookup⟩ := hcounted.counts (List.ne_nil_of_mem hslot)
  obtain ⟨n, hn, hle, -⟩ := hlookup slot hslot
  exact ⟨n, by rw [writtenCount, hslots, Option.bind_some, hn], hle⟩

/-- What was counted was declared. -/
theorem declared_of_writtenCount (hnode : Composed old node) {name : String} {n : Number}
    (h : writtenCount node name = some n) : name ∈ (slotsOf old).map Slot.name := by
  obtain ⟨data, awaits, hcompose⟩ := hnode
  obtain ⟨delivery, composing, hfills, rfl⟩ := composeFlow_eq_ok hcompose
  by_contra hname
  have hnone : writtenCount (composedNode old data delivery composing) name = none := by
    unfold writtenCount composedNode
    split_ifs with hnil
    · rfl
    · refine List.lookup_eq_none_iff.2 ?_
      intro p hp
      obtain ⟨composed, hcomposed, rfl⟩ := List.mem_map.1 hp
      obtain ⟨slot, hslot, hfill⟩ := exists_of_forall₂ hfills hcomposed
      have hne : name ≠ composed.1 := by
        rintro rfl
        exact hname (hfill.name ▸ List.mem_map_of_mem hslot)
      simpa using hne
  cases hnone.symm.trans h

/-- No slot has more children than its count. -/
theorem childCount_le (hold : WellDefined old) (hnode : Composed old node) {name : String} {n : ℕ}
    (h : writtenCount node name = some (.finite n)) : childCount node.children name ≤ n := by
  obtain ⟨slot, hslot, rfl⟩ := List.mem_map.1 (declared_of_writtenCount hnode h)
  obtain ⟨n', hn', hle⟩ := exists_writtenCount hold hnode hslot
  obtain rfl := Decimal.natCast_injective (Number.finite.inj (Option.some.inj (hn'.symm.trans h)))
  exact hle

/-- No more children of a slot arrive than it was given. -/
theorem arrivedIn_le {state : FlowState} (h : Settled node state) (name : String) :
    arrivedIn state name ≤ childCount node.children name := by
  have hle := h.results.countP_le fun slot => slot = name
  rw [List.countP_map, List.countP_map] at hle
  rw [arrivedIn, ← List.countP_eq_length_filter]
  exact hle

/-- A slot some child arrived in was counted. -/
theorem writtenCount_of_arrived (hold : WellDefined old) (hnode : Composed old node)
    {state : FlowState} (h : Settled node state) {name : String} (hpos : 0 < arrivedIn state name) :
    ∃ n : ℕ, writtenCount node name = some (.finite n) := by
  have hpos := Nat.lt_of_lt_of_le hpos (arrivedIn_le h name)
  obtain ⟨child, hchild, hname⟩ := List.countP_pos_iff.1 hpos
  obtain ⟨-, -, -, -, hchildren⟩ := composeFlow_eq hold hnode
  obtain ⟨slot, hslot, hslotname, -⟩ := hchildren child hchild
  obtain ⟨n, hn, -⟩ := exists_writtenCount hold hnode hslot
  rw [← hslotname, show child.slot = name by simpa using hname] at hn
  exact ⟨n, hn⟩

/-- The counts a worker reads off the envelope of a composed node. -/
theorem slots_of_composed (hnode : Composed old node) {stored : Value}
    (hstored : storedData node.envelope = some stored) {envelope : Envelope}
    (hread : readEnvelope stored = .ok envelope) :
    envelope.slots = node.envelope.slots.map assigned := by
  refine slots_of_storedData ?_ hstored hread
  intro slots hslots p hp
  obtain ⟨data, awaits, h⟩ := hnode
  obtain ⟨delivery, composing, -, rfl⟩ := composeFlow_eq_ok h
  have hslots : (if composing = [] then none else some _) = some slots := hslots
  split_ifs at hslots
  obtain rfl := Option.some.inj hslots
  obtain ⟨composed, -, rfl⟩ := List.mem_map.1 hp
  rfl

/-- A slot whose count was written reads it back, unless the slot is named `__proto__`. -/
theorem declared_of_written {envelope : Envelope}
    (h : envelope.slots = node.envelope.slots.map assigned)
    {name : String} {n : Number} (hn : writtenCount node name = some n)
    (hname : name ≠ "__proto__") : Envelope.declared envelope.slots name = .num n := by
  obtain ⟨slots, hslots, hlookup⟩ := Option.bind_eq_some_iff.1 hn
  rw [h, hslots]
  exact declared_of_ne hname hlookup

end

/-! ### When a read answers -/

section

variable {running : JobDefinition} {envelope : Envelope} {state : FlowState}

/-- One slot is read when its definition accepts every value that fills it. -/
theorem exists_slotValues {slot : Slot JobDefinition} {results : List ChildResult}
    (h : ∀ result ∈ results, result.slot = slot.name →
      ∀ error, validateResult slot.definition result.value ≠ .error error) :
    ∃ checked, slotValues slot results = .ok checked := by
  refine exists_mapM_eq_ok ?_
  intro result hresult
  obtain ⟨hresult, hname⟩ := List.mem_filter.1 hresult
  cases hvalid : validateResult slot.definition result.value with
  | ok value => exact ⟨value, rfl⟩
  | error error => exact absurd hvalid (h result hresult (by simpa using hname) error)

/-- What the read answers is one value for every slot of the running definition. -/
theorem childrenOf_eq_ok_iff {children : List (String × Value)} :
    childrenOf running state = .ok children ↔
      List.Forall₂ (fun slot read => ∃ checked, slotValues slot state.results = .ok checked ∧
        read = (slot.name, slotValue slot checked)) (slotsOf running) children := by
  constructor
  · intro h
    refine (forall₂_of_mapM_eq_ok h).imp ?_
    intro slot read hread
    obtain ⟨checked, hchecked, hread⟩ := bind_eq_ok.1 hread
    exact ⟨checked, hchecked, (Except.ok.inj hread).symm⟩
  · intro h
    refine mapM_eq_ok_of_forall₂ (h.imp ?_)
    rintro slot read ⟨checked, hchecked, rfl⟩
    rw [hchecked]
    rfl

/-- **When the read answers, and what it answers.** -/
theorem resolves_iff (hpending : state.pending = 0) (hfailures : state.failures = [])
    {children : List (String × Value)} :
    Resolves running envelope state children ↔
      (slotsOf running ≠ [] → childrenShort running envelope.slots state = none) ∧
        childrenOf running state = .ok children := by
  unfold Resolves childrenFor
  split_ifs with hslots
  · have hnone : childrenOf running state = .ok [] := by rw [childrenOf, hslots]; rfl
    simp only [hslots, ne_eq, not_true_eq_false, false_implies, true_and, hnone]
    constructor
    · intro h
      cases h
      rfl
    · intro h
      cases h
      rfl
  · simp only [ne_eq, hslots, not_false_eq_true, forall_const]
    rw [Effect.bind_eq_ok_iff]
    constructor
    · rintro ⟨state', l₁, l₂, hstate, hread, -⟩
      cases hstate
      obtain ⟨-, hread⟩ := Effect.ofExcept_eq_some_iff.1 hread
      obtain ⟨-, -, hshort, hchildren⟩ := childrenRead_eq_ok_iff.1 hread
      exact ⟨hshort, hchildren⟩
    · rintro ⟨hshort, hchildren⟩
      refine ⟨state, [], [], rfl, ?_, rfl⟩
      rw [childrenRead_eq_ok_iff.2 ⟨hpending, hfailures, hshort, hchildren⟩]
      rfl

/-- A read answers exactly when no slot refuses it. -/
theorem exists_resolves_iff (hpending : state.pending = 0) (hfailures : state.failures = []) :
    (∃ children, Resolves running envelope state children) ↔ ¬ Refuses running envelope state := by
  simp only [resolves_iff hpending hfailures]
  constructor
  · rintro ⟨children, hshort, hchildren⟩ ⟨slot, hslot, hrefuses⟩
    have hcounts := childrenShort_eq_none_iff.1 (hshort (List.ne_nil_of_mem hslot)) slot hslot
    rcases hrefuses with hundefined | ⟨n, hn, hlt⟩ | ⟨result, hresult, hname, error, herror⟩
    · simp [hundefined] at hcounts
    · simp [hcounts.2 n hn] at hlt
    · obtain ⟨read, -, checked, hchecked, -⟩ :=
        exists_of_forall₂ (childrenOf_eq_ok_iff.1 hchildren).flip (by exact hslot)
      have hmem : result ∈ state.results.filter fun result => result.slot = slot.name :=
        List.mem_filter.2 ⟨hresult, by simpa using hname⟩
      obtain ⟨value, -, hvalue⟩ := exists_of_forall₂ (forall₂_of_mapM_eq_ok hchecked).flip hmem
      rw [herror] at hvalue
      cases hvalue
  · intro hnot
    have hgood : ∀ slot ∈ slotsOf running, _ := fun slot hslot h => hnot ⟨slot, hslot, h⟩
    have hvalues : ∀ slot ∈ slotsOf running, ∃ read, (do
        let values ← slotValues slot state.results
        return (slot.name, slotValue slot values) : Except Thrown (String × Value)) = .ok read := by
      intro slot hslot
      obtain ⟨checked, hchecked⟩ := @exists_slotValues slot state.results
        fun result hresult hname error herror =>
          hgood slot hslot (.inr (.inr ⟨result, hresult, hname, error, herror⟩))
      refine ⟨(slot.name, slotValue slot checked), ?_⟩
      rw [hchecked]
      rfl
    obtain ⟨children, hchildren⟩ := exists_mapM_eq_ok hvalues
    refine ⟨children, fun _ => childrenShort_eq_none_iff.2 ?_, hchildren⟩
    intro slot hslot
    refine ⟨?_, ?_⟩
    · by_contra hundefined
      exact hgood slot hslot (.inl (by simpa using hundefined))
    · intro n hn
      by_contra hlt
      exact hgood slot hslot (.inr (.inl ⟨n, hn, by simpa using hlt⟩))

end

/-! ### What is filled -/

section

variable {old running : JobDefinition} {node : FlowNode} {stored : Value} {envelope : Envelope}
  {state : FlowState}

/-- As many children of a filled slot arrived as the slot takes. -/
theorem FilledSlot.fits {slot : Slot JobDefinition} {read : String × Value}
    (h : FilledSlot node state slot read) : ArrivedFits node state slot := by
  obtain ⟨-, checked, hchecked, hvalue⟩ := h
  have hlength : checked.length = arrivedIn state slot.name :=
    (forall₂_of_mapM_eq_ok hchecked).length_eq.symm
  unfold ArrivedFits
  split_ifs at hvalue ⊢ with hmany
  · rw [← hlength]
    exact hvalue.2
  · obtain ⟨v, rfl, -⟩ := hvalue
    exact hlength.symm

/-- A slot that as many children arrived in as it takes is filled by what is read of it. -/
theorem ArrivedFits.filled {slot : Slot JobDefinition} (h : ArrivedFits node state slot)
    {checked : List Value} (hchecked : slotValues slot state.results = .ok checked) :
    FilledSlot node state slot (slot.name, slotValue slot checked) := by
  have hlength : checked.length = arrivedIn state slot.name :=
    (forall₂_of_mapM_eq_ok hchecked).length_eq.symm
  refine ⟨rfl, checked, hchecked, ?_⟩
  unfold ArrivedFits at h
  split_ifs at h ⊢ with hmany
  · exact ⟨by simp [slotValue, hmany], hlength ▸ h⟩
  · obtain ⟨v, rfl⟩ := List.length_eq_one_iff.1 (hlength.trans h)
    exact ⟨v, rfl, by simp [slotValue, hmany]⟩

/-- Where no slot refuses the read, the children that arrived fit a slot exactly when its count
does. -/
theorem slotMatches_iff (hold : WellDefined old) (hnode : Composed old node)
    (hslots : envelope.slots = node.envelope.slots.map assigned) (hsettled : Settled node state)
    (hnot : ¬ Refuses running envelope state) {slot : Slot JobDefinition}
    (hslot : slot ∈ slotsOf running) :
    SlotMatches node state slot ↔ ArrivedFits node state slot := by
  have hgood := fun h => hnot ⟨slot, hslot, h⟩
  have hone : arrivedIn state slot.name = 1 →
      ∃ n : ℕ, writtenCount node slot.name = some (.finite n) :=
    fun h => writtenCount_of_arrived hold hnode hsettled (by omega)
  unfold SlotMatches ArrivedFits
  by_cases hproto : slot.name = "__proto__"
  · simp only [hproto, if_true] at hone ⊢
    split_ifs with hmany
    · constructor
      · rintro ⟨n, hn, rfl⟩
        exact hn
      · intro h
        exact ⟨_, h, rfl⟩
    · constructor
      · rintro ⟨n, -, h⟩
        exact h
      · intro h
        obtain ⟨n, hn⟩ := hone h
        exact ⟨n, hn, h⟩
  · simp only [hproto, if_false]
    -- the count reads back as it was written, and the read held the slot against it
    have hall : ∀ n : ℕ, writtenCount node slot.name = some (.finite n) →
        n = arrivedIn state slot.name := by
      intro n hn
      have hdeclared := declared_of_written hslots hn hproto
      have hle : n ≤ arrivedIn state slot.name := by
        by_contra hlt
        refine hgood (.inr (.inl ⟨_, hdeclared, ?_⟩))
        rw [Number.lt_natCast]
        simpa using hlt
      exact Nat.le_antisymm hle
        ((arrivedIn_le hsettled slot.name).trans (childCount_le hold hnode hn))
    split_ifs with hmany
    · simp only [hmany, Bool.true_eq_false, false_implies, and_true]
      constructor
      · rintro ⟨n, hn⟩
        exact hall n hn ▸ hn
      · intro h
        exact ⟨_, h⟩
    · simp only [hmany, forall_const]
      constructor
      · rintro ⟨n, hn, rfl⟩
        exact (hall 1 hn).symm
      · intro h
        obtain ⟨n, hn⟩ := hone h
        exact ⟨n, hn, (hall n hn).trans h⟩

/-- **When no handler is entered over a slot that is not filled.**  A parent that was composed under
one version of its definition and whose children settled is delivered under another: every read that
answers fills every slot, exactly when some slot refuses the read or every slot fits its count. -/
theorem slots_filled_iff (hold : WellDefined old) (hnode : Composed old node)
    (hstored : storedData node.envelope = some stored) (hread : readEnvelope stored = .ok envelope)
    (hsettled : Settled node state) :
    (∀ children, Resolves running envelope state children → Filled node state running children) ↔
      Refuses running envelope state ∨
        ∀ slot ∈ slotsOf running, SlotMatches node state slot := by
  have hslots := slots_of_composed hnode hstored hread
  constructor
  · intro hfilled
    by_cases hnot : Refuses running envelope state
    · exact .inl hnot
    · refine .inr ?_
      intro slot hslot
      obtain ⟨children, hchildren⟩ :=
        (exists_resolves_iff hsettled.pending hsettled.failures).2 hnot
      obtain ⟨read, -, hfill⟩ := exists_of_forall₂ (hfilled children hchildren).flip hslot
      exact (slotMatches_iff hold hnode hslots hsettled hnot hslot).2 hfill.fits
  · intro hcondition children hchildren
    have hnot := (exists_resolves_iff hsettled.pending hsettled.failures).1 ⟨children, hchildren⟩
    have hmatches := hcondition.resolve_left hnot
    have hread := ((resolves_iff hsettled.pending hsettled.failures).1 hchildren).2
    have hslotwise := (List.forall₂_and_left (p := fun slot => slot ∈ slotsOf running) _ _).2
      ⟨fun _ hslot => hslot, childrenOf_eq_ok_iff.1 hread⟩
    refine hslotwise.imp ?_
    rintro slot read ⟨hslot, checked, hchecked, rfl⟩
    have hfits := (slotMatches_iff hold hnode hslots hsettled hnot hslot).1 (hmatches slot hslot)
    exact hfits.filled hchecked

end

/-! ### A slot that went from many to one -/

/-- The summary, once its slot of lines takes one line. -/
def oneLineJob : JobDefinition := { slottedJob "lines" with awaits := [⟨"lines", false, lineJob⟩] }

theorem defineJob_oneLine : defineJob oneLineJob = .ok oneLineJob := by
  have hawaits : assertAwaits oneLineJob = .ok () := by
    simp [assertAwaits, oneLineJob, slottedJob, lineJob, declaresUnique, assertSlots,
      noSeparator_lines]
  exact defineJob_unversioned rfl rfl rfl hawaits

/-- A summary over one line that returned a text, delivered to a definition that takes one line. -/
theorem slots_filled_example : ∃ envelope, ∀ children,
    Resolves oneLineJob envelope ⟨[⟨"lines", .str "first"⟩], [], 0⟩ children →
      Filled (slottedNode "lines") ⟨[⟨"lines", .str "first"⟩], [], 0⟩ oneLineJob children := by
  have hsettled : Settled (slottedNode "lines") ⟨[⟨"lines", .str "first"⟩], [], 0⟩ :=
    ⟨rfl, rfl, List.Subperm.refl ["lines"]⟩
  refine ⟨⟨1, "invoice.summary", .null, .flow, some [("lines", 1)]⟩, ?_⟩
  refine (slots_filled_iff (wellDefined_slotted noSeparator_lines)
    ⟨_, _, composeFlow_slotted "lines"⟩
    rfl rfl hsettled).2 (.inr ?_)
  intro slot hslot
  obtain rfl := List.mem_singleton.1 hslot
  exact ⟨1, rfl, fun _ => rfl⟩

/-- The node of a summary over two lines. -/
def twoLinesNode : FlowNode :=
  composedNode (slottedJob "lines") .null deliveryDefaults
    [("lines", [some ⟨"lines", lineNode⟩, some ⟨"lines", lineNode⟩])]

/-- Both lines returned a text. -/
def twoLinesState : FlowState := ⟨[⟨"lines", .str "first"⟩, ⟨"lines", .str "second"⟩], [], 0⟩

/-- **A slot that went from many to one drops a child**: a summary over two lines is delivered to a
definition whose slot takes one line, and the handler is handed the first of the two. -/
theorem slot_drops_child : WellDefined (slottedJob "lines") ∧
    defineJob oneLineJob = .ok oneLineJob ∧
    Composed (slottedJob "lines") twoLinesNode ∧ Settled twoLinesNode twoLinesState ∧
    ∃ stored envelope, storedData twoLinesNode.envelope = some stored ∧
      readEnvelope stored = .ok envelope ∧
      Resolves oneLineJob envelope twoLinesState [("lines", .str "first")] ∧
      ¬ Filled twoLinesNode twoLinesState oneLineJob [("lines", .str "first")] := by
  have hcomposed : Composed (slottedJob "lines") twoLinesNode :=
    ⟨.null, .obj [("lines", .arr [.null, .null])], rfl⟩
  have hsettled : Settled twoLinesNode twoLinesState :=
    ⟨rfl, rfl, List.Subperm.refl ["lines", "lines"]⟩
  have hshort : childrenShort oneLineJob (some [("lines", 2)]) twoLinesState = none := by
    refine childrenShort_eq_none_iff.2 ?_
    intro slot hslot
    obtain rfl := List.mem_singleton.1 hslot
    refine ⟨rfl, ?_⟩
    intro n hn
    obtain rfl : (2 : Number) = n := Value.num.inj hn
    exact Number.lt_natCast 2 2
  refine ⟨wellDefined_slotted noSeparator_lines, defineJob_oneLine, hcomposed, hsettled, _,
    ⟨1, "invoice.summary", .null, .flow, some [("lines", 2)]⟩, rfl, rfl, ?_, ?_⟩
  · exact (resolves_iff rfl rfl).2 ⟨fun _ => hshort, rfl⟩
  · intro hfilled
    obtain ⟨hslot, -⟩ := List.forall₂_cons.1 hfilled
    have hone : arrivedIn twoLinesState "lines" = 1 := hslot.fits
    exact absurd hone (by decide)

end Jubs
