/-
**The tree a flow is enqueued as.**

A job that waits on children is enqueued with everything that fills its slots.  The whole tree is
composed before a driver sees it: every payload is validated, every delivery is resolved, and every
node that waits on something carries how many children each of its slots was given.

Main definitions:

* `Jubs.FlowNode`, `Jubs.FlowChild` — the tree;
* `Jubs.assertAwaitsInput` — what fills the slots of a job, or the error that refuses it;
* `Jubs.composeFlow` — the tree of a definition, a payload and what fills its slots;
* `Jubs.toFlowOptions`, `Jubs.toDependentOptions` — the options BullMQ stores a node with;
* `Jubs.WellDefined` — a definition that `defineJob` accepted, down to the last slot.

Main results:

* `Jubs.composeFlow_eq_ok_iff` — when a tree is composed;
* `Jubs.composeFlow_eq` — **what `composeFlow` builds**: children that fill declared slots and were
  composed from the definitions of those slots, and an envelope that counts them.
-/

import Jubs.Children
import Jubs.JobId
import Jubs.JobsOptions
import Mathlib.Data.List.ReduceOption

set_option autoImplicit false

namespace Jubs

/-- One child of a flow, under the slot it fills. -/
structure FlowChild (ν : Type) where
  slot : String
  node : ν

/-- One node of a flow. -/
structure FlowNode where
  queue : String
  envelope : Envelope
  delivery : Delivery
  children : List (FlowChild FlowNode)

/-! ### What fills the slots -/

/-- `isRecord(value)`. -/
def isRecord : Value → Bool
  | .obj _ | .other _ _ => true
  | _ => false

/-- What a missing third argument is refused with. -/
def nothingPassedError (definition : JobDefinition) : Thrown :=
  plainError ("jubs: the job \"" ++ definition.name ++ "\" waits on the slots " ++
    listed ((slotsOf definition).map Slot.name) ++ ", and this enqueue passed nothing for them " ++
    "— jobs.enqueue(definition, data, awaits) takes what fills every slot as its third argument")
      none

/-- What an input that leaves slots empty is refused with. -/
def missingSlotsError (definition : JobDefinition) (missing : List String) : Thrown :=
  plainError ("jubs: the job \"" ++ definition.name ++ "\" waits on the slots " ++
    listed ((slotsOf definition).map Slot.name) ++ ", and this enqueue passed nothing for " ++
    listed missing ++ " — every slot a definition declares is filled at enqueue, because a flow " ++
    "enqueued short would run this job over an input it never had") none

/-- What a slot given one value for many, or many for one, is refused with. -/
def strayArityError (definition : JobDefinition) (stray : Slot JobDefinition) : Thrown :=
  let runs := "\"" ++ stray.definition.name ++ "\" in the slot \"" ++ stray.name ++ "\""
  if stray.many then
    plainError ("jubs: the job \"" ++ definition.name ++ "\" waits on many of " ++ runs ++
      ", and this enqueue passed one value — fill that slot with an array, or drop the array " ++
      "around the definition the slot declares to wait on exactly one") none
  else
    plainError ("jubs: the job \"" ++ definition.name ++ "\" waits on exactly one " ++ runs ++
      ", and this enqueue passed an array — fill that slot with a single value, or wrap the " ++
      "definition the slot declares in an array to wait on many") none

/-- `assertAwaitsInput(definition, awaits)`. -/
def assertAwaitsInput (definition : JobDefinition) (awaits : Value) : Except Thrown Value :=
  if slotsOf definition = [] then .ok (.obj [])
  else if !isRecord awaits then .error (nothingPassedError definition)
  else
    let missing := (slotsOf definition).filter fun slot => (awaits.get slot.name).isUndefined
    if missing ≠ [] then .error (missingSlotsError definition (missing.map Slot.name))
    else
      match (slotsOf definition).find? fun slot => slot.many != (awaits.get slot.name).isArray with
      | none => .ok awaits
      | some stray => .error (strayArityError definition stray)

/-- `childInput(slot, given)`: the payload of a child, and what fills its own slots. -/
def childInput (slot : Slot JobDefinition) (given : Value) : Value × Value :=
  if slotsOf slot.definition = [] then (given, .undefined)
  else if isRecord given then (given.get "data", given.get "awaits")
  else (.undefined, .undefined)

/-! ### Composing -/

/-- Composes the node of one definition. -/
abbrev Composer : Type := Value → Value → Except Thrown FlowNode

/-- `composeChild(slot, given)`, where `compose` composes the definition of the slot. -/
def composeChild (slot : Slot JobDefinition) (compose : Composer) (given : Value) :
    Except Thrown (FlowChild FlowNode) := do
  let node ← compose (childInput slot given).1 (childInput slot given).2
  return ⟨slot.name, node⟩

/-- What a slot of many is refused with when it holds no array. -/
def unprovedArrayError (slot : Slot JobDefinition) : Thrown :=
  plainError ("jubs: the slot \"" ++ slot.name ++ "\", which waits on many of \"" ++
    slot.definition.name ++ "\", was given what is not the array its enqueue proved") none

/-- What `map` makes of one place of an array: nothing of a place that was never set. -/
def composePlace (slot : Slot JobDefinition) (compose : Composer) :
    Option Value → Except Thrown (Option (FlowChild FlowNode))
  | none => return none
  | some given => some <$> composeChild slot compose given

/-- `composeSlot(slot, awaits)`, where `compose` composes the definition of the slot.  The array it
gives back has a place for each place of the array it was given. -/
def composeSlot (slot : Slot JobDefinition) (compose : Composer) (awaits : Value) :
    Except Thrown (List (Option (FlowChild FlowNode))) :=
  let given := awaits.get slot.name
  if !slot.many then do
    let child ← composeChild slot compose given
    return [some child]
  else
    match given.places with
    | some places => places.mapM (composePlace slot compose)
    | none => .error (unprovedArrayError slot)

/-- What a definition that declares `unique` is refused with inside a flow. -/
def uniqueInFlowError (definition : JobDefinition) : Thrown :=
  plainError ("jubs: the job \"" ++ definition.name ++ "\" declares `unique` and takes part in " ++
    "a flow — uniqueness does not apply inside a flow, at any position, so drop `unique` from " ++
    "its delivery or enqueue that job on its own with jobs.enqueue") none

/-- The slots of a node, each with its name and the places of its nodes. -/
abbrev Composing : Type := List (String × List (Option (FlowChild FlowNode)))

/-- `composing.flatMap((slot) => slot.nodes)`, which passes over a place that was never set. -/
def Composing.children (composing : Composing) : List (FlowChild FlowNode) :=
  composing.flatMap fun slot => slot.2.reduceOption

/-- `slot.nodes.length`, for the slot of a name. -/
def Composing.placeCount (composing : Composing) (name : String) : ℕ :=
  ((composing.lookup name).getD []).length

/-- The node of a definition whose slots were composed.  A slot counts its places. -/
def composedNode (definition : JobDefinition) (data : Value) (delivery : Delivery)
    (composing : Composing) : FlowNode where
  queue := definition.queue
  envelope :=
    { writeEnvelope definition data .flow with
      slots := if composing = [] then none
        else some (composing.map fun slot => (slot.1, .finite (slot.2.length : ℕ))) }
  delivery := delivery
  children := composing.children

mutual

/-- `composeFlow(definition, data, awaits)`.  The children of a node settle in the order they were
written. -/
def composeFlow : JobDefinition → Composer
  | ⟨name, queue, payload, result, slots, version, migrations, delivery, schedule, idempotencyKey,
      timeoutMs⟩, data, awaits => do
      let definition : JobDefinition := ⟨name, queue, payload, result, slots, version, migrations,
        delivery, schedule, idempotencyKey, timeoutMs⟩
      let filled ← assertAwaitsInput definition awaits
      let validated ← validatePayload definition data
      let delivery ← resolveDelivery definition validated
      if delivery.unique.isSome then throw (uniqueInFlowError definition)
      let composing ← composeSlots slots filled
      return composedNode definition data delivery composing

/-- The nodes of every slot, under its name. -/
def composeSlots : List (Slot JobDefinition) → Value → Except Thrown Composing
  | [], _ => return []
  | ⟨name, many, definition⟩ :: slots, awaits => do
      let nodes ← composeSlot ⟨name, many, definition⟩ (composeFlow definition) awaits
      let composing ← composeSlots slots awaits
      return (name, nodes) :: composing

end

/-! ### The options of a node -/

/-- The options of `toFlowJob(node)`. -/
def toFlowOptions (node : FlowNode) : JobsOptions := toJobsOptions node.delivery

/-- The options of `toDependentFlowJob(child)`, with the random half of the id it draws. -/
def toDependentOptions (child : FlowChild FlowNode) (uuid : Uuid) : JobsOptions :=
  { toFlowOptions child.node with
    jobId := some (composeChildId child.slot uuid)
    ignoreDependencyOnFailure := true }

/-! ### What is composed -/

/-- A definition that `defineJob` accepted, whose slots have distinct names, as the properties of
one object have, and whose slots declare such definitions again. -/
inductive WellDefined : JobDefinition → Prop
  | intro {definition : JobDefinition} (accepted : defineJob definition = .ok definition)
      (distinct : ((slotsOf definition).map Slot.name).Nodup)
      (slots : ∀ slot ∈ slotsOf definition, WellDefined slot.definition) : WellDefined definition

/-- A node that `composeFlow` builds for a definition. -/
def Composed (definition : JobDefinition) (node : FlowNode) : Prop :=
  ∃ data awaits, composeFlow definition data awaits = .ok node

/-- The nodes of one slot: each fills it and was composed from its definition, and a slot of one
holds one. -/
structure FillsSlot (slot : Slot JobDefinition)
    (composing : String × List (Option (FlowChild FlowNode))) : Prop where
  name : composing.1 = slot.name
  children : ∀ child, some child ∈ composing.2 →
    child.slot = slot.name ∧ Composed slot.definition child.node
  one : slot.many = false → ∃ child, composing.2 = [some child]

/-- What stands on the right of a pairing stands opposite something on the left. -/
theorem exists_of_forall₂ {α β : Type} {R : α → β → Prop} {l : List α} {l' : List β}
    (h : List.Forall₂ R l l') {b : β} (hb : b ∈ l') : ∃ a ∈ l, R a b := by
  induction h with
  | nil => cases hb
  | cons hab _ ih =>
      rcases List.mem_cons.1 hb with rfl | hb
      · exact ⟨_, List.mem_cons_self, hab⟩
      · obtain ⟨a, ha, hR⟩ := ih hb
        exact ⟨a, List.mem_cons_of_mem _ ha, hR⟩

theorem composeChild_eq_ok {slot : Slot JobDefinition} {given : Value} {child : FlowChild FlowNode}
    (h : composeChild slot (composeFlow slot.definition) given = .ok child) :
    child.slot = slot.name ∧ Composed slot.definition child.node := by
  obtain ⟨node, hnode, h⟩ := bind_eq_ok.1 h
  obtain rfl := Except.ok.inj h
  exact ⟨rfl, _, _, hnode⟩

/-- A child stands where something was given for it. -/
theorem composePlace_eq_some {slot : Slot JobDefinition} {compose : Composer} {place : Option Value}
    {child : FlowChild FlowNode} : composePlace slot compose place = .ok (some child) ↔
      ∃ given, place = some given ∧ composeChild slot compose given = .ok child := by
  cases place with
  | none => simp [composePlace, pure, Except.pure]
  | some given => cases h : composeChild slot compose given <;> simp [composePlace, h]

theorem composeSlot_eq_ok {slot : Slot JobDefinition} {awaits : Value}
    {nodes : List (Option (FlowChild FlowNode))}
    (h : composeSlot slot (composeFlow slot.definition) awaits = .ok nodes) :
    FillsSlot slot (slot.name, nodes) := by
  unfold composeSlot at h
  split at h
  · obtain ⟨child, hchild, h⟩ := bind_eq_ok.1 h
    obtain rfl := Except.ok.inj h
    refine ⟨rfl, ?_, fun _ => ⟨child, rfl⟩⟩
    intro c hc
    obtain rfl := Option.some.inj (List.mem_singleton.1 hc)
    exact composeChild_eq_ok hchild
  · rename_i hmany
    have hmany : slot.many = true := by simpa using hmany
    simp only at h
    split at h
    · refine ⟨rfl, ?_, ?_⟩
      · intro c hc
        obtain ⟨place, -, hplace⟩ := exists_of_forall₂ (forall₂_of_mapM_eq_ok h) hc
        obtain ⟨given, -, hgiven⟩ := composePlace_eq_some.1 hplace
        exact composeChild_eq_ok hgiven
      · intro hone
        simp [hmany] at hone
    · cases h

theorem composeSlots_eq_ok {slots : List (Slot JobDefinition)} {awaits : Value}
    {composing : Composing}
    (h : composeSlots slots awaits = .ok composing) : List.Forall₂ FillsSlot slots composing := by
  induction slots generalizing composing with
  | nil =>
      obtain rfl := Except.ok.inj h
      exact .nil
  | cons slot slots ih =>
      obtain ⟨nodes, hnodes, h⟩ := bind_eq_ok.1 h
      obtain ⟨rest, hrest, h⟩ := bind_eq_ok.1 h
      obtain rfl := Except.ok.inj h
      exact .cons (composeSlot_eq_ok hnodes) (ih hrest)

/-- **When a tree is composed, and what it is**: the slots are filled, the payload and the delivery
are accepted, the delivery is not unique, and every slot is composed. -/
theorem composeFlow_eq_ok_iff {definition : JobDefinition} {data awaits : Value} {node : FlowNode} :
    composeFlow definition data awaits = .ok node ↔
      ∃ filled validated delivery composing, assertAwaitsInput definition awaits = .ok filled ∧
        validatePayload definition data = .ok validated ∧
        resolveDelivery definition validated = .ok delivery ∧ delivery.unique = none ∧
        composeSlots (slotsOf definition) filled = .ok composing ∧
        node = composedNode definition data delivery composing := by
  constructor
  · intro h
    cases definition
    rw [composeFlow] at h
    obtain ⟨filled, hfilled, h⟩ := bind_eq_ok.1 h
    obtain ⟨validated, hvalidated, h⟩ := bind_eq_ok.1 h
    obtain ⟨delivery, hdelivery, h⟩ := bind_eq_ok.1 h
    split at h
    · cases h
    · rename_i hunique
      obtain ⟨composing, hcomposing, h⟩ := bind_eq_ok.1 h
      exact ⟨filled, validated, delivery, composing, hfilled, hvalidated, hdelivery,
        by simpa using hunique, hcomposing, (Except.ok.inj h).symm⟩
  · rintro ⟨filled, validated, delivery, composing, hfilled, hvalidated, hdelivery, hunique,
      hcomposing, rfl⟩
    cases definition
    rw [composeFlow]
    refine bind_eq_ok.2 ⟨filled, hfilled, bind_eq_ok.2 ⟨validated, hvalidated,
      bind_eq_ok.2 ⟨delivery, hdelivery, ?_⟩⟩⟩
    simp only [hunique, Option.isSome_none]
    exact bind_eq_ok.2 ⟨composing, hcomposing, rfl⟩

theorem composeFlow_eq_ok {definition : JobDefinition} {data awaits : Value} {node : FlowNode}
    (h : composeFlow definition data awaits = .ok node) :
    ∃ delivery composing, List.Forall₂ FillsSlot (slotsOf definition) composing ∧
      node = composedNode definition data delivery composing := by
  obtain ⟨filled, validated, delivery, composing, -, -, -, -, hcomposing, hnode⟩ :=
    composeFlow_eq_ok_iff.1 h
  exact ⟨delivery, composing, composeSlots_eq_ok hcomposing, hnode⟩

/-! ### Counting the children of a node -/

/-- How many of some children fill a slot. -/
def childCount (children : List (FlowChild FlowNode)) (slot : String) : ℕ :=
  children.countP fun child => child.slot = slot

theorem childCount_append (l l' : List (FlowChild FlowNode)) (slot : String) :
    childCount (l ++ l') slot = childCount l slot + childCount l' slot := List.countP_append

/-- Children that all fill one slot count for that slot only. -/
theorem childCount_eq {l : List (FlowChild FlowNode)} {name : String}
    (h : ∀ child ∈ l, child.slot = name) (slot : String) :
    childCount l slot = if slot = name then l.length else 0 := by
  unfold childCount
  split_ifs with hslot
  · exact List.countP_eq_length.2 fun child hc => by simp [h child hc, hslot]
  · refine List.countP_eq_zero.2 ?_
    intro child hc
    simpa [h child hc] using Ne.symm hslot

/-- The children of the first slot come first. -/
theorem children_cons (composed : String × List (Option (FlowChild FlowNode)))
    (composing : Composing) : Composing.children (composed :: composing) =
      composed.2.reduceOption ++ composing.children := List.flatMap_cons

theorem FillsSlot.childCount {slot : Slot JobDefinition}
    {composed : String × List (Option (FlowChild FlowNode))} (h : FillsSlot slot composed)
    (name : String) : childCount composed.2.reduceOption name =
      if name = slot.name then composed.2.reduceOption.length else 0 :=
  childCount_eq (fun child hc => (h.children child (List.reduceOption_mem_iff.1 hc)).1) name

theorem placeCount_cons (first : String) (nodes : List (Option (FlowChild FlowNode)))
    (composing : Composing) (name : String) :
    Composing.placeCount ((first, nodes) :: composing) name =
      if name = first then nodes.length else composing.placeCount name := by
  unfold Composing.placeCount
  by_cases h : name = first
  · rw [h, List.lookup_cons_self, if_pos rfl]
    rfl
  · rw [List.lookup_cons, beq_eq_false_iff_ne.2 h, if_neg h]

/-- Slots of other names hold no child of a slot. -/
theorem childCount_eq_zero {slots : List (Slot JobDefinition)} {composing : Composing}
    (h : List.Forall₂ FillsSlot slots composing) {name : String}
    (hname : name ∉ slots.map Slot.name) : childCount composing.children name = 0 := by
  induction h with
  | nil => rfl
  | cons hfills hrest ih =>
      simp only [List.map_cons, List.mem_cons, not_or] at hname
      rw [children_cons, childCount_append, ih hname.2, hfills.childCount, if_neg hname.1]

/-- The children of a slot are what its places hold. -/
theorem childCount_of_fills {R : Slot JobDefinition → String × List (Option (FlowChild FlowNode)) →
    Prop} (hfills : ∀ slot composed, R slot composed → FillsSlot slot composed)
    {slots : List (Slot JobDefinition)} {composing : Composing}
    (h : List.Forall₂ R slots composing) (hdistinct : (slots.map Slot.name).Nodup)
    {slot : Slot JobDefinition} (hslot : slot ∈ slots) :
    ∃ nodes, R slot (slot.name, nodes) ∧ composing.placeCount slot.name = nodes.length ∧
      (composing.map fun p => (p.1, Number.finite (p.2.length : ℕ))).lookup slot.name =
        some (.finite (nodes.length : ℕ)) ∧
      childCount composing.children slot.name = nodes.reduceOption.length := by
  induction h with
  | nil => cases hslot
  | @cons first composed slots composing hfirst hrest ih =>
      obtain ⟨name, nodes⟩ := composed
      have hfill := hfills _ _ hfirst
      obtain rfl : name = first.name := hfill.name
      rw [List.map_cons, List.nodup_cons] at hdistinct
      rw [children_cons, childCount_append, hfill.childCount, placeCount_cons, List.map_cons]
      rcases List.mem_cons.1 hslot with rfl | hslot
      · refine ⟨nodes, hfirst, if_pos rfl, List.lookup_cons_self, ?_⟩
        rw [childCount_eq_zero (hrest.imp hfills) hdistinct.1, if_pos rfl, Nat.add_zero]
      · have hne : slot.name ≠ first.name := by
          intro heq
          exact hdistinct.1 (heq ▸ List.mem_map_of_mem hslot)
        obtain ⟨nodes', hnodes', hplaces, hlookup, hcount⟩ := ih hdistinct.2 hslot
        refine ⟨nodes', hnodes', ?_, ?_, ?_⟩
        · rw [if_neg hne, hplaces]
        · rw [List.lookup_cons, beq_eq_false_iff_ne.2 hne]
          exact hlookup
        · rw [if_neg hne, Nat.zero_add, hcount]

/-- What the envelope of a node says of its children: nothing when its definition waits on nothing,
and otherwise a number for every slot, which no slot has more children than. -/
structure Counted (definition : JobDefinition) (node : FlowNode) : Prop where
  leaf : slotsOf definition = [] → node.children = []
  counts : slotsOf definition ≠ [] → ∃ slots, node.envelope.slots = some slots ∧
    (∀ p ∈ slots, p.2.isInteger = true) ∧ ∀ slot ∈ slotsOf definition, ∃ count : ℕ,
      slots.lookup slot.name = some (.finite count) ∧ childCount node.children slot.name ≤ count ∧
        (slot.many = false → count = 1)
  one : ∀ slot ∈ slotsOf definition, slot.many = false → childCount node.children slot.name = 1

/-- **What `composeFlow` builds.** -/
theorem composeFlow_eq {definition : JobDefinition} {node : FlowNode}
    (hdefined : WellDefined definition) (h : Composed definition node) :
    node.queue = definition.queue ∧ node.envelope.name = definition.name ∧
      node.envelope.origin = .flow ∧ Counted definition node ∧
      ∀ child ∈ node.children, ∃ slot ∈ slotsOf definition,
        child.slot = slot.name ∧ Composed slot.definition child.node := by
  obtain ⟨data, awaits, h⟩ := h
  obtain ⟨delivery, composing, hfills, rfl⟩ := composeFlow_eq_ok h
  obtain ⟨-, hdistinct, -⟩ := hdefined
  refine ⟨rfl, rfl, rfl, ⟨?_, ?_, ?_⟩, ?_⟩
  · intro hnil
    rw [hnil] at hfills
    obtain rfl := List.forall₂_nil_left_iff.1 hfills
    rfl
  · intro hslots
    have hcomposing : composing ≠ [] := by
      rintro rfl
      exact hslots (List.forall₂_nil_right_iff.1 hfills)
    refine ⟨_, if_neg hcomposing, ?_, ?_⟩
    · intro p hp
      obtain ⟨slot, -, rfl⟩ := List.mem_map.1 hp
      rfl
    · intro slot hslot
      obtain ⟨nodes, hfill, -, hlookup, hcount⟩ :=
        childCount_of_fills (fun _ _ h => h) hfills hdistinct hslot
      refine ⟨nodes.length, hlookup, hcount.trans_le (List.reduceOption_length_le nodes), ?_⟩
      intro hone
      obtain ⟨child, rfl⟩ : ∃ child, nodes = [some child] := hfill.one hone
      rfl
  · intro slot hslot hone
    obtain ⟨nodes, hfill, -, -, hcount⟩ := childCount_of_fills (fun _ _ h => h) hfills
      hdistinct hslot
    obtain ⟨child, rfl⟩ : ∃ child, nodes = [some child] := hfill.one hone
    exact hcount
  · intro child hchild
    obtain ⟨composed, hcomposed, hchild⟩ := List.mem_flatMap.1 hchild
    obtain ⟨slot, hslot, hfill⟩ := exists_of_forall₂ hfills hcomposed
    exact ⟨slot, hslot, hfill.children child (List.reduceOption_mem_iff.1 hchild)⟩

end Jubs
