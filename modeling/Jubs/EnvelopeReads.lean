/-
**What is read back of an envelope.**

An envelope is written as an object, stored as JSON and read back field by field.  The counts of a
parent's children are copied, one by one, into a fresh plain object and later looked up by the name
of a slot, and a plain object has properties nobody gave it.

Main definitions:

* `Jubs.Written` — the envelopes this library writes;
* `Jubs.ReadsBack` — an envelope that is read as it was written;
* `Jubs.Nameable`, `Jubs.NoNegative`, `Jubs.Unnamed` — what decides whether it is.

Main results:

* `Jubs.written_of_composed` — every node of a flow is written with such an envelope;
* `Jubs.slots_of_readEnvelope` — what is read as the counts of a stored value;
* `Jubs.envelope_kept_iff` — **when an envelope, its counts and their absence are read as they
  are**;
* `Jubs.envelope_lost` — an envelope, a count and an absence that are not.
-/

import Jubs.DeadRecord
import Jubs.FlowTree
import Jubs.NumberOrder

set_option autoImplicit false

namespace Jubs

/-! ### Written envelopes -/

/-- The counts of a parent whose slots were given so many children. -/
def countsOf (definition : JobDefinition) (count : Slot JobDefinition → ℕ) : Slots :=
  (slotsOf definition).map fun slot => (slot.name, .finite (count slot : ℕ))

/-- The envelopes this library writes: one for a job on its own, and one for a node of a flow that
waits on children, which counts the children of every slot. -/
inductive Written : Envelope → Prop
  | alone {definition : JobDefinition} (accepted : defineJob definition = .ok definition)
      (data : Value) (origin : Origin) : Written (writeEnvelope definition data origin)
  | node {definition : JobDefinition} (accepted : defineJob definition = .ok definition)
      (distinct : ((slotsOf definition).map Slot.name).Nodup) (data : Value)
      (count : Slot JobDefinition → ℕ) :
      Written { writeEnvelope definition data .flow with slots := some (countsOf definition count) }

/-- The payload version of an accepted definition is a finite number. -/
theorem payloadVersion_finite {definition : JobDefinition}
    (h : defineJob definition = .ok definition) : ∃ d, payloadVersion definition = .finite d := by
  obtain ⟨⟨⟩, hversioning, -⟩ := bind_eq_ok.1 h
  unfold assertVersioning at hversioning
  cases hversion : payloadVersion definition with
  | finite d => exact ⟨d, rfl⟩
  | nan => simp [hversion, Number.isInteger] at hversioning
  | infinity negative => simp [hversion, Number.isInteger] at hversioning

/-- The counts `composeFlow` writes are the places of each slot. -/
theorem counts_of_fills {slots : List (Slot JobDefinition)} {composing : Composing}
    (h : List.Forall₂ FillsSlot slots composing) (hdistinct : (slots.map Slot.name).Nodup) :
    (composing.map fun p => (p.1, Number.finite (p.2.length : ℕ))) = slots.map fun slot =>
      (slot.name, .finite (composing.placeCount slot.name : ℕ)) := by
  induction h with
  | nil => rfl
  | @cons first composed slots composing hfills hrest ih =>
      obtain ⟨name, nodes⟩ := composed
      obtain rfl := hfills.name
      obtain ⟨hnew, hdistinct⟩ := List.nodup_cons.1 hdistinct
      rw [List.map_cons, List.map_cons, ih hdistinct]
      refine List.cons_eq_cons.2 ⟨?_, List.map_congr_left ?_⟩
      · rw [placeCount_cons, if_pos rfl]
      · intro slot hslot
        have hne : slot.name ≠ first.name := by
          intro heq
          exact hnew (heq ▸ List.mem_map_of_mem hslot)
        rw [placeCount_cons, if_neg hne]

/-- **Every node of a flow is written with such an envelope.** -/
theorem written_of_composed {definition : JobDefinition} {node : FlowNode}
    (hdefined : WellDefined definition) (h : Composed definition node) : Written node.envelope := by
  obtain ⟨data, awaits, h⟩ := h
  obtain ⟨delivery, composing, hfills, rfl⟩ := composeFlow_eq_ok h
  obtain ⟨accepted, hdistinct, -⟩ := hdefined
  by_cases hcomposing : composing = []
  · rw [composedNode, if_pos hcomposing]
    exact .alone accepted data .flow
  · rw [composedNode, if_neg hcomposing, counts_of_fills hfills hdistinct]
    exact .node accepted hdistinct data fun slot => Composing.placeCount composing slot.name

/-- What is known of a written envelope: a finite version, and whole counts under distinct names. -/
theorem Written.shape {e : Envelope} (h : Written e) :
    (∃ d, e.v = .finite d) ∧ ∀ slots ∈ e.slots,
      (∀ p ∈ slots, p.2.isInteger = true) ∧ (slots.map Prod.fst).Nodup := by
  cases h with
  | alone accepted data origin =>
      refine ⟨payloadVersion_finite accepted, ?_⟩
      rintro slots ⟨⟩
  | @node definition accepted distinct data count =>
      refine ⟨payloadVersion_finite accepted, ?_⟩
      rintro slots ⟨⟩
      refine ⟨?_, by simpa [countsOf, Function.comp_def] using distinct⟩
      intro p hp
      obtain ⟨slot, -, rfl⟩ := List.mem_map.1 hp
      rfl

/-! ### Reading an envelope back -/

/-- A stored envelope with an empty name is refused. -/
theorem readEnvelope_unnamed {e read : Envelope} {stored : Value} (hname : e.name = "")
    (hstored : e.toValue.stored = some stored) : readEnvelope stored ≠ .ok read := by
  obtain ⟨fields, rfl⟩ := Value.eq_obj_of_stored hstored
  intro h
  obtain ⟨-, hread, hne, -⟩ := (readEnvelope_eq_ok_iff rfl).1 h
  have hget : (Value.obj fields).get "name" = .str e.name := by
    obtain ⟨v, name, data, origin, slots⟩ := e
    cases slots with
    | none =>
        rw [Value.get_stored (by simp) hstored]
        simp [List.lookup_cons]
    | some slots =>
        rw [Value.get_stored (by simp) hstored]
        simp [List.lookup_cons]
  rw [hget] at hread
  exact hne ((Value.str.inj hread).symm.trans hname)

/-- **What is read as the counts of a stored value**: nothing where it has none, and what is kept of
the counts of its record. -/
theorem slots_of_readEnvelope {stored : Value} {read : Envelope}
    (h : readEnvelope stored = .ok read) :
    (stored.get "slots" = .undefined ∧ read.slots = none) ∨
      ∃ counts : Slots, stored.get "slots" = .obj (countFields counts) ∧
        (∀ p ∈ counts, p.2.isInteger = true) ∧ read.slots = some (assigned counts) := by
  have hslots := readEnvelope_slots h
  cases hget : stored.get "slots" with
  | undefined =>
      rw [hget] at hslots
      exact Or.inl ⟨rfl, (Except.ok.inj hslots).symm⟩
  | obj fields =>
      rw [hget] at hslots
      obtain ⟨kept, hkept, hslots⟩ := bind_eq_ok.1 hslots
      obtain ⟨counts, rfl, hint, rfl⟩ := readCounts_eq_ok_iff.1 hkept
      exact Or.inr ⟨counts, rfl, hint, (Except.ok.inj hslots).symm⟩
  | _ =>
      rw [hget] at hslots
      obtain ⟨text, -, hslots⟩ := bind_eq_ok.1 hslots
      cases hslots

/-! ### When an envelope is read as it is -/

/-- An envelope that is read as it was written: its version, its name, its origin, what JSON keeps
of its payload, and the count of every slot. -/
structure ReadsBack (e read : Envelope) : Prop where
  version : read.v = e.v
  name : read.name = e.name
  origin : read.origin = e.origin
  data : read.data = e.data.stored.getD .undefined
  uncounted : e.slots = none → read.slots = none
  counts : ∀ slots ∈ e.slots, ∀ p ∈ slots, Envelope.declared read.slots p.1 = .num p.2

/-- An envelope whose names can be read back: its own is not empty, and no slot is named
`__proto__`. -/
def Nameable (e : Envelope) : Prop :=
  e.name ≠ "" ∧ ∀ slots ∈ e.slots, ∀ p ∈ slots, p.1 ≠ "__proto__"

/-- No count of a stored record is negative, but for one under `__proto__`. -/
def NoNegative (stored : Value) : Prop :=
  ∀ fields, stored.get "slots" = .obj fields → ∀ slot n, (slot, .num n) ∈ fields →
    slot ≠ "__proto__" → Number.le 0 n = true

/-- The counts of an envelope are numbers of children. -/
def CountsChildren (read : Envelope) : Prop :=
  ∀ slots ∈ read.slots, ∀ p ∈ slots, p.2.isInteger = true ∧ Number.le 0 p.2 = true

/-- A slot the stored record does not name. -/
def Unnamed (stored : Value) (slot : String) : Prop :=
  ∀ fields, stored.get "slots" = .obj fields → slot ∉ fields.map Prod.fst

/-- The count under a name that is given once is what a lookup finds. -/
theorem lookup_of_mem {slots : Slots} (hdistinct : (slots.map Prod.fst).Nodup) {p : String × Number}
    (hp : p ∈ slots) : slots.lookup p.1 = some p.2 := by
  obtain ⟨before, after, rfl⟩ := List.append_of_mem hp
  refine List.lookup_eq_some_iff.2 ⟨before, after, rfl, ?_⟩
  intro q hq
  simp only [List.map_append, List.map_cons, List.nodup_append] at hdistinct
  have hne : q.1 ≠ p.1 :=
    hdistinct.2.2 q.1 (List.mem_map_of_mem hq) p.1 (List.mem_cons_self)
  simpa using hne.symm

/-- When a written envelope is read as it was written. -/
theorem readsBack_iff {e : Envelope} {stored : Value} (hwritten : Written e)
    (hstored : e.toValue.stored = some stored) :
    (∃ read, readEnvelope stored = .ok read ∧ ReadsBack e read) ↔ Nameable e := by
  obtain ⟨⟨d, hv⟩, hslots⟩ := hwritten.shape
  by_cases hname : e.name = ""
  · constructor
    · rintro ⟨read, hread, -⟩
      exact absurd hread (readEnvelope_unnamed hname hstored)
    · rintro ⟨hne, -⟩
      exact absurd hname hne
  · rw [readEnvelope_toValue hv hname (fun slots h => (hslots slots h).1) hstored]
    constructor
    · rintro ⟨read, hread, hback⟩
      obtain rfl := Except.ok.inj hread
      refine ⟨hname, ?_⟩
      intro slots hmem p hp hproto
      have hcount := hback.counts slots hmem p hp
      obtain hmem : e.slots = some slots := hmem
      simp only [hmem, hproto, Option.map_some, declared_proto] at hcount
      cases hcount
    · rintro ⟨-, hproto⟩
      refine ⟨_, rfl, rfl, rfl, rfl, rfl, ?_, ?_⟩
      · intro hnone
        simp [hnone]
      · intro slots hmem p hp
        have hlookup : slots.lookup p.1 = some p.2 := lookup_of_mem (hslots slots hmem).2 hp
        have hne := hproto slots hmem p hp
        obtain hmem : e.slots = some slots := hmem
        simpa [hmem] using declared_of_ne hne hlookup

/-- When the counts that are read are numbers of children. -/
theorem countsChildren_iff {stored : Value} {read : Envelope} (h : readEnvelope stored = .ok read) :
    CountsChildren read ↔ NoNegative stored := by
  rcases slots_of_readEnvelope h with ⟨hget, hread⟩ | ⟨counts, hget, hint, hread⟩
  · constructor
    · intro _ fields hfields
      simp [hget] at hfields
    · intro _ slots hslots
      simp [hread] at hslots
  · constructor
    · intro hcounts fields hfields slot n hmem hne
      obtain rfl := Value.obj.inj (hget.symm.trans hfields)
      obtain ⟨p, hp, heq⟩ := List.mem_map.1 hmem
      obtain ⟨rfl, hn⟩ := Prod.mk.inj heq
      obtain rfl := Value.num.inj hn
      exact (hcounts _ hread p (List.mem_filter.2 ⟨hp, by simpa using hne⟩)).2
    · intro hneg slots hslots p hp
      obtain rfl := Option.some.inj (hread.symm.trans hslots)
      obtain ⟨hp, hne⟩ := List.mem_filter.1 hp
      exact ⟨hint p hp, hneg _ hget p.1 p.2 (List.mem_map.2 ⟨p, hp, rfl⟩) (by simpa using hne)⟩

/-- When a slot the record does not name reads as absent. -/
theorem absent_iff {stored : Value} {read : Envelope} {slot : String}
    (h : readEnvelope stored = .ok read) (hunnamed : Unnamed stored slot) :
    (Envelope.declared read.slots slot).isUndefined = true ↔
      stored.get "slots" = .undefined ∨ slot ≠ "__proto__" ∧ slot ∉ Value.inheritedMethods := by
  rcases slots_of_readEnvelope h with ⟨hget, hread⟩ | ⟨counts, hget, -, hread⟩
  · rw [hread]
    exact ⟨fun _ => Or.inl hget, fun _ => rfl⟩
  · have hlookup : (assigned counts).lookup slot = none := by
      rw [List.lookup_eq_none_iff]
      intro p hp
      have hp : p.1 ∈ (countFields counts).map Prod.fst := by
        rw [countFields, List.map_map]
        exact List.mem_map_of_mem (List.mem_filter.1 hp).1
      have hne : slot ≠ p.1 := fun heq => hunnamed _ hget (heq ▸ hp)
      simpa using hne
    rw [hread, hget]
    by_cases hproto : slot = "__proto__"
    · subst hproto
      simp [declared_proto, Value.isUndefined]
    · have hdeclared : Envelope.declared (some (assigned counts)) slot =
          if slot ∈ Value.inheritedMethods then Value.function slot else .undefined := by
        simp [Envelope.declared, Value.get, lookup_countFields, hlookup, Value.inherited, hproto]
      rw [hdeclared]
      split_ifs with hmethod
      · simp [hmethod, Value.isUndefined, Value.function]
      · simp [hproto, hmethod, Value.isUndefined]

/-- **When an envelope, its counts and their absence are read as they are.**  What is written is
read back unless its name is empty or a slot is named `__proto__`; the counts that are read are
numbers of children unless the stored record holds a negative one; and a slot the record does not
name reads as absent unless every object inherits a property of its name. -/
theorem envelope_kept_iff (stored : Value) :
    (∀ e, Written e → e.toValue.stored = some stored →
      ((∃ read, readEnvelope stored = .ok read ∧ ReadsBack e read) ↔ Nameable e)) ∧
    ∀ read, readEnvelope stored = .ok read → (CountsChildren read ↔ NoNegative stored) ∧
      ∀ slot, Unnamed stored slot → ((Envelope.declared read.slots slot).isUndefined = true ↔
        stored.get "slots" = .undefined ∨ slot ≠ "__proto__" ∧ slot ∉ Value.inheritedMethods) :=
  ⟨fun _ hwritten hstored => readsBack_iff hwritten hstored,
    fun _ hread => ⟨countsChildren_iff hread, fun _ hunnamed => absent_iff hread hunnamed⟩⟩

/-! ### An envelope that is read as another -/

/-- A job that waits on many lines, in a slot of any name. -/
def linesJob (slot : String) : JobDefinition :=
  { lineJob with name := "invoice.send", awaits := [⟨slot, true, lineJob⟩] }

/-- Its envelope, for so many lines. -/
def linesEnvelope (slot : String) (count : ℕ) : Envelope :=
  { writeEnvelope (linesJob slot) .null .flow with
    slots := some (countsOf (linesJob slot) fun _ => count) }

/-- What such an envelope is stored as, where the record of its counts is as given. -/
def storedLines (counts : List (String × Value)) : Value :=
  .obj [("v", .num 1), ("name", .str "invoice.send"), ("data", .null), ("origin", .str "flow"),
    ("slots", .obj counts)]

theorem written_linesEnvelope {slot : String}
    (h : assertAwaits (linesJob slot) = .ok ()) (count : ℕ) : Written (linesEnvelope slot count) :=
  .node (defineJob_unversioned rfl rfl rfl h) (List.nodup_singleton slot) .null fun _ => count

theorem read_storedLines : readEnvelope (storedLines [("lines", .num 2)]) =
    .ok ⟨1, "invoice.send", .null, .flow, some [("lines", 2)]⟩ := rfl

theorem wellDefined_linesJob {slot : String} (h : assertAwaits (linesJob slot) = .ok ()) :
    WellDefined (linesJob slot) := by
  refine .intro (defineJob_unversioned rfl rfl rfl h) (List.nodup_singleton slot) ?_
  intro s hs
  obtain rfl := List.mem_singleton.1 hs
  exact .intro (defineJob_plain rfl rfl rfl rfl) List.nodup_nil fun s hs => by cases hs

/-- Of a flow of two lines, the count of the slot `lines` is kept, and every other slot is
absent. -/
theorem envelope_kept_example :
    (∃ read, readEnvelope (storedLines [("lines", .num 2)]) = .ok read ∧
      ReadsBack (linesEnvelope "lines" 2) read) ∧
    ∃ read, readEnvelope (storedLines [("lines", .num 2)]) = .ok read ∧ CountsChildren read ∧
      (Envelope.declared read.slots "extras").isUndefined = true := by
  let line : FlowChild FlowNode :=
    ⟨"lines", ⟨"mail", writeEnvelope lineJob .null .flow, deliveryDefaults, []⟩⟩
  have hcomposed : Composed (linesJob "lines")
      ⟨"mail", linesEnvelope "lines" 2, deliveryDefaults, [line, line]⟩ :=
    ⟨.null, .obj [("lines", .arr [.null, .null])], rfl⟩
  have hwritten : Written (linesEnvelope "lines" 2) :=
    written_of_composed (wellDefined_linesJob rfl) hcomposed
  refine ⟨((envelope_kept_iff _).1 _ hwritten rfl).2 ⟨by decide, by decide⟩,
    _, read_storedLines, ?_, ?_⟩
  · refine ((envelope_kept_iff _).2 _ read_storedLines).1.2 ?_
    rintro fields ⟨⟩ slot n hmem -
    obtain ⟨-, hn⟩ := Prod.mk.inj (List.mem_singleton.1 hmem)
    obtain rfl := Value.num.inj hn
    exact (Number.le_natCast 0 2).trans (by decide)
  · refine (((envelope_kept_iff _).2 _ read_storedLines).2 "extras" ?_).2 (Or.inr (by decide))
    rintro fields ⟨⟩
    decide

/-- **What is not read as it is**: the count of a slot named `__proto__` is lost; a record that
counts minus one line is accepted, and a record that counts nothing for a slot named `toString`
reads a function there, so that a job without a single child is not refused as short. -/
theorem envelope_lost :
    (Written (linesEnvelope "__proto__" 2) ∧ ∃ read,
      (linesEnvelope "__proto__" 2).toValue.stored = some (storedLines [("__proto__", .num 2)]) ∧
      readEnvelope (storedLines [("__proto__", .num 2)]) = .ok read ∧
      childrenShort (linesJob "__proto__") read.slots ⟨[], [], 0⟩ = none ∧
      ¬ ReadsBack (linesEnvelope "__proto__" 2) read) ∧
    (∃ read, readEnvelope (storedLines [("lines", .num (.finite (.ofInt (-1))))]) = .ok read ∧
      childrenShort (linesJob "lines") read.slots ⟨[], [], 0⟩ = none ∧ ¬ CountsChildren read) ∧
    ∃ read, readEnvelope (storedLines []) = .ok read ∧ Unnamed (storedLines []) "toString" ∧
      childrenShort (linesJob "toString") read.slots ⟨[], [], 0⟩ = none ∧
      Envelope.declared read.slots "toString" = Value.function "toString" := by
  refine ⟨⟨written_linesEnvelope rfl 2, _, rfl, rfl, rfl, ?_⟩, ⟨_, rfl, ?_, ?_⟩, _, rfl,
    ?_, rfl, rfl⟩
  · intro hback
    have hcount := hback.counts _ rfl ("__proto__", 2) List.mem_cons_self
    cases hcount
  · rw [childrenShort_eq_none_iff]
    intro slot hslot
    obtain rfl := List.mem_singleton.1 hslot
    refine ⟨rfl, ?_⟩
    rintro n ⟨⟩
    simp [Number.lt, arrivedIn]
  · intro hcounts
    have hnegative := (hcounts _ rfl _ List.mem_cons_self).2
    norm_num [Number.le] at hnegative
  · rintro fields ⟨⟩
    exact List.not_mem_nil

end Jubs
