/-
**The envelope every job is stored as.**

An envelope carries the payload, its version, the name of its definition, what enqueued it, and
for a job that waits on children how many children each slot was given.  It is stored as JSON and
read back with every field checked.

Main definitions:

* `Jubs.Origin`, `Jubs.Envelope`, `Jubs.writeEnvelope` — envelopes;
* `Jubs.readSlots`, `Jubs.readEnvelope` — reading what is stored;
* `Jubs.Envelope.toValue`, `Jubs.Envelope.declared` — the object an envelope is, and the count a
  slot was given as a property of it.

Main results:

* `Jubs.readSlots_counts` — counts read back as they were written, except one under `__proto__`;
* `Jubs.readCounts_eq_ok_iff` — which stored counts are accepted, and what is kept of them;
* `Jubs.declared_of_ne`, `Jubs.declared_proto` — **what a slot reads as its count**: the number
  written, unless the slot is named `__proto__`, which reads the prototype of every object.
-/

import Jubs.Definition

set_option autoImplicit false

namespace Jubs

/-- What made a job exist. -/
inductive Origin where
  | direct
  | schedule
  | flow
  | relay
deriving DecidableEq

/-- The text an origin is stored as. -/
def Origin.text : Origin → String
  | .direct => "direct"
  | .schedule => "schedule"
  | .flow => "flow"
  | .relay => "relay"

/-- `ORIGINS`. -/
def origins : List Origin := [.direct, .schedule, .flow, .relay]

/-- The counts of a parent's children, as the properties of a plain object. -/
abbrev Slots : Type := List (String × Number)

/-- The envelope of one job. -/
structure Envelope where
  v : Number
  name : String
  data : Value
  origin : Origin
  slots : Option Slots

/-- `new EnvelopeError(reason)`. -/
def envelopeError (reason : String) : Thrown :=
  newError .plain "EnvelopeError" ("jubs: the stored job is not a jubs envelope — " ++ reason)
    none none

/-- `JSON.stringify(value)` inside a message. -/
def jsonText (v : Value) : Except Thrown String :=
  match stringify v with
  | some text => .ok (text.getD "undefined")
  | none => .error typeError

/-- The origin a stored text names. -/
def isOrigin : Value → Option Origin
  | .str s => origins.find? fun o => o.text = s
  | _ => none

/-- A count that is a whole number. -/
def wholeCount : Value → Option Number
  | .num n => if n.isInteger then some n else none
  | _ => none

/-- The loop of `readSlots`, over the entries of the stored object.  The record it fills is a plain
object, whose property `__proto__` is not written by an assignment of a number. -/
def readCounts : List (String × Value) → Except Thrown Slots
  | [] => .ok []
  | (slot, count) :: counts =>
      match wholeCount count with
      | none => do
          let text ← jsonText count
          throw (envelopeError ("its child count for the slot \"" ++ slot ++ "\" is " ++ text ++
            ", which is not a whole number of children"))
      | some n => do
          let whole ← readCounts counts
          return if slot = "__proto__" then whole else (slot, n) :: whole

/-- `readSlots(stored)`. -/
def readSlots : Value → Except Thrown (Option Slots)
  | .undefined => .ok none
  | .obj fields => some <$> readCounts fields
  | stored => do
      let text ← jsonText stored
      throw (envelopeError ("its child counts " ++ text ++ " are not an object"))

/-- `typeof value`. -/
def typeOf : Value → String
  | .undefined => "undefined"
  | .bool _ => "boolean"
  | .num _ => "number"
  | .str _ => "string"
  | .null | .arr _ | .sparse _ | .obj _ | .other _ _ => "object"

/-- `readEnvelope(stored)`. -/
def readEnvelope (stored : Value) : Except Thrown Envelope :=
  match stored with
  | .undefined | .null | .bool _ | .num _ | .str _ =>
      .error (envelopeError ("expected an object, got " ++ typeOf stored))
  | _ =>
      match stored.get "v", stored.get "name", isOrigin (stored.get "origin") with
      | .num v, .str name, origin =>
          if name = "" then .error (envelopeError "its job name is missing")
          else match origin with
            | some origin => do
                let slots ← readSlots (stored.get "slots")
                return ⟨v, name, stored.get "data", origin, slots⟩
            | none => do
                let text ← jsonText (stored.get "origin")
                throw (envelopeError ("its origin " ++ text ++ " is not a known origin"))
      | .num _, _, _ => .error (envelopeError "its job name is missing")
      | _, _, _ => .error (envelopeError "its payload version `v` is missing")

/-- `writeEnvelope(definition, data, origin)`. -/
def writeEnvelope (definition : JobDefinition) (data : Value) (origin : Origin) : Envelope where
  v := payloadVersion definition
  name := definition.name
  data := data
  origin := origin
  slots := none

/-! ### The counts of a parent's children -/

/-- Counts as the properties of an object. -/
def countFields (slots : Slots) : List (String × Value) := slots.map fun p => (p.1, .num p.2)

/-- The object an envelope is. -/
def Envelope.toValue (e : Envelope) : Value :=
  .obj ([("v", .num e.v), ("name", .str e.name), ("data", e.data),
    ("origin", .str e.origin.text)] ++
    (e.slots.map fun slots => ("slots", .obj (countFields slots))).toList)

/-- `declared?.[slot]`: the count a slot reads in the counts of an envelope. -/
def Envelope.declared (slots : Option Slots) (slot : String) : Value :=
  match slots with
  | none => .undefined
  | some slots => (Value.obj (countFields slots)).get slot

/-- The counts that are left after each was assigned to a property of a plain object. -/
def assigned (slots : Slots) : Slots := slots.filter fun p => p.1 != "__proto__"

/-- Counts read back as they were written, except one under `__proto__`. -/
theorem readSlots_counts {slots : Slots} (h : ∀ p ∈ slots, p.2.isInteger = true) :
    readCounts (countFields slots) = .ok (assigned slots) := by
  induction slots with
  | nil => rfl
  | cons p slots ih =>
      obtain ⟨slot, n⟩ := p
      have hn : n.isInteger = true := h _ List.mem_cons_self
      have ih := ih fun p hp => h p (List.mem_cons_of_mem _ hp)
      by_cases hslot : slot = "__proto__" <;>
        simp [assigned, countFields, readCounts, wholeCount, hn, hslot, pure, Except.pure, bind,
          Except.bind, show readCounts (slots.map fun p => (p.1, Value.num p.2)) = _ from ih]

/-- A count that was accepted is a whole number. -/
theorem wholeCount_eq_some_iff {count : Value} {n : Number} :
    wholeCount count = some n ↔ count = .num n ∧ n.isInteger = true := by
  unfold wholeCount
  constructor
  · intro h
    split at h
    · split_ifs at h with hint
      obtain rfl := Option.some.inj h
      exact ⟨rfl, hint⟩
    · cases h
  · rintro ⟨rfl, hint⟩
    exact if_pos hint

/-- **Which stored counts are accepted, and what is kept of them**: whole numbers, and all of them
but the one under `__proto__`. -/
theorem readCounts_eq_ok_iff {fields : List (String × Value)} {slots : Slots} :
    readCounts fields = .ok slots ↔ ∃ counts : Slots, fields = countFields counts ∧
      (∀ p ∈ counts, p.2.isInteger = true) ∧ slots = assigned counts := by
  constructor
  · intro h
    induction fields generalizing slots with
    | nil =>
        obtain rfl := Except.ok.inj h
        exact ⟨[], rfl, by simp, rfl⟩
    | cons field fields ih =>
        obtain ⟨slot, count⟩ := field
        rw [readCounts] at h
        cases hcount : wholeCount count with
        | none =>
            rw [hcount] at h
            obtain ⟨text, -, h⟩ := bind_eq_ok.1 h
            cases h
        | some n =>
            rw [hcount] at h
            obtain ⟨whole, hwhole, h⟩ := bind_eq_ok.1 h
            obtain rfl := Except.ok.inj h
            obtain ⟨counts, rfl, hint, rfl⟩ := ih hwhole
            obtain ⟨rfl, hn⟩ := wholeCount_eq_some_iff.1 hcount
            refine ⟨(slot, n) :: counts, rfl, List.forall_mem_cons.2 ⟨hn, hint⟩, ?_⟩
            by_cases hslot : slot = "__proto__" <;> simp [assigned, hslot]
  · rintro ⟨counts, rfl, hint, rfl⟩
    exact readSlots_counts hint

theorem lookup_countFields (slots : Slots) (slot : String) :
    (countFields slots).lookup slot = (slots.lookup slot).map Value.num := by
  induction slots with
  | nil => rfl
  | cons p slots ih =>
      obtain ⟨k, n⟩ := p
      by_cases hk : slot = k
      · simp [countFields, hk]
      · have hk : (slot == k) = false := by simpa using hk
        simpa [countFields, List.lookup_cons, hk] using ih

theorem lookup_assigned_of_ne {slots : Slots} {slot : String} (h : slot ≠ "__proto__") :
    (assigned slots).lookup slot = slots.lookup slot := by
  induction slots with
  | nil => rfl
  | cons p slots ih =>
      obtain ⟨k, n⟩ := p
      unfold assigned at ih ⊢
      by_cases hk : k = "__proto__"
      · have hne : (slot == k) = false := by simpa [hk] using h
        rw [List.filter_cons_of_neg (by simp [hk]), List.lookup_cons, hne]
        exact ih
      · rw [List.filter_cons_of_pos (by simpa using hk), List.lookup_cons, List.lookup_cons, ih]

theorem lookup_assigned_proto (slots : Slots) : (assigned slots).lookup "__proto__" = none := by
  rw [List.lookup_eq_none_iff]
  intro p hp
  have hne : p.1 ≠ "__proto__" := by simpa [assigned] using (List.mem_filter.1 hp).2
  simpa using hne.symm

/-- **What a slot reads as its count**: the number it was written with. -/
theorem declared_of_ne {slots : Slots} {slot : String} {n : Number} (h : slot ≠ "__proto__")
    (hn : slots.lookup slot = some n) :
    Envelope.declared (some (assigned slots)) slot = .num n := by
  simp [Envelope.declared, Value.get, lookup_countFields, lookup_assigned_of_ne h, hn]

/-- A slot named `__proto__` reads the prototype of every object, whatever was written. -/
theorem declared_proto (slots : Slots) :
    Envelope.declared (some (assigned slots)) "__proto__" = .obj [] := by
  simp [Envelope.declared, Value.get, lookup_countFields, lookup_assigned_proto, Value.inherited]

end Jubs
