/-
**What Redis keeps of the children of a job, and how the driver reads it.**

BullMQ keeps three things beside a job that waits on children: the set of the children that are
still in flight, a hash of what the completed ones returned, and a hash of why the others failed.
Both hashes are keyed by the job keys of the children, and the driver reads the slot of a child out
of its key.

Main definitions:

* `Jubs.toKey`, `Jubs.readChildKey` — the key of a job, and what is read out of it;
* `Jubs.storedResult`, `Jubs.childValue` — what a returned value is stored as, and read back as;
* `Jubs.readFlowLua`, `Jubs.readFlowState` — the reply of the script, and the state it is read as;
* `Jubs.storedData` — what an envelope is stored as.

Main results:

* `Jubs.readChildKey_toKey` — the key of a child reads back as its stored id;
* `Jubs.childValue_storedResult` — **a returned value reads back as what JSON keeps of it**;
* `Jubs.readFlowState_readFlowLua` — what the driver reads out of the two hashes and the set;
* `Jubs.slots_of_storedData` — **the counts of an envelope survive its storage, except a count under
  `__proto__`**.
-/

import Jubs.Children
import Jubs.JobId
import Jubs.Ledger
import Jubs.Reply

set_option autoImplicit false

namespace Jubs

/-- The dependencies of a job, its `:processed` hash and its `:failed` hash. -/
abbrev FlowLedger : Type := Ledger String String String

/-- The entries of a hash, in some order. -/
abbrev HashEntries : Type := List (String × String)

/-- The entries of a hash. -/
def hashOf (table : AList fun _ : String => String) : HashEntries :=
  table.entries.map fun entry => (entry.1, entry.2)

/-! ### Keys -/

/-- `queue.toKey(id)`, under the prefix of BullMQ. -/
def toKey (queue storedId : String) : String := Cut.join ':' (Cut.join ':' "bull" queue) storedId

/-- `readChildKey(key)`: the queue and the stored id. -/
def readChildKey (key : String) : String × String :=
  let segments := Cut.segments ':' key
  (segments.dropLast.getLast?.getD "", segments.getLast?.getD "")

/-- The key of a child reads back as its stored id. -/
theorem readChildKey_toKey (queue : String) {storedId : String} (h : ':' ∉ storedId.toList) :
    (readChildKey (toKey queue storedId)).2 = storedId := by
  simp [readChildKey, toKey, Cut.segments_join ':' _ storedId, Cut.segments_of_not_mem h]

/-- And as its queue, when the name of the queue can be read back. -/
theorem readChildKey_toKey_queue {queue storedId : String} (hq : ':' ∉ queue.toList)
    (h : ':' ∉ storedId.toList) : readChildKey (toKey queue storedId) = (queue, storedId) := by
  simp [readChildKey, toKey, Cut.segments_join ':' _ storedId, Cut.segments_join ':' _ queue,
    Cut.segments_of_not_mem h, Cut.segments_of_not_mem hq]

/-! ### Returned values -/

/-- The text a returned value is stored as.  `none` when `JSON.stringify` throws. -/
def storedResult (value : Value) : Option String := (stringify value).map fun text =>
    text.getD "null"

/-- What JSON keeps of a returned value: `null` when it leaves the value out. -/
def jsonResult (value : Value) : Option Value :=
  value.toJson.map fun json => Value.ofJson (json.getD .null)

/-- `childValue(stored)`. -/
def childValue (stored : String) : Value :=
  match Json.parse stored with
  | some json => .ofJson json
  | none => .undefined

/-- **A returned value reads back as what JSON keeps of it.** -/
theorem childValue_storedResult {value : Value} {text : String}
    (h : storedResult value = some text) : jsonResult value = some (childValue text) := by
  obtain ⟨kept, hkept, rfl⟩ := Option.map_eq_some_iff.1 h
  obtain ⟨json, hjson, rfl⟩ := Option.map_eq_some_iff.1 hkept
  rw [jsonResult, hjson]
  cases json with
  | none =>
      have hparse : Json.parse "null" = some .null := Json.parse_stringify .null
      simp [childValue, hparse]
  | some json => simp [childValue, Json.parse_stringify]

/-! ### The script and its reader -/

/-- A hash, as `HGETALL` replies it. -/
def hashReply (entries : HashEntries) : Reply :=
  .array (entries.flatMap fun entry => [.bulk entry.1, .bulk entry.2])

/-- `READ_FLOW_LUA`, where the two hashes are listed in the orders Redis has them in. -/
def readFlowLua (processed failed : HashEntries) (pending : ℕ) : Reply :=
  .array [hashReply processed, hashReply failed, .int pending]

/-- The entries of a flat reply: each text at an even position, with the one behind it. -/
def entriesOf : List Reply → HashEntries
  | [] => []
  | [key] => [(key.text, "undefined")]
  | key :: value :: replies => (key.text, value.text) :: entriesOf replies

/-- `hashEntries(reply)`, for an element of a reply that may be missing. -/
def hashEntries (reply : Option Reply) : HashEntries := entriesOf ((reply.map Reply.items).getD [])

/-- The result one entry of the `:processed` hash is read as. -/
def readResult (entry : String × String) : ChildResult :=
  ⟨readChildSlot (readChildKey entry.1).2, childValue entry.2⟩

/-- The failure one entry of the `:failed` hash is read as. -/
def readFailure (entry : String × String) : ChildFailure :=
  let (queue, storedId) := readChildKey entry.1
  ⟨composeJobId queue storedId, readChildSlot storedId, entry.2⟩

/-- `readFlowState(reply)`. -/
def readFlowState (reply : Reply) : FlowState where
  results := (hashEntries reply.items[0]?).map readResult
  failures := (hashEntries reply.items[1]?).map readFailure
  pending := (reply.items[2]?.map Reply.count).getD 0

theorem entriesOf_flatMap (entries : HashEntries) :
    entriesOf (entries.flatMap fun entry => [.bulk entry.1, .bulk entry.2]) = entries := by
  induction entries with
  | nil => rfl
  | cons entry entries ih => simpa [entriesOf, Reply.text] using ih

/-- What the driver reads out of the two hashes and the set. -/
theorem readFlowState_readFlowLua (processed failed : HashEntries) (pending : ℕ) :
    readFlowState (readFlowLua processed failed pending) =
      ⟨processed.map readResult, failed.map readFailure, pending⟩ := by
  have hhash : ∀ entries, hashEntries (some (hashReply entries)) = entries := by
    intro entries
    rw [hashEntries, hashReply]
    exact entriesOf_flatMap entries
  simp [readFlowState, readFlowLua, Reply.items, hhash, Reply.count]

/-! ### Stored envelopes -/

/-- The `data` a worker is handed for an envelope that was stored.  `none` when the envelope cannot
be stored. -/
def storedData (envelope : Envelope) : Option Value :=
  envelope.toValue.toJson.bind fun json => json.map Value.ofJson

/-- Whole counts are stored as they are. -/
theorem fieldsToJson_countFields {slots : Slots} (h : ∀ p ∈ slots, p.2.isInteger = true) :
    ∃ js, Value.fieldsToJson (countFields slots) = some js ∧
      Value.ofJsonFields js = countFields slots := by
  induction slots with
  | nil => exact ⟨[], rfl, rfl⟩
  | cons p slots ih =>
      obtain ⟨js, hjs, hof⟩ := ih fun q hq => h q (List.mem_cons_of_mem p hq)
      obtain ⟨slot, n⟩ := p
      cases n with
      | finite d =>
          refine ⟨(slot, .num d) :: js, ?_, ?_⟩
          · change Value.fieldsToJson ((slot, .num (.finite d)) :: countFields slots) = _
            simp [Value.fieldsToJson, Value.toJson, hjs]
          · change (slot, Value.ofJson (.num d)) :: Value.ofJsonFields js = _
            rw [hof]
            rfl
      | nan => simpa [Number.isInteger] using h _ List.mem_cons_self
      | infinity b => simpa [Number.isInteger] using h _ List.mem_cons_self

/-- What is read as the counts of a stored envelope. -/
theorem readEnvelope_slots {stored : Value} {envelope : Envelope}
    (h : readEnvelope stored = .ok envelope) :
    readSlots (stored.get "slots") = .ok envelope.slots := by
  unfold readEnvelope at h
  split at h
  all_goals try cases h
  split at h
  · split at h
    · cases h
    · split at h
      · obtain ⟨slots, hslots, h⟩ := bind_eq_ok.1 h
        rw [hslots, ← Except.ok.inj h]
      · obtain ⟨text, -, h⟩ := bind_eq_ok.1 h
        cases h
  · cases h
  · cases h

/-- A property of a stored object is read past the other ones. -/
theorem lookup_stored_cons {key name : String} {value : Value} {fields : List (String × Value)}
    {js : List (String × Json)} (hne : name ≠ key)
    (h : Value.fieldsToJson ((key, value) :: fields) = some js) :
    ∃ js', Value.fieldsToJson fields = some js' ∧
      (Value.ofJsonFields js).lookup name = (Value.ofJsonFields js').lookup name := by
  obtain ⟨kept, -, h⟩ := Option.bind_eq_some_iff.1 h
  obtain ⟨js', hjs', h⟩ := Option.bind_eq_some_iff.1 h
  obtain rfl := Option.some.inj h
  refine ⟨js', hjs', ?_⟩
  have hbeq : (name == key) = false := by simpa using hne
  cases kept with
  | none => rfl
  | some json => simp [Value.ofJsonFields, List.lookup_cons, hbeq]

/-- The counts a worker is handed for an envelope that was stored. -/
theorem get_slots_storedData {envelope : Envelope} {stored : Value}
    (hwhole : ∀ slots ∈ envelope.slots, ∀ p ∈ slots, p.2.isInteger = true)
    (hstored : storedData envelope = some stored) :
    stored.get "slots" = (envelope.slots.map fun slots => .obj (countFields slots)).getD
      .undefined := by
  obtain ⟨json, hjson, hkept⟩ := Option.bind_eq_some_iff.1 hstored
  obtain ⟨fields, hfields, rfl⟩ := Option.map_eq_some_iff.1 hjson
  obtain rfl := Option.some.inj hkept
  -- the counts stand behind the four other properties of an envelope
  obtain ⟨_, hfields, h₁⟩ := lookup_stored_cons (show "slots" ≠ "v" by decide) hfields
  obtain ⟨_, hfields, h₂⟩ := lookup_stored_cons (show "slots" ≠ "name" by decide) hfields
  obtain ⟨_, hfields, h₃⟩ := lookup_stored_cons (show "slots" ≠ "data" by decide) hfields
  obtain ⟨js, hfields, h₄⟩ := lookup_stored_cons (show "slots" ≠ "origin" by decide) hfields
  have hget : (Value.ofJson (.obj fields)).get "slots" =
      ((Value.ofJsonFields js).lookup "slots").getD .undefined := by
    rw [Value.ofJson, Value.get, h₁, h₂, h₃, h₄]
    rfl
  rw [hget]
  cases hslots : envelope.slots with
  | none =>
      rw [hslots] at hfields
      obtain rfl := Option.some.inj hfields
      rfl
  | some slots =>
      obtain ⟨js', hjs', hof⟩ := fieldsToJson_countFields (hwhole slots hslots)
      have hcounts : Value.fieldsToJson [("slots", .obj (countFields slots))] =
          some [("slots", .obj js')] := by simp [Value.fieldsToJson, Value.toJson, hjs']
      rw [hslots] at hfields
      obtain rfl : [("slots", .obj js')] = js := Option.some.inj (hcounts.symm.trans hfields)
      simp [Value.ofJson, Value.ofJsonFields, hof]

/-- **The counts of an envelope survive its storage**, except a count under `__proto__`. -/
theorem slots_of_storedData {envelope read : Envelope} {stored : Value}
    (hwhole : ∀ slots ∈ envelope.slots, ∀ p ∈ slots, p.2.isInteger = true)
    (hstored : storedData envelope = some stored) (hread : readEnvelope stored = .ok read) :
    read.slots = envelope.slots.map assigned := by
  have hslots := readEnvelope_slots hread
  rw [get_slots_storedData hwhole hstored] at hslots
  cases hcounts : envelope.slots with
  | none =>
      rw [hcounts] at hslots
      exact (Except.ok.inj hslots).symm
  | some slots =>
      rw [hcounts] at hslots
      have hread := readSlots_counts (hwhole slots hcounts)
      simp only [Option.map_some, Option.getD_some, readSlots, hread] at hslots
      exact (Except.ok.inj hslots).symm

end Jubs
