/-
**Job ids, and the ids a flow stores its children under.**

A job answers to its queue and its stored id around a colon, and a queue name holds none.  A child
of a flow is stored under the slot it fills and a random half around a tilde, and a slot holds
neither separator.  Both pairs are read back by cutting at the first separator.

Main definitions:

* `Jubs.QueueName`, `Jubs.Uuid` — the texts the cuts rely on;
* `Jubs.composeJobId`, `Jubs.readJobId` — the id the whole API speaks;
* `Jubs.composeChildId`, `Jubs.readChildSlot` — the stored id of a child.

Main results:

* `Jubs.composeJobId_inj` — a job id names one queue and one stored id;
* `Jubs.readChildSlot_composeChildId` — **a child's id reads back as the slot it fills**.
-/

import Jubs.Cut
import Jubs.Definition

set_option autoImplicit false

namespace Jubs

/-- A queue name: BullMQ refuses one that is empty or holds a colon. -/
structure QueueName where
  name : String
  nonempty : name ≠ ""
  noColon : ':' ∉ name.toList

/-- What `randomUUID()` gives: hexadecimal digits and dashes. -/
structure Uuid where
  text : String
  plain : ∀ c ∈ text.toList, c.isAlphanum = true ∨ c = '-'
deriving DecidableEq

theorem QueueName.ext_iff' {q q' : QueueName} : q = q' ↔ q.name = q'.name := by
  cases q
  cases q'
  simp

instance : DecidableEq QueueName := fun _ _ => decidable_of_iff _ QueueName.ext_iff'.symm

theorem Uuid.not_mem {u : Uuid} {c : Char} (halnum : c.isAlphanum = false) (hdash : c ≠ '-') :
    c ∉ u.text.toList := by
  intro hc
  rcases u.plain c hc with h | h
  · simp [halnum] at h
  · exact hdash h

/-- `composeJobId(queue, storedId)`. -/
def composeJobId (queue storedId : String) : String := Cut.join ':' queue storedId

/-- A job id names one queue and one stored id. -/
theorem composeJobId_inj {q q' : QueueName} {id id' : String} :
    composeJobId q.name id = composeJobId q'.name id' ↔ q = q' ∧ id = id' := by
  rw [composeJobId, composeJobId, Cut.join_inj q.noColon q'.noColon, QueueName.ext_iff']

/-- `readJobId(id)`: the queue and the stored id around the first colon. -/
def readJobId (id : String) : Except Thrown (String × String) :=
  match Cut.first ':' id.toList with
  | some (queue, storedId) =>
      if queue = [] ∨ storedId = [] then .error (plainError ("jubs: \"" ++ id ++
        "\" is not a job id — pass an id returned by jobs.enqueue or by jobs.dead.list(queue)")
          none)
      else .ok (String.ofList queue, String.ofList storedId)
  | none => .error (plainError ("jubs: \"" ++ id ++
      "\" is not a job id — pass an id returned by jobs.enqueue or by jobs.dead.list(queue)") none)

/-- The id of a job reads back as its queue and its stored id. -/
theorem readJobId_composeJobId (q : QueueName) {id : String} (hid : id ≠ "") :
    readJobId (composeJobId q.name id) = .ok (q.name, id) := by
  have hq : q.name.toList ≠ [] := by simpa using q.nonempty
  have hid : id.toList ≠ [] := by simpa using hid
  rw [readJobId, composeJobId, Cut.toList_join, Cut.first_append_cons _ q.noColon]
  simp [hq, hid]

/-! ### The children of a flow -/

/-- `composeChildId(slot)`, with the random half it draws. -/
def composeChildId (slot : String) (uuid : Uuid) : String := Cut.join flowIdMarker slot uuid.text

/-- `readChildSlot(storedId)`: what stands before the first marker, and nothing without one. -/
def readChildSlot (storedId : String) : String :=
  match Cut.first flowIdMarker storedId.toList with
  | some (slot, _) => String.ofList slot
  | none => ""

/-- **A child's id reads back as the slot it fills.** -/
theorem readChildSlot_composeChildId {slot : String} (uuid : Uuid)
    (hslot : flowIdMarker ∉ slot.toList) : readChildSlot (composeChildId slot uuid) = slot := by
  rw [readChildSlot, composeChildId, Cut.toList_join, Cut.first_append_cons _ hslot]
  exact String.ofList_toList

theorem composeChildId_inj {slot slot' : String} {u u' : Uuid} (h : flowIdMarker ∉ slot.toList)
    (h' : flowIdMarker ∉ slot'.toList) :
    composeChildId slot u = composeChildId slot' u' ↔ slot = slot' ∧ u = u' := by
  rw [composeChildId, composeChildId, Cut.join_inj h h']
  cases u
  cases u'
  simp

/-- The stored id of a child holds no colon, since neither its slot nor its random half does. -/
theorem colon_not_mem_composeChildId {slot : String} (uuid : Uuid) (h : ':' ∉ slot.toList) :
    ':' ∉ (composeChildId slot uuid).toList := by
  have hu : ':' ∉ uuid.text.toList := Uuid.not_mem (by decide) (by decide)
  simp [composeChildId, Cut.toList_join, h, hu, flowIdMarker]

end Jubs
