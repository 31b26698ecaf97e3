/-
**The two dead stores, call by call.**

A dead queue of the memory driver is a map of copies under the number of their burial; on Redis it
is a queue that nobody consumes, and every record is checked when it is read.  The two number their
records apart: a burial that cannot be copied takes a number of the memory driver, and none of
Redis.  A test that buries, lists and drops on the memory driver is meant to say something about
Redis all the same.

Main definitions:

* `Jubs.MemoryDead.bury`, `Jubs.MemoryDead.list`, `Jubs.MemoryDead.read`, `Jubs.MemoryDead.remove` —
  the dead store of the memory driver;
* `Jubs.RedisDead.bury`, `Jubs.RedisDead.list`, `Jubs.RedisDead.read`, `Jubs.RedisDead.remove` — the
  one on Redis;
* `Jubs.DeadCall`, `Jubs.DeadReply`, `Jubs.deadReplies` — calls on a dead store, and its answers;
* `Jubs.buriedIds` — the ids the memory driver gives to the records it keeps;
* `Jubs.keptCall` — a dead store that keeps the entries themselves.

Main results:

* `Jubs.AlikeDead.call`, `Jubs.KeepsDead.call` — one call on two stores beside each other;
* `Jubs.dead_stores_agree` — **Redis answers what the memory driver answers, read by its reader**;
* `Jubs.dead_store_keeps` — **what is buried is what is read back**.
-/

import Jubs.Cancellation
import Jubs.DeadRecord
import Jubs.OrderedMap
import Jubs.Queues

set_option autoImplicit false

namespace Jubs

/-! ### Calls and answers -/

/-- A call on a dead store, by the name of the live queue. -/
inductive DeadCall where
  | bury (queue : String) (entry : DeadEntry)
  | list (queue : String)
  | read (queue id : String)
  | remove (queue id : String)

/-- What a call answers: whether a burial was kept, and not refused with what `JSON.stringify`
throws; the records listed of a queue; the record found, or what its reader throws; whether there
was one to remove. -/
inductive DeadReply (α : Type) where
  | buried (kept : Bool)
  | listed (queue : String) (records : List (String × α))
  | found (record : Except Thrown (Option α))
  | removed (dropped : Bool)

/-- A call under other ids. -/
def DeadCall.rename (name : String → String → String) : DeadCall → DeadCall
  | .read queue id => .read queue (name queue id)
  | .remove queue id => .remove queue (name queue id)
  | call => call

/-- What a store answers to a sequence of calls. -/
def deadReplies {σ ρ : Type} (step : σ → DeadCall → σ × ρ) : σ → List DeadCall → List ρ
  | _, [] => []
  | s, call :: calls => (step s call).2 :: deadReplies step (step s call).1 calls

/-! ### The dead store of the memory driver -/

/-- `MemoryDeadQueue`. -/
structure MemoryDeadQueue where
  entries : List (String × Value)
  deaths : ℕ

/-- `buried`, of the memory driver. -/
abbrev MemoryDead : Type := String → Option MemoryDeadQueue

namespace MemoryDead

variable (buried : MemoryDead)

/-- `deadQueueFor(queue)`: the dead queue, opened when there is none. -/
def deadQueueFor (queue : String) : MemoryDeadQueue := (buried queue).getD ⟨[], 0⟩

/-- `dead.bury(queue, entry)`.  The number is drawn before the entry is copied. -/
def bury (queue : String) (entry : DeadEntry) : MemoryDead × Bool :=
  let dead := buried.deadQueueFor queue
  let deaths := dead.deaths + 1
  match entry.stored with
  | none => (Function.update buried queue (some { dead with deaths := deaths }), false)
  | some copy =>
      (Function.update buried queue
        (some ⟨OrderedMap.set dead.entries (toString deaths) copy, deaths⟩), true)

/-- `dead.list(queue)`. -/
def list (queue : String) : List (String × Value) :=
  match buried queue with
  | none => []
  | some dead => dead.entries

/-- `dead.read(queue, id)`. -/
def read (queue id : String) : Option Value :=
  (buried queue).bind fun dead => OrderedMap.get dead.entries id

/-- `dead.remove(queue, id)`. -/
def remove (queue id : String) : MemoryDead × Bool :=
  match buried queue with
  | none => (buried, false)
  | some dead =>
      (Function.update buried queue
        (some { dead with entries := OrderedMap.delete dead.entries id }),
        OrderedMap.has dead.entries id)

/-- One call. -/
def call : DeadCall → MemoryDead × DeadReply Value
  | .bury queue entry => ((buried.bury queue entry).1, .buried (buried.bury queue entry).2)
  | .list queue => (buried, .listed queue (buried.list queue))
  | .read queue id => (buried, .found (.ok (buried.read queue id)))
  | .remove queue id => ((buried.remove queue id).1, .removed (buried.remove queue id).2)

/-- No dead queue is open. -/
def empty : MemoryDead := fun _ => none

end MemoryDead

/-! ### The dead store on Redis -/

/-- The ids BullMQ gives to the jobs of one queue, in order. -/
structure BullIds where
  of : ℕ → String
  injective : Function.Injective of
  nonempty : ∀ n, of n ≠ ""

/-- A dead queue on Redis: the jobs that wait on it, oldest first, and how many were added. -/
structure RedisDeadQueue where
  waiting : List (String × Value)
  added : ℕ

/-- The dead queues on Redis, by their own names. -/
abbrev RedisDead : Type := String → RedisDeadQueue

namespace RedisDead

variable (ids : BullIds) (dead : RedisDead)

/-- `queueFor(name).add(…, data)`: a job of the data, which is stored as JSON. -/
def add (name : String) (data : DeadEntry) : RedisDead × Bool :=
  match data.stored with
  | none => (dead, false)
  | some copy =>
      (Function.update dead name
        ⟨(dead name).waiting ++ [(ids.of (dead name).added, copy)], (dead name).added + 1⟩, true)

/-- `queueFor(name).getJob(id)`. -/
def getJob (name id : String) : Option Value := OrderedMap.get (dead name).waiting id

/-- `dead.bury(queue, entry)`. -/
def bury (queue : String) (entry : DeadEntry) : RedisDead × Bool :=
  dead.add ids (deadQueueName queue) entry

/-- `dead.list(queue)`: a job without an id is passed over, and so is a record that cannot be
read. -/
def list (queue : String) : List (String × DeadEntry) :=
  listDead ((dead (deadQueueName queue)).waiting.filter fun job => job.1 ≠ "")

/-- `dead.read(queue, id)`. -/
def read (queue id : String) : Except Thrown (Option DeadEntry) :=
  match dead.getJob (deadQueueName queue) id with
  | none => .ok none
  | some data => some <$> readDeadEntry data

/-- `dead.remove(queue, id)`. -/
def remove (queue id : String) : RedisDead × Bool :=
  match dead.getJob (deadQueueName queue) id with
  | none => (dead, false)
  | some _ =>
      (Function.update dead (deadQueueName queue) { dead (deadQueueName queue) with
        waiting := OrderedMap.delete (dead (deadQueueName queue)).waiting id }, true)

/-- One call. -/
def call : DeadCall → RedisDead × DeadReply DeadEntry
  | .bury queue entry => ((dead.bury ids queue entry).1, .buried (dead.bury ids queue entry).2)
  | .list queue => (dead, .listed queue (dead.list queue))
  | .read queue id => (dead, .found (dead.read queue id))
  | .remove queue id => ((dead.remove queue id).1, .removed (dead.remove queue id).2)

/-- No job waits on any queue. -/
def empty : RedisDead := fun _ => ⟨[], 0⟩

end RedisDead

/-! ### One store beside the other -/

/-- What Redis answers where the memory driver answers this: every record goes through the reader,
and one the reader refuses is not listed. -/
def DeadReply.readBy (name : String → String → String) : DeadReply Value → DeadReply DeadEntry
  | .buried kept => .buried kept
  | .listed queue records => .listed queue (listDead (OrderedMap.rename (name queue) records))
  | .found (.error thrown) => .found (.error thrown)
  | .found (.ok none) => .found (.ok none)
  | .found (.ok (some record)) => .found (some <$> readDeadEntry record)
  | .removed dropped => .removed dropped

/-- The ids the memory driver gives to the records it keeps of a queue, after `deaths` burials. -/
def buriedIds (queue : String) : ℕ → List DeadCall → List String
  | _, [] => []
  | deaths, .bury queue' entry :: calls =>
      if queue' = queue then
        (if entry.stored.isSome then [toString (deaths + 1)] else []) ++
          buriedIds queue (deaths + 1) calls
      else buriedIds queue deaths calls
  | deaths, _ :: calls => buriedIds queue deaths calls

namespace MemoryDead

variable {buried : MemoryDead}

theorem list_eq (queue : String) : buried.list queue = (buried.deadQueueFor queue).entries := by
  unfold list deadQueueFor
  cases buried queue <;> rfl

theorem read_eq (queue id : String) :
    buried.read queue id = OrderedMap.get (buried.deadQueueFor queue).entries id := by
  unfold read deadQueueFor
  cases buried queue <;> rfl

theorem dropped_remove (queue id : String) :
    (buried.remove queue id).2 = OrderedMap.has (buried.deadQueueFor queue).entries id := by
  unfold remove deadQueueFor
  cases buried queue <;> rfl

/-- A removal is one of the named queue, and leaves the number of its burials. -/
theorem deadQueueFor_remove (queue id queue' : String) :
    (buried.remove queue id).1.deadQueueFor queue' =
      if queue' = queue then ⟨OrderedMap.delete (buried.deadQueueFor queue).entries id,
        (buried.deadQueueFor queue).deaths⟩
      else buried.deadQueueFor queue' := by
  by_cases hqueue : queue' = queue
  · subst hqueue
    rw [if_pos rfl]
    unfold remove deadQueueFor
    cases hopen : buried queue' <;> simp [hopen, OrderedMap.delete]
  · rw [if_neg hqueue]
    unfold remove deadQueueFor
    cases buried queue <;> simp [hqueue]

/-- A burial that cannot be copied takes a number all the same. -/
theorem deadQueueFor_bury (queue : String) (entry : DeadEntry) (queue' : String) :
    (buried.bury queue entry).1.deadQueueFor queue' =
      if queue' = queue then
        ⟨entry.stored.elim (buried.deadQueueFor queue).entries fun copy =>
          OrderedMap.set (buried.deadQueueFor queue).entries
            (toString ((buried.deadQueueFor queue).deaths + 1)) copy,
          (buried.deadQueueFor queue).deaths + 1⟩
      else buried.deadQueueFor queue' := by
  unfold bury
  split_ifs with hqueue
  · subst hqueue
    cases hstored : entry.stored <;> simp [deadQueueFor]
  · cases hstored : entry.stored <;> simp [deadQueueFor, hqueue]

theorem kept_bury (queue : String) (entry : DeadEntry) :
    (buried.bury queue entry).2 = entry.stored.isSome := by
  unfold bury
  cases entry.stored <;> rfl

end MemoryDead

namespace RedisDead

variable {ids : BullIds} {dead : RedisDead}

theorem kept_bury (queue : String) (entry : DeadEntry) :
    (dead.bury ids queue entry).2 = entry.stored.isSome := by
  unfold bury add
  cases entry.stored <;> rfl

/-- A removal, of a record that is there or is not. -/
theorem remove_eq (queue id : String) :
    dead.remove queue id = (Function.update dead (deadQueueName queue)
      { dead (deadQueueName queue) with
        waiting := OrderedMap.delete (dead (deadQueueName queue)).waiting id },
      OrderedMap.has (dead (deadQueueName queue)).waiting id) := by
  unfold remove getJob
  rw [OrderedMap.has_eq]
  cases hjob : OrderedMap.get (dead (deadQueueName queue)).waiting id with
  -- nothing is written then, which is what a removal of nothing comes to
  | none =>
      have hno : OrderedMap.has (dead (deadQueueName queue)).waiting id = false := by
        rw [OrderedMap.has_eq, hjob]
        rfl
      rw [OrderedMap.delete_of_not_has hno, Function.update_eq_self]
      rfl
  | some data => rfl

end RedisDead

/-- **How a dead queue stands in the two stores** after burials that gave the ids `done`, with the
ids `later` still to be given: both hold the same records in the same order. -/
structure AlikeQueue (ids : BullIds) (done later : List String) (memory : MemoryDeadQueue)
    (redis : RedisDeadQueue) : Prop where
  waiting : redis.waiting =
    OrderedMap.rename (OrderedMap.nameOf ids.of (done ++ later)) memory.entries
  added : redis.added = done.length
  held : ∀ e ∈ memory.entries, e.1 ∈ done
  numbered : ∀ id ∈ done, ∃ n ≤ memory.deaths, id = toString n

namespace AlikeQueue

variable {ids : BullIds} {done later : List String} {memory : MemoryDeadQueue}
  {redis : RedisDeadQueue}

theorem separates (h : AlikeQueue ids done later memory redis) :
    OrderedMap.Separates (OrderedMap.nameOf ids.of (done ++ later)) memory.entries :=
  OrderedMap.separates_nameOf ids.injective fun e he => List.mem_append_left _ (h.held e he)

/-- The number of the next burial is new. -/
theorem fresh (h : AlikeQueue ids done later memory redis) :
    toString (memory.deaths + 1) ∉ done := by
  intro hmem
  obtain ⟨n, hn, hsame⟩ := h.numbered _ hmem
  have hcount := toString_nat_inj.1 hsame
  omega

/-- A burial that is refused takes a number in memory. -/
theorem refuse (h : AlikeQueue ids done later memory redis) :
    AlikeQueue ids done later { memory with deaths := memory.deaths + 1 } redis := by
  refine ⟨h.waiting, h.added, h.held, ?_⟩
  intro id hid
  obtain ⟨n, hn, rfl⟩ := h.numbered id hid
  exact ⟨n, Nat.le_succ_of_le hn, rfl⟩

/-- A burial that is kept is kept last, under the next name. -/
theorem keep (h : AlikeQueue ids done (toString (memory.deaths + 1) :: later) memory redis)
    (copy : Value) :
    AlikeQueue ids (done ++ [toString (memory.deaths + 1)]) later
      ⟨OrderedMap.set memory.entries (toString (memory.deaths + 1)) copy, memory.deaths + 1⟩
      ⟨redis.waiting ++ [(ids.of redis.added, copy)], redis.added + 1⟩ := by
  have hnew := h.fresh
  have hset : OrderedMap.set memory.entries (toString (memory.deaths + 1)) copy =
      memory.entries ++ [(toString (memory.deaths + 1), copy)] := by
    refine OrderedMap.set_of_new ?_ copy
    intro e he hsame
    rw [← hsame] at hnew
    exact hnew (h.held e he)
  have hname := OrderedMap.nameOf_next ids.of hnew later
  rw [hset]
  constructor
  · rw [← List.append_cons, h.waiting, OrderedMap.rename, OrderedMap.rename, List.map_append,
      List.map_singleton, hname, h.added]
  · rw [h.added, List.length_append, List.length_singleton]
  · intro e he
    rcases List.mem_append.1 he with he | he
    · exact List.mem_append_left _ (h.held e he)
    · obtain rfl := List.mem_singleton.1 he
      exact List.mem_append_right _ List.mem_cons_self
  · intro id hid
    rcases List.mem_append.1 hid with hid | hid
    · obtain ⟨n, hn, rfl⟩ := h.numbered id hid
      exact ⟨n, Nat.le_succ_of_le hn, rfl⟩
    · exact ⟨_, le_rfl, List.mem_singleton.1 hid⟩

/-- A record is taken out of both under its two names. -/
theorem drop (h : AlikeQueue ids done later memory redis) (id : String) :
    AlikeQueue ids done later { memory with entries := OrderedMap.delete memory.entries id }
      { redis with waiting :=
          OrderedMap.delete redis.waiting (OrderedMap.nameOf ids.of (done ++ later) id) } := by
  refine ⟨?_, h.added, fun e he => h.held e (List.mem_of_mem_filter he), h.numbered⟩
  rw [h.waiting, OrderedMap.delete_rename h.separates]

end AlikeQueue

/-- **How the two stores stand** before `calls`, in a run that gives the ids `given`. -/
def AlikeDead (ids : BullIds) (given : String → List String) (calls : List DeadCall)
    (buried : MemoryDead) (dead : RedisDead) : Prop :=
  ∀ queue, ∃ done,
    given queue = done ++ buriedIds queue (buried.deadQueueFor queue).deaths calls ∧
    AlikeQueue ids done (buriedIds queue (buried.deadQueueFor queue).deaths calls)
      (buried.deadQueueFor queue) (dead (deadQueueName queue))

namespace AlikeDead

variable {ids : BullIds} {given : String → List String} {calls : List DeadCall}
    {buried : MemoryDead}
  {dead : RedisDead}

theorem waiting (h : AlikeDead ids given calls buried dead) (queue : String) :
    (dead (deadQueueName queue)).waiting = OrderedMap.rename
    (OrderedMap.nameOf ids.of (given queue))
      (buried.deadQueueFor queue).entries := by
  obtain ⟨done, hgiven, hqueue⟩ := h queue
  rw [hgiven, hqueue.waiting]

theorem separates (h : AlikeDead ids given calls buried dead) (queue : String) :
    OrderedMap.Separates (OrderedMap.nameOf ids.of (given queue))
      (buried.deadQueueFor queue).entries := by
  obtain ⟨done, hgiven, hqueue⟩ := h queue
  rw [hgiven]
  exact hqueue.separates

theorem list (h : AlikeDead ids given calls buried dead) (queue : String) :
    dead.list queue = listDead
      (OrderedMap.rename (OrderedMap.nameOf ids.of (given queue)) (buried.list queue)) := by
  rw [RedisDead.list, h.waiting, MemoryDead.list_eq, List.filter_eq_self.2]
  intro job hjob
  obtain ⟨e, -, rfl⟩ := List.mem_map.1 hjob
  exact decide_eq_true (ids.nonempty _)

theorem getJob (h : AlikeDead ids given calls buried dead) (queue id : String) :
    dead.getJob (deadQueueName queue) (OrderedMap.nameOf ids.of (given queue) id) =
      buried.read queue id := by
  rw [RedisDead.getJob, h.waiting, OrderedMap.get_rename (h.separates queue), MemoryDead.read_eq]

/-- A burial is kept by both, or by neither. -/
theorem bury {queue : String} {entry : DeadEntry}
    (h : AlikeDead ids given (.bury queue entry :: calls) buried dead) :
    AlikeDead ids given calls (buried.bury queue entry).1 (dead.bury ids queue entry).1 := by
  intro q
  obtain ⟨done, hgiven, hqueue⟩ := h q
  by_cases hq : q = queue
  · subst hq
    rw [MemoryDead.deadQueueFor_bury, if_pos rfl]
    cases hstored : entry.stored with
    -- the number is drawn in memory alone, and no id is given in either
    | none =>
        simp only [buriedIds, if_true, hstored, Option.isSome_none, Bool.false_eq_true, if_false,
          List.nil_append] at hgiven hqueue
        refine ⟨done, hgiven, ?_⟩
        simpa [RedisDead.bury, RedisDead.add, hstored] using hqueue.refuse
    | some copy =>
        simp only [buriedIds, if_true, hstored, Option.isSome_some, List.singleton_append]
          at hgiven hqueue
        refine ⟨_, hgiven.trans (List.append_cons _ _ _), ?_⟩
        have hkept := hqueue.keep copy
        simpa only [RedisDead.bury, RedisDead.add, hstored, Function.update_self,
          Option.elim_some] using hkept
  · have hname : deadQueueName q ≠ deadQueueName queue := mt (@deadQueueName_injective _ _) hq
    have hdead : (dead.bury ids queue entry).1 (deadQueueName q) = dead (deadQueueName q) := by
      unfold RedisDead.bury RedisDead.add
      cases entry.stored <;> simp [hname]
    rw [MemoryDead.deadQueueFor_bury, if_neg hq, hdead]
    rw [buriedIds, if_neg (Ne.symm hq)] at hgiven hqueue
    exact ⟨done, hgiven, hqueue⟩

/-- A record is dropped by both, or is in neither. -/
theorem remove {queue id : String}
    (h : AlikeDead ids given (.remove queue id :: calls) buried dead) :
    (dead.remove queue (OrderedMap.nameOf ids.of (given queue) id)).2 = (buried.remove queue id).2 ∧
      AlikeDead ids given calls (buried.remove queue id).1
        (dead.remove queue (OrderedMap.nameOf ids.of (given queue) id)).1 := by
  rw [RedisDead.remove_eq, MemoryDead.dropped_remove]
  refine ⟨by rw [h.waiting, OrderedMap.has_rename (h.separates queue)], ?_⟩
  intro q
  obtain ⟨done, hgiven, hqueue⟩ := h q
  simp only [buriedIds] at hgiven hqueue
  rw [MemoryDead.deadQueueFor_remove]
  by_cases hq : q = queue
  · subst hq
    rw [if_pos rfl]
    refine ⟨done, hgiven, ?_⟩
    have hdropped := hqueue.drop id
    rw [← hgiven] at hdropped
    simpa only [Function.update_self] using hdropped
  · rw [if_neg hq]
    refine ⟨done, hgiven, ?_⟩
    simpa only [Function.update_of_ne (mt (@deadQueueName_injective _ _) hq)] using hqueue

/-- **One call on both stores.** -/
theorem call {call : DeadCall} (h : AlikeDead ids given (call :: calls) buried dead) :
    (dead.call ids (call.rename fun queue => OrderedMap.nameOf ids.of (given queue))).2 =
        (buried.call call).2.readBy (fun queue => OrderedMap.nameOf ids.of (given queue)) ∧
      AlikeDead ids given calls (buried.call call).1
        (dead.call ids (call.rename fun queue => OrderedMap.nameOf ids.of (given queue))).1 := by
  cases call with
  | bury queue entry =>
      refine ⟨?_, h.bury⟩
      show DeadReply.buried (dead.bury ids queue entry).2 = .buried (buried.bury queue entry).2
      rw [MemoryDead.kept_bury, RedisDead.kept_bury]
  | list queue => exact ⟨congrArg (DeadReply.listed queue) (h.list queue), h⟩
  | read queue id =>
      refine ⟨?_, h⟩
      show DeadReply.found (dead.read queue (OrderedMap.nameOf ids.of (given queue) id)) =
        DeadReply.readBy _ (.found (.ok (buried.read queue id)))
      rw [RedisDead.read, h.getJob queue id]
      cases buried.read queue id <;> rfl
  | remove queue id =>
      obtain ⟨hreply, hafter⟩ := h.remove
      exact ⟨congrArg DeadReply.removed hreply, hafter⟩

/-- Both stores, call by call. -/
theorem replies (h : AlikeDead ids given calls buried dead) :
    deadReplies (RedisDead.call ids) dead
        (calls.map (DeadCall.rename fun queue => OrderedMap.nameOf ids.of (given queue))) =
      (deadReplies MemoryDead.call buried calls).map
        (DeadReply.readBy fun queue => OrderedMap.nameOf ids.of (given queue)) := by
  induction calls generalizing buried dead with
  | nil => rfl
  | cons call calls ih =>
      obtain ⟨hreply, hafter⟩ := h.call
      simp only [List.map_cons, deadReplies, hreply, ih hafter]

/-- Two stores that hold nothing. -/
theorem empty (calls : List DeadCall) :
    AlikeDead ids (fun queue => buriedIds queue 0 calls) calls MemoryDead.empty
      RedisDead.empty := by
  intro queue
  refine ⟨[], rfl, rfl, rfl, ?_, ?_⟩
  · intro e he
    cases he
  · intro id hid
    cases hid

end AlikeDead

/-- The ids of later burials are later numbers. -/
theorem lt_of_mem_buriedIds {queue : String} {calls : List DeadCall} {deaths : ℕ} {id : String}
    (h : id ∈ buriedIds queue deaths calls) : ∃ n, deaths < n ∧ id = toString n := by
  induction calls generalizing deaths with
  | nil => cases h
  | cons call calls ih =>
      cases call with
      | bury queue' entry =>
          rw [buriedIds] at h
          split_ifs at h with hqueue hkept
          · rcases List.mem_append.1 h with h | h
            · exact ⟨_, Nat.lt_succ_self _, List.mem_singleton.1 h⟩
            · obtain ⟨n, hn, hid⟩ := ih h
              exact ⟨n, Nat.lt_of_succ_lt hn, hid⟩
          · obtain ⟨n, hn, hid⟩ := ih (by simpa using h)
            exact ⟨n, Nat.lt_of_succ_lt hn, hid⟩
          · exact ih h
      | list queue' => exact ih h
      | read queue' id' => exact ih h
      | remove queue' id' => exact ih h

/-- No id is given twice. -/
theorem nodup_buriedIds (queue : String) (calls : List DeadCall) (deaths : ℕ) :
    (buriedIds queue deaths calls).Nodup := by
  induction calls generalizing deaths with
  | nil => exact List.nodup_nil
  | cons call calls ih =>
      cases call with
      | bury queue' entry =>
          rw [buriedIds]
          split_ifs with hqueue hkept
          · refine List.nodup_cons.2 ⟨?_, ih _⟩
            intro hmem
            obtain ⟨n, hn, hsame⟩ := lt_of_mem_buriedIds hmem
            rw [toString_nat_inj.1 hsame] at hn
            exact lt_irrefl _ hn
          · exact ih _
          · exact ih _
      | list queue' => exact ih _
      | read queue' id' => exact ih _
      | remove queue' id' => exact ih _

/-- **Redis answers what the memory driver answers, read by its reader**: over every sequence of
calls, on any queues and under any ids, with the record that the memory driver kept `k`-th of a
queue called by the `k`-th id of its dead queue on Redis. -/
theorem dead_stores_agree (ids : BullIds) (calls : List DeadCall) :
    ∃ name : String → String → String,
      (∀ queue k id, (buriedIds queue 0 calls)[k]? = some id → name queue id = ids.of k) ∧
      deadReplies (RedisDead.call ids) .empty (calls.map (.rename name)) =
        (deadReplies MemoryDead.call .empty calls).map (.readBy name) := by
  refine ⟨fun queue => OrderedMap.nameOf ids.of (buriedIds queue 0 calls), ?_,
    (AlikeDead.empty calls).replies⟩
  intro queue k id hk
  obtain ⟨hlt, rfl⟩ := List.getElem?_eq_some_iff.1 hk
  exact congrArg ids.of ((nodup_buriedIds queue calls 0).idxOf_getElem k hlt)

/-! ### A store that keeps what it is given -/

/-- The records of a dead queue as they were buried, oldest first, and how many were. -/
structure KeptDeadQueue where
  records : List (String × DeadEntry)
  added : ℕ

/-- **A dead store that keeps what it is given**, and nothing that `JSON.stringify` refuses. -/
def keptCall (ids : BullIds) (s : String → KeptDeadQueue) :
    DeadCall → (String → KeptDeadQueue) × DeadReply DeadEntry
  | .bury queue entry =>
      if entry.stored.isSome then
        (Function.update s queue ⟨(s queue).records ++ [(ids.of (s queue).added, entry)],
          (s queue).added + 1⟩, .buried true)
      else (s, .buried false)
  | .list queue => (s, .listed queue (s queue).records)
  | .read queue id => (s, .found (.ok (OrderedMap.get (s queue).records id)))
  | .remove queue id =>
      (Function.update s queue { s queue with records := OrderedMap.delete (s queue).records id },
        .removed (OrderedMap.has (s queue).records id))

/-- A stored record that reads back as the entry it was stored for. -/
def IsRecordOf (stored : Value) (entry : DeadEntry) : Prop := readDeadEntry stored = .ok entry

/-- Redis holds what the other store holds, and each record of it reads back. -/
structure KeepsDead (s : String → KeptDeadQueue) (dead : RedisDead) : Prop where
  waiting : ∀ queue,
    OrderedMap.Related IsRecordOf (dead (deadQueueName queue)).waiting (s queue).records
  added : ∀ queue, (dead (deadQueueName queue)).added = (s queue).added
  named : ∀ queue, ∀ job ∈ (dead (deadQueueName queue)).waiting, job.1 ≠ ""

/-- What reads back is listed as it was buried. -/
theorem listDead_of_related {waiting : List (String × Value)} {records : List (String × DeadEntry)}
    (h : OrderedMap.Related IsRecordOf waiting records) : listDead waiting = records := by
  induction h with
  | nil => rfl
  | @cons job record waiting records hhead _ ih =>
      obtain ⟨id, stored⟩ := job
      obtain ⟨id', entry⟩ := record
      obtain ⟨rfl, hread⟩ := hhead
      rw [IsRecordOf] at hread
      have ih : waiting.filterMap _ = records := ih
      simp only [listDead, List.filterMap_cons, hread]
      exact congrArg _ ih

namespace KeepsDead

variable {ids : BullIds} {s : String → KeptDeadQueue} {dead : RedisDead}

theorem bury (h : KeepsDead s dead) (queue : String) {entry : DeadEntry}
    (hentry : entry.stored.isSome = true → entry.Survives) :
    (RedisDead.call ids dead (.bury queue entry)).2 = (keptCall ids s (.bury queue entry)).2 ∧
      KeepsDead (keptCall ids s (.bury queue entry)).1
        (RedisDead.call ids dead (.bury queue entry)).1 := by
  simp only [RedisDead.call, keptCall, RedisDead.kept_bury]
  cases hstored : entry.stored with
  | none => simpa [RedisDead.bury, RedisDead.add, hstored] using h
  | some copy =>
      obtain ⟨stored, hcopy, hread⟩ := hentry (by simp [hstored])
      obtain rfl : stored = copy := Option.some.inj (hcopy.symm.trans hstored)
      simp only [RedisDead.bury, RedisDead.add, hstored, Option.isSome_some, if_true, true_and]
      constructor
      · intro q
        by_cases hq : q = queue
        · subst hq
          simpa only [Function.update_self, h.added] using (h.waiting q).append _ hread
        · simpa [Function.update_of_ne hq, deadQueueName_injective.ne hq] using h.waiting q
      · intro q
        by_cases hq : q = queue
        · subst hq
          simp [h.added q]
        · simpa [Function.update_of_ne hq, deadQueueName_injective.ne hq] using h.added q
      · intro q job hjob
        by_cases hq : q = queue
        · subst hq
          rw [Function.update_self] at hjob
          rcases List.mem_append.1 hjob with hjob | hjob
          · exact h.named q job hjob
          · obtain rfl := List.mem_singleton.1 hjob
            exact ids.nonempty _
        · rw [Function.update_of_ne (deadQueueName_injective.ne hq)] at hjob
          exact h.named q job hjob

theorem remove (h : KeepsDead s dead) (queue id : String) :
    (RedisDead.call ids dead (.remove queue id)).2 = (keptCall ids s (.remove queue id)).2 ∧
      KeepsDead (keptCall ids s (.remove queue id)).1
        (RedisDead.call ids dead (.remove queue id)).1 := by
  simp only [RedisDead.call, keptCall, RedisDead.remove_eq]
  refine ⟨by rw [(h.waiting queue).has id], ?_⟩
  constructor
  · intro q
    by_cases hq : q = queue
    · subst hq
      simpa only [Function.update_self] using (h.waiting q).delete id
    · simpa [Function.update_of_ne hq, deadQueueName_injective.ne hq] using h.waiting q
  · intro q
    by_cases hq : q = queue
    · subst hq
      simp [h.added q]
    · simpa [Function.update_of_ne hq, deadQueueName_injective.ne hq] using h.added q
  · intro q job hjob
    by_cases hq : q = queue
    · subst hq
      rw [Function.update_self] at hjob
      exact h.named q job (List.mem_of_mem_filter hjob)
    · rw [Function.update_of_ne (deadQueueName_injective.ne hq)] at hjob
      exact h.named q job hjob

theorem read (h : KeepsDead s dead) (queue id : String) :
    dead.read queue id = .ok (OrderedMap.get (s queue).records id) := by
  have hget := (h.waiting queue).get id
  rw [RedisDead.read, RedisDead.getJob]
  cases hjob : OrderedMap.get (dead (deadQueueName queue)).waiting id with
  | none =>
      rw [hjob] at hget
      cases hrecord : OrderedMap.get (s queue).records id with
      | none => rfl
      | some entry =>
          rw [hrecord] at hget
          cases hget
  | some stored =>
      rw [hjob] at hget
      cases hrecord : OrderedMap.get (s queue).records id with
      | none =>
          rw [hrecord] at hget
          cases hget
      | some entry =>
          rw [hrecord] at hget
          cases hget with
          | some hread => exact congrArg (Functor.map some) hread

theorem list (h : KeepsDead s dead) (queue : String) : dead.list queue = (s queue).records := by
  rw [RedisDead.list, List.filter_eq_self.2 fun job hjob => decide_eq_true (h.named queue job hjob)]
  exact listDead_of_related (h.waiting queue)

/-- **One call on Redis**, and on a store that keeps what it is given. -/
theorem call (h : KeepsDead s dead) {call : DeadCall}
    (hcall : ∀ queue entry, call = .bury queue entry → entry.stored.isSome = true →
      entry.Survives) :
    (RedisDead.call ids dead call).2 = (keptCall ids s call).2 ∧
      KeepsDead (keptCall ids s call).1 (RedisDead.call ids dead call).1 := by
  cases call with
  | bury queue entry => exact h.bury queue (hcall queue entry rfl)
  | list queue => exact ⟨congrArg (DeadReply.listed queue) (h.list queue), h⟩
  | read queue id => exact ⟨congrArg DeadReply.found (h.read queue id), h⟩
  | remove queue id => exact h.remove queue id

end KeepsDead

/-- **What is buried is what is read back**: over every sequence of calls in which every burial that
is kept survives its storage, the dead store on Redis answers like one that keeps the entries
themselves. -/
theorem dead_store_keeps (ids : BullIds) {calls : List DeadCall}
    (hcalls : ∀ queue entry, .bury queue entry ∈ calls → entry.stored.isSome = true →
      entry.Survives) :
    deadReplies (RedisDead.call ids) .empty calls =
      deadReplies (keptCall ids) (fun _ => ⟨[], 0⟩) calls := by
  have hrun : ∀ s dead, KeepsDead s dead →
      deadReplies (RedisDead.call ids) dead calls = deadReplies (keptCall ids) s calls := by
    induction calls with
    | nil => exact fun _ _ _ => rfl
    | cons call calls ih =>
        intro s dead h
        obtain ⟨hreply, hafter⟩ := @KeepsDead.call ids _ _ h call fun queue entry hcall =>
          hcalls queue entry (hcall ▸ List.mem_cons_self)
        have hrest := ih (fun queue entry hmem => hcalls queue entry (List.mem_cons_of_mem _ hmem))
          _ _
          hafter
        simp only [deadReplies, hreply, hrest]
  refine hrun _ _ ⟨fun _ => .nil, fun _ => rfl, ?_⟩
  intro queue job hjob
  cases hjob

/-! ### Two stores that were called -/

/-- Ids that count. -/
def countedIds : BullIds where
  of := toString
  injective := fun _ _ => toString_nat_inj.1
  nonempty := fun _ hn => Nat.toDigits_ne_nil (String.ofList_injective hn)

/-- A record is buried, listed, read and dropped. -/
def buriedAndDropped : List DeadCall :=
  [.bury "mail" (declinedEntry (.str "declined")), .list "mail", .remove "mail" "0",
    .read "mail" "0"]

/-- Redis lists the entry that was buried, and finds none once it is dropped. -/
theorem dead_store_keeps_example :
    deadReplies (RedisDead.call countedIds) .empty buriedAndDropped =
      [.buried true, .listed "mail" [("0", declinedEntry (.str "declined"))], .removed true,
        .found (.ok none)] := by
  rw [dead_store_keeps countedIds]
  · rfl
  · intro queue entry hmem _
    obtain ⟨-, rfl⟩ : queue = "mail" ∧ entry = declinedEntry (.str "declined") := by
      simpa [buriedAndDropped] using hmem
    exact ⟨_, rfl, rfl⟩

/-- A burial that cannot be copied parts the ids: the next record is the second of the memory
driver, and the first on Redis. -/
example : buriedIds "mail" 0 [.bury "mail" (declinedEntry (.other (some "1") none)),
    .bury "mail" (declinedEntry (.str "declined"))] = ["2"] := by rfl

end Jubs
