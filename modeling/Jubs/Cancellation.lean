/-
**The marks of the cancellations, in both drivers.**

A mark names one delivery of one job: by its queue, its stored id and the count of deliveries the
job was handed out for.  It is written by a cancel, and taken by the first list of deliveries that
holds the delivery it names.

Main definitions:

* `Jubs.matching` — those of a list of objects whose mark matches when their turn comes;
* `Jubs.takeEach` — one object after the other takes the mark that names it;
* `Jubs.MarkKeys` — marks kept in one map, under a key for each job;
* `Jubs.Redis.takeCancelledLua`, `Jubs.Redis.takeCancelled` — the script, and the positions it
  answers mapped back to the objects;
* `Jubs.MarkStore`, `Jubs.redisMarks`, `Jubs.memoryMarks` — the marks of a driver, with their laws.

Main results:

* `Jubs.matching_eq_filter` — in a list of different deliveries, those whose mark matches;
* `Jubs.Redis.takeCancelled_eq` — **the positions a script answers are those of the objects that
  take their mark**;
* `Jubs.MarkKeys.names_takeEach` — what is named once marks are taken.
-/

import Jubs.JobId
import Jubs.MemoryDriver

set_option autoImplicit false

namespace Jubs

/-! ### What a list of deliveries takes -/

/-- Those of the objects whose mark matches when their turn comes, in their order.  A mark that was
taken names nothing any more. -/
def matching {δ : Type} (named : δ → RunningDelivery) :
    (RunningDelivery → Bool) → List δ → List δ
  | _, [] => []
  | names, delivery :: running =>
      if names (named delivery) then
        delivery :: matching named (fun d => d.id ≠ (named delivery).id && names d) running
      else matching named names running

section

variable {δ : Type} {named : δ → RunningDelivery} {names : RunningDelivery → Bool}
  {running : List δ}

theorem matching_cons_pos {delivery : δ} (h : names (named delivery) = true) :
    matching named names (delivery :: running) =
      delivery :: matching named (fun d => d.id ≠ (named delivery).id && names d) running := by
  rw [matching, if_pos h]

theorem matching_cons_neg {delivery : δ} (h : names (named delivery) = false) :
    matching named names (delivery :: running) = matching named names running := by
  rw [matching, if_neg (by simp [h])]

theorem matching_sublist : (matching named names running).Sublist running := by
  induction running generalizing names with
  | nil => exact List.Sublist.slnil
  | cons delivery running ih =>
      cases h : names (named delivery) with
      | true =>
          rw [matching_cons_pos h]
          exact ih.cons_cons delivery
      | false =>
          rw [matching_cons_neg h]
          exact ih.cons delivery

/-- What is taken was named. -/
theorem names_of_mem_matching {delivery : δ} (h : delivery ∈ matching named names running) :
    names (named delivery) = true := by
  induction running generalizing names with
  | nil => cases h
  | cons first running ih =>
      cases hfirst : names (named first) with
      | true =>
          rw [matching_cons_pos hfirst] at h
          rcases List.mem_cons.1 h with rfl | h
          · exact hfirst
          · exact (Bool.and_eq_true_iff.1 (ih h)).2
      | false =>
          rw [matching_cons_neg hfirst] at h
          exact ih h

/-- **A mark is taken once**: no two objects of a list take a mark of one id. -/
theorem nodup_matching : ((matching named names running).map fun d => (named d).id).Nodup := by
  induction running generalizing names with
  | nil => exact List.nodup_nil
  | cons delivery running ih =>
      cases h : names (named delivery) with
      | true =>
          rw [matching_cons_pos h, List.map_cons, List.nodup_cons]
          refine ⟨fun hmem => ?_, ih⟩
          obtain ⟨other, hother, hid⟩ := List.mem_map.1 hmem
          have hne := names_of_mem_matching hother
          simp [hid] at hne
      | false =>
          rw [matching_cons_neg h]
          exact ih

/-- **In a list of different deliveries, an object is taken exactly when a mark names it**, provided
that the marks name one delivery of an id at most. -/
theorem matching_eq_filter (hnodup : (running.map named).Nodup)
    (hone : ∀ d d', names d = true → names d' = true → d.id = d'.id → d = d') :
    matching named names running = running.filter fun delivery => names (named delivery) := by
  induction running generalizing names with
  | nil => rfl
  | cons delivery running ih =>
      obtain ⟨hfresh, hnodup⟩ := List.nodup_cons.1 hnodup
      cases h : names (named delivery) with
      | true =>
          have hone' : ∀ d d', (d.id ≠ (named delivery).id && names d) = true →
              (d'.id ≠ (named delivery).id && names d') = true → d.id = d'.id → d = d' := by
            intro d d' hd hd'
            exact hone d d' (Bool.and_eq_true_iff.1 hd).2 (Bool.and_eq_true_iff.1 hd').2
          have hfilter : (delivery :: running).filter (fun d => names (named d)) =
              delivery :: running.filter fun d => names (named d) := List.filter_cons_of_pos h
          rw [matching_cons_pos h, hfilter, ih hnodup hone']
          congr 1
          -- another object of the same id would be the same delivery
          refine List.filter_congr fun other hother => ?_
          cases hnames : names (named other) with
          | false => simp
          | true =>
              have hne : (named other).id ≠ (named delivery).id := by
                intro hid
                refine hfresh ?_
                rw [← hone _ _ hnames h hid]
                exact List.mem_map_of_mem hother
              simp [hne]
      | false =>
          have hfilter : (delivery :: running).filter (fun d => names (named d)) =
              running.filter fun d => names (named d) := List.filter_cons_of_neg (by simp [h])
          rw [matching_cons_neg h, hfilter, ih hnodup hone]

/-- One delivery after the other takes the mark that names it out of the marks. -/
def takeEach {μ : Type} (named : δ → RunningDelivery) (names : μ → RunningDelivery → Bool)
    (unmark : String → μ → μ) : μ → List δ → List δ × μ
  | m, [] => ([], m)
  | m, delivery :: running =>
      if names m (named delivery) then
        let (taken, m') := takeEach named names unmark (unmark (named delivery).id m) running
        (delivery :: taken, m')
      else takeEach named names unmark m running

section

variable {μ : Type} {marks : μ → RunningDelivery → Bool} {unmark : String → μ → μ} {m : μ}

theorem takeEach_cons_pos {delivery : δ} (h : marks m (named delivery) = true) :
    takeEach named marks unmark m (delivery :: running) =
      (delivery :: (takeEach named marks unmark (unmark (named delivery).id m) running).1,
        (takeEach named marks unmark (unmark (named delivery).id m) running).2) := by
  rw [takeEach, if_pos h]

theorem takeEach_cons_neg {delivery : δ} (h : marks m (named delivery) = false) :
    takeEach named marks unmark m (delivery :: running) =
      takeEach named marks unmark m running := by
  rw [takeEach, if_neg (by simp [h])]

variable (hunmark : ∀ (m : μ) (id : String) (d : RunningDelivery),
  marks (unmark id m) d = (decide (d.id ≠ id) && marks m d))
include hunmark

theorem takeEach_fst :
    (takeEach named marks unmark m running).1 = matching named (marks m) running := by
  induction running generalizing m with
  | nil => rfl
  | cons delivery running ih =>
      cases h : marks m (named delivery) with
      | true =>
          have hnames : marks (unmark (named delivery).id m) =
              fun d => d.id ≠ (named delivery).id && marks m d := by
            funext d
            exact hunmark m _ d
          rw [takeEach_cons_pos h, matching_cons_pos h, ← hnames, ← ih]
      | false => rw [takeEach_cons_neg h, matching_cons_neg h, ih]

/-- What is named afterwards: what was named, less the ids that were taken. -/
theorem marks_takeEach {d : RunningDelivery} :
    marks (takeEach named marks unmark m running).2 d = true ↔ marks m d = true ∧
      ∀ delivery ∈ matching named (marks m) running, (named delivery).id ≠ d.id := by
  induction running generalizing m with
  | nil => simp [takeEach, matching]
  | cons delivery running ih =>
      cases h : marks m (named delivery) with
      | true =>
          have hnames : marks (unmark (named delivery).id m) =
              fun d => d.id ≠ (named delivery).id && marks m d := by
            funext d
            exact hunmark m _ d
          rw [takeEach_cons_pos h, matching_cons_pos h, ← hnames, List.forall_mem_cons, ih,
            hunmark, Bool.and_eq_true_iff, decide_eq_true_iff, and_assoc, ne_comm]
          exact and_left_comm
      | false => rw [takeEach_cons_neg h, matching_cons_neg h, ih]

omit hunmark in
/-- What no removal of a mark touches is not touched. -/
theorem takeEach_frame {α : Type} {f : μ → α} (hf : ∀ m id, f (unmark id m) = f m) :
    f (takeEach named marks unmark m running).2 = f m := by
  induction running generalizing m with
  | nil => rfl
  | cons delivery running ih =>
      cases h : marks m (named delivery) with
      | true => rw [takeEach_cons_pos h, ih, hf]
      | false => rw [takeEach_cons_neg h, ih]

end

end

/-! ### Marks under their keys -/

/-- A driver keeps its marks in one map: under a key for each job, and as a value for each count of
deliveries. -/
structure MarkKeys (β : Type) where
  key : String → String → String
  value : ℕ → β
  key_inj : ∀ {q q' : QueueName} {id id' : String},
    key q.name id = key q'.name id' ↔ q = q' ∧ id = id'
  value_inj : ∀ {n n' : ℕ}, value n = value n' ↔ n = n'

namespace MarkKeys

variable {β : Type} [DecidableEq β] (keys : MarkKeys β)

/-- A delivery is marked. -/
def mark (queue : String) (d : RunningDelivery) (marks : String → Option β) : String → Option β :=
  Function.update marks (keys.key queue d.id) (some (keys.value d.attemptsStarted))

/-- The mark of an id is gone: taken, or past its time. -/
def unmark (queue : String) (id : String) (marks : String → Option β) : String → Option β :=
  Function.update marks (keys.key queue id) none

/-- Whether a mark names a delivery of a queue. -/
def names (queue : String) (marks : String → Option β) (d : RunningDelivery) : Bool :=
  marks (keys.key queue d.id) = some (keys.value d.attemptsStarted)

variable {keys} {q q' : QueueName} {marks : String → Option β} {d d' : RunningDelivery}
  {id : String}

theorem names_iff {queue : String} : keys.names queue marks d = true ↔
    marks (keys.key queue d.id) = some (keys.value d.attemptsStarted) := decide_eq_true_iff

theorem names_eq_false_iff {queue : String} : keys.names queue marks d = false ↔
    ¬ marks (keys.key queue d.id) = some (keys.value d.attemptsStarted) := decide_eq_false_iff_not

theorem names_mark : keys.names q'.name (keys.mark q.name d marks) d' = true ↔
    if q' = q ∧ d'.id = d.id then d' = d else keys.names q'.name marks d' = true := by
  rw [names_iff, mark]
  split_ifs with h
  · obtain ⟨rfl, hid⟩ := h
    rw [hid, Function.update_self, Option.some_inj, keys.value_inj]
    constructor
    · intro hcount
      cases d
      cases d'
      simp_all
    · rintro rfl
      rfl
  · rw [Function.update_of_ne (fun hkey => h (keys.key_inj.1 hkey)), names_iff]

theorem names_unmark : keys.names q'.name (keys.unmark q.name id marks) d =
    (!decide (q' = q ∧ d.id = id) && keys.names q'.name marks d) := by
  rw [Bool.eq_iff_iff, names_iff, unmark]
  by_cases h : q' = q ∧ d.id = id
  · obtain ⟨rfl, rfl⟩ := h
    simp
  · rw [Function.update_of_ne (fun hkey => h (keys.key_inj.1 hkey))]
    simp [h, names]

/-- The marks name one delivery of an id at most. -/
theorem names_one {queue : String} (h : keys.names queue marks d = true)
    (h' : keys.names queue marks d' = true) (hid : d.id = d'.id) : d = d' := by
  have hcount := (names_iff.1 h).symm.trans (hid ▸ names_iff.1 h')
  rw [Option.some_inj, keys.value_inj] at hcount
  cases d
  cases d'
  simp_all

end MarkKeys

/-! ### The marks of Redis -/

/-- `String(n)` tells `n`. -/
theorem toString_nat_inj {n n' : ℕ} : toString n = toString n' ↔ n = n' := by
  constructor
  · intro h
    have hdigits : Nat.toDigits 10 n = Nat.toDigits 10 n' := String.ofList_injective h
    rw [← Nat.ofDigitChars_toDigits (b := 10) (n := n) (by decide) (by decide), hdigits,
      Nat.ofDigitChars_toDigits (by decide) (by decide)]
  · exact fun h => h ▸ rfl

/-- The strings Redis keeps under the keys of the marks. -/
abbrev RedisMarks : Type := String → Option String

namespace Redis

/-- `CANCEL_KEY_PREFIX`. -/
def cancelKeyPrefix : String := "jubs:cancel:"

/-- `cancelPrefix(queue)`: the queue stands in a hash tag. -/
def cancelPrefix (queue : String) : String := cancelKeyPrefix ++ "\x7b" ++ queue ++ "\x7d:"

/-- A key names one queue and one id. -/
theorem cancelPrefix_append_inj {q q' : QueueName} {id id' : String} :
    cancelPrefix q.name ++ id = cancelPrefix q'.name ++ id' ↔ q = q' ∧ id = id' := by
  have hcolon : ∀ q : QueueName, ':' ∉ q.name.toList ++ ['}'] := by
    intro q
    simp [q.noColon]
  rw [← String.toList_inj, QueueName.ext_iff', ← String.toList_inj, ← String.toList_inj]
  have hkey : ∀ (q : QueueName) (id : String), (cancelPrefix q.name ++ id).toList =
      (cancelKeyPrefix ++ "\x7b").toList ++ ((q.name.toList ++ ['}']) ++ ':' :: id.toList) := by
    intro q id
    simp only [cancelPrefix, String.toList_append, List.append_assoc]
    rfl
  rw [hkey, hkey, List.append_cancel_left_eq, Cut.append_cons_inj (hcolon q) (hcolon q'),
    List.append_cancel_right_eq]

/-- The keys and the values of the marks in Redis. -/
def markKeys : MarkKeys String where
  key queue id := cancelPrefix queue ++ id
  value n := toString n
  key_inj := cancelPrefix_append_inj
  value_inj := toString_nat_inj

/-- `requestCancel(client, queue, delivery)`. -/
def requestCancel (m : RedisMarks) (queue : String) (delivery : RunningDelivery) : RedisMarks :=
  Function.update m (cancelPrefix queue ++ delivery.id) (some (toString delivery.attemptsStarted))

/-- `TAKE_CANCELLED_LUA`, from an index on.  It answers the positions of the pairs it took. -/
def takeCancelledLua (key : String) : RedisMarks → ℕ → List String → List ℕ × RedisMarks
  | m, index, id :: attemptsStarted :: argv =>
      if m (key ++ id) = some attemptsStarted then
        let (taken, m') :=
          takeCancelledLua key (Function.update m (key ++ id) none) (index + 2) argv
        ((index + 1) / 2 :: taken, m')
      else takeCancelledLua key m (index + 2) argv
  | m, _, _ => ([], m)

/-- `running.flatMap((delivery) => [delivery.id, String(delivery.attemptsStarted)])`. -/
def takeCancelledArgv {δ : Type} (named : δ → RunningDelivery) (running : List δ) : List String :=
  running.flatMap fun delivery => [(named delivery).id, toString (named delivery).attemptsStarted]

/-- `running[Number(position) - 1]`. -/
def objectAt {δ : Type} (running : List δ) : ℕ → Option δ
  | 0 => none
  | position + 1 => running[position]?

/-- `takeCancelled(queue, running)`: those of the objects whose positions the script answers. -/
def takeCancelled {δ : Type} (named : δ → RunningDelivery) (queue : String) (m : RedisMarks)
    (running : List δ) : List δ × RedisMarks :=
  if running = [] then ([], m)
  else
    let (taken, m') :=
      takeCancelledLua (cancelPrefix queue) m 1 (takeCancelledArgv named running)
    (taken.filterMap (objectAt running), m')

section

variable {δ : Type} {named : δ → RunningDelivery}

/-- The script over the pairs of some objects that come after others: it answers the places of those
that take their mark. -/
theorem takeCancelledLua_eq (queue : String) (front running : List δ) (m : RedisMarks) :
    let answer := takeCancelledLua (cancelPrefix queue) m (2 * front.length + 1)
      (takeCancelledArgv named running)
    let each := takeEach named (markKeys.names queue) (markKeys.unmark queue) m running
    answer.1.filterMap (objectAt (front ++ running)) = each.1 ∧ answer.2 = each.2 := by
  induction running generalizing front m with
  | nil => exact ⟨rfl, rfl⟩
  | cons delivery running ih =>
      have hindex : 2 * front.length + 1 + 2 = 2 * (front ++ [delivery]).length + 1 := by
        rw [List.length_append, List.length_singleton]
        omega
      have hargv : takeCancelledArgv named (delivery :: running) = (named delivery).id ::
          toString (named delivery).attemptsStarted :: takeCancelledArgv named running := rfl
      have happend : front ++ delivery :: running = (front ++ [delivery]) ++ running := by simp
      dsimp only
      rw [hargv, takeCancelledLua]
      cases h : markKeys.names queue m (named delivery) with
      | true =>
          obtain ⟨hobjects, hmarks⟩ :=
            ih (front ++ [delivery]) (markKeys.unmark queue (named delivery).id m)
          -- the index is odd, and half of what follows it is the place of the pair
          have hposition : (2 * front.length + 1 + 1) / 2 = front.length + 1 := by omega
          have hobject : objectAt (front ++ delivery :: running) (front.length + 1) =
              some delivery := by simp [objectAt]
          have hmark : m (cancelPrefix queue ++ (named delivery).id) =
              some (toString (named delivery).attemptsStarted) := MarkKeys.names_iff.1 h
          rw [if_pos hmark, takeEach_cons_pos h, hposition, hindex]
          refine ⟨?_, hmarks⟩
          rw [List.filterMap_cons_some hobject, happend]
          exact congrArg (delivery :: ·) hobjects
      | false =>
          have hmark : ¬ m (cancelPrefix queue ++ (named delivery).id) =
              some (toString (named delivery).attemptsStarted) := MarkKeys.names_eq_false_iff.1 h
          rw [if_neg hmark, takeEach_cons_neg h, hindex, happend]
          exact ih (front ++ [delivery]) m

/-- **The positions a script answers are those of the objects that take their mark.** -/
theorem takeCancelled_eq (queue : String) (m : RedisMarks) (running : List δ) :
    takeCancelled named queue m running =
      takeEach named (markKeys.names queue) (markKeys.unmark queue) m running := by
  unfold takeCancelled
  split_ifs with h
  · rw [h]
    rfl
  · obtain ⟨hobjects, hmarks⟩ := @takeCancelledLua_eq δ named queue [] running m
    exact Prod.ext hobjects hmarks

end

end Redis

/-! ### The marks of the memory driver -/

namespace MemoryDriver

/-- The keys and the values of the marks in the memory driver. -/
def markKeys : MarkKeys ℕ where
  key := composeJobId
  value := id
  key_inj := composeJobId_inj
  value_inj := Iff.rfl

/-- Whether a mark names a delivery of a queue. -/
def names (queue : String) (m : MemoryDriver) (d : RunningDelivery) : Bool :=
  markKeys.names queue m.marked d

/-- The mark of an id is taken away. -/
def unmark (queue : String) (id : String) (m : MemoryDriver) : MemoryDriver :=
  { m with marked := markKeys.unmark queue id m.marked }

/-- The objects are asked for one after the other. -/
theorem takeCancelled_eq_takeEach {δ : Type} (named : δ → RunningDelivery) (queue : String)
    (m : MemoryDriver) (running : List δ) :
    m.takeCancelled named queue running =
      takeEach named (names queue) (unmark queue) m running := by
  induction running generalizing m with
  | nil => rfl
  | cons delivery running ih =>
      rw [takeCancelled, takeCancellation]
      cases h : names queue m (named delivery) with
      | true =>
          have hmark : m.marked (composeJobId queue (named delivery).id) =
              some (named delivery).attemptsStarted := MarkKeys.names_iff.1 h
          rw [if_pos hmark, takeEach_cons_pos h]
          dsimp only
          rw [if_pos rfl, ih]
          rfl
      | false =>
          have hmark : ¬ m.marked (composeJobId queue (named delivery).id) =
              some (named delivery).attemptsStarted := MarkKeys.names_eq_false_iff.1 h
          rw [if_neg hmark, takeEach_cons_neg h]
          dsimp only
          rw [if_neg Bool.false_ne_true, ih]

end MemoryDriver

/-! ### The marks of a driver -/

/-- The marks of a driver: what a cancel writes, what a list of deliveries takes, what expires, and
which delivery of a queue is named.  The laws say what each of them does to what is named. -/
structure MarkStore (μ : Type) where
  empty : μ
  request : String → RunningDelivery → μ → μ
  take : {δ : Type} → (δ → RunningDelivery) → String → List δ → μ → List δ × μ
  expire : String → String → μ → μ
  names : String → μ → RunningDelivery → Bool
  names_empty : ∀ queue d, names queue empty d = false
  names_request : ∀ {q q' : QueueName} {m : μ} {d d' : RunningDelivery},
    names q'.name (request q.name d m) d' = true ↔
      if q' = q ∧ d'.id = d.id then d' = d else names q'.name m d' = true
  names_expire : ∀ {q q' : QueueName} {m : μ} {id : String} {d : RunningDelivery},
    names q'.name (expire q.name id m) d = true → names q'.name m d = true
  names_expire_of_ne : ∀ {q q' : QueueName} {m : μ} {id : String} {d : RunningDelivery},
    ¬ (q' = q ∧ d.id = id) → names q'.name (expire q.name id m) d = names q'.name m d
  take_fst : ∀ {δ : Type} {named : δ → RunningDelivery} {q : QueueName} {running : List δ} {m : μ},
    (take named q.name running m).1 = matching named (names q.name m) running
  names_take : ∀ {δ : Type} {named : δ → RunningDelivery} {q q' : QueueName} {running : List δ}
    {m : μ} {d : RunningDelivery},
    names q'.name (take named q.name running m).2 d = true ↔ names q'.name m d = true ∧
      (q' = q → ∀ delivery ∈ matching named (names q.name m) running, (named delivery).id ≠ d.id)
  names_one : ∀ {queue : String} {m : μ} {d d' : RunningDelivery},
    names queue m d = true → names queue m d' = true → d.id = d'.id → d = d'

namespace MarkKeys

variable {β μ δ : Type} [DecidableEq β] {keys : MarkKeys β} {named : δ → RunningDelivery}
  {q q' : QueueName} {running : List δ} {m : μ} {d : RunningDelivery}
  {marked : μ → String → Option β} {unmark : String → μ → μ}
  (hunmark : ∀ id m, marked (unmark id m) = keys.unmark q.name id (marked m))
include hunmark

/-- What is named once the mark of an id is taken. -/
theorem names_unmark_self (m : μ) (id : String) (d : RunningDelivery) :
    keys.names q.name (marked (unmark id m)) d =
      (decide (d.id ≠ id) && keys.names q.name (marked m) d) := by
  rw [hunmark, names_unmark]
  simp

/-- What the objects of a queue take, in a driver that keeps its marks under keys. -/
theorem takeEach_fst : (takeEach named (fun m => keys.names q.name (marked m)) unmark m running).1 =
    matching named (keys.names q.name (marked m)) running :=
  Jubs.takeEach_fst (names_unmark_self hunmark)

/-- What is named once they have taken it. -/
theorem names_takeEach : keys.names q'.name (marked
      (takeEach named (fun m => keys.names q.name (marked m)) unmark m running).2) d = true ↔
    keys.names q'.name (marked m) d = true ∧ (q' = q →
      ∀ delivery ∈ matching named (keys.names q.name (marked m)) running,
        (named delivery).id ≠ d.id) := by
  by_cases hq : q' = q
  · subst hq
    simp only [true_imp_iff]
    exact @marks_takeEach _ named running μ (fun m => keys.names q'.name (marked m))
      unmark m (names_unmark_self hunmark) d
  · simp only [hq, false_imp_iff, and_true]
    rw [takeEach_frame (f := fun m => keys.names q'.name (marked m) d)]
    intro m id
    simp only [hunmark, names_unmark, hq, false_and, decide_false, Bool.not_false, Bool.true_and]

end MarkKeys

/-- The marks in Redis. -/
def redisMarks : MarkStore RedisMarks where
  empty := fun _ => none
  request queue d m := Redis.requestCancel m queue d
  take named queue running m := Redis.takeCancelled named queue m running
  expire queue id m := Redis.markKeys.unmark queue id m
  names queue m d := Redis.markKeys.names queue m d
  names_empty _ _ := rfl
  names_request := MarkKeys.names_mark
  names_expire := by
    intro q q' m id d h
    rw [MarkKeys.names_unmark] at h
    exact (Bool.and_eq_true_iff.1 h).2
  names_expire_of_ne := by
    intro q q' m id d h
    simp [MarkKeys.names_unmark, h]
  take_fst := by
    intro δ named q running m
    rw [Redis.takeCancelled_eq]
    exact @MarkKeys.takeEach_fst String _ δ _ Redis.markKeys named q running m id
      (Redis.markKeys.unmark q.name) (fun _ _ => rfl)
  names_take := by
    intro δ named q q' running m d
    rw [Redis.takeCancelled_eq]
    exact @MarkKeys.names_takeEach String _ δ _ Redis.markKeys named q q' running m d id
      (Redis.markKeys.unmark q.name) (fun _ _ => rfl)
  names_one := MarkKeys.names_one

/-- The marks in the memory driver, which keep no clock. -/
def memoryMarks : MarkStore MemoryDriver where
  empty := memoryDriver
  request queue d m := m.requestCancel queue d
  take named queue running m := m.takeCancelled named queue running
  expire _ _ m := m
  names := MemoryDriver.names
  names_empty _ _ := rfl
  names_request := MarkKeys.names_mark
  names_expire h := h
  names_expire_of_ne _ := rfl
  take_fst := by
    intro δ named q running m
    rw [MemoryDriver.takeCancelled_eq_takeEach]
    exact @MarkKeys.takeEach_fst ℕ _ δ _ MemoryDriver.markKeys named q running m MemoryDriver.marked
      (MemoryDriver.unmark q.name) (fun _ _ => rfl)
  names_take := by
    intro δ named q q' running m d
    rw [MemoryDriver.takeCancelled_eq_takeEach]
    exact @MarkKeys.names_takeEach ℕ _ δ _ MemoryDriver.markKeys named q q' running m d
      MemoryDriver.marked
      (MemoryDriver.unmark q.name) (fun _ _ => rfl)
  names_one := MarkKeys.names_one

end Jubs
