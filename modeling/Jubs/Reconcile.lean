/-
**Reconciling the schedulers of a queue.**

Redis keeps the schedulers of a queue under one key each.  Reconciling them takes away those whose
key carries the prefix of the library and no declared schedule names, and then writes the declared
schedules one after the other.  Redis may refuse to read them, and refuse any removal and any write.

Main definitions:

* `Jubs.Scheduler`, `Jubs.Schedulers` — what is kept of one recurrence, and of those of a queue;
* `Jubs.toRepeatOptions`, `Jubs.toScheduler` — what a declared schedule is written as;
* `Jubs.ReconcileAnswers` — what Redis answers;
* `Jubs.reconcileSchedules` — the schedulers a reconciliation leaves, and its outcome.

Main results:

* `Jubs.reconcileSchedules_cases` — **the removals and the writes that took place**, whatever Redis
  answers;
* `Jubs.reconcileLaw` — what a reconciliation leaves, resolved or refused.
-/

import Jubs.Cut
import Jubs.Startup
import Mathlib.Data.List.AList

set_option autoImplicit false

namespace Jubs

/-! ### What is kept of a recurrence -/

/-- `RepeatOptions`. -/
structure RepeatOptions where
  every : Option Number
  pattern : Option String
  tz : Option String

/-- A job scheduler: when it fires, and the template of the jobs it fires. -/
structure Scheduler where
  repeatOptions : RepeatOptions
  name : String
  data : Value
  opts : JobsOptions

/-- The schedulers of one queue, each under its own key. -/
abbrev Schedulers : Type := AList fun _ : String => Scheduler

/-- `SCHEDULER_PREFIX`. -/
def schedulerPrefix : String := "jubs."

/-- `schedulerId(jobName)`. -/
def schedulerId (jobName : String) : String := schedulerPrefix ++ jobName

/-- `key.startsWith(SCHEDULER_PREFIX)`. -/
def isPrefixed (key : String) : Bool := Cut.startsWith key schedulerPrefix

/-- The key a declared schedule is written under. -/
def ScheduleUpsert.key (schedule : ScheduleUpsert) : String := schedulerId schedule.envelope.name

/-- `toRepeatOptions(schedule)`.  A time zone without a name passes for none. -/
def toRepeatOptions (schedule : ScheduleUpsert) : RepeatOptions :=
  match schedule.recurrence with
  | .everyMs ms => ⟨some ms, none, none⟩
  | .pattern text =>
      let timezone := schedule.timezone.getD ""
      if timezone = "" then ⟨none, some text, none⟩ else ⟨none, some text, some timezone⟩

/-- What `upsertJobScheduler` is given for a declared schedule. -/
def toScheduler (schedule : ScheduleUpsert) : Scheduler where
  repeatOptions := toRepeatOptions schedule
  name := schedule.envelope.name
  data := schedule.envelope.toValue
  opts := toTemplateOptions schedule.delivery

/-! ### Reconciling -/

/-- What Redis answers.  An operation that is refused changes nothing. -/
structure ReconcileAnswers where
  /-- Whether the connection passes and the schedulers are read. -/
  existing : Except Thrown Unit
  removal : String → Except Thrown Unit
  /-- The order in which the removals settle. -/
  order : List String → List String
  order_perm : ∀ keys, (order keys).Perm keys
  upsert : ScheduleUpsert → Except Thrown Unit

/-- `refusedRecurrence(schedule)`. -/
def refusedRecurrence (schedule : ScheduleUpsert) : String :=
  match schedule.recurrence with
  | .everyMs ms => "the interval of " ++ Value.numberText ms ++ "ms"
  | .pattern text => "the pattern \"" ++ text ++ "\""

/-- `refusedSchedule(schedule, error)`.  The text of what Redis refused with may be missing, when it
cannot be converted. -/
def refusedSchedule (schedule : ScheduleUpsert) (error : Thrown) : Thrown :=
  match error.messageValue.toText with
  | some reason => plainError ("jubs: redis refused the schedule of the job \"" ++
      schedule.envelope.name ++ "\" — correct " ++ refusedRecurrence schedule ++
      " its definition declares, or the time zone it runs in — " ++ reason) (some error)
  | none => typeError

/-- The keys that are taken away. -/
def staleKeys (declared : List ScheduleUpsert) (schedulers : Schedulers) : List String :=
  let kept := declared.map ScheduleUpsert.key
  schedulers.keys.filter fun key => isPrefixed key && !kept.contains key

/-- Whether a removal is made. -/
def ReconcileAnswers.removes (answers : ReconcileAnswers) (key : String) : Bool :=
  match answers.removal key with
  | .ok _ => true
  | .error _ => false

/-- The schedulers without those of some keys. -/
def eraseAll (keys : List String) (schedulers : Schedulers) : Schedulers :=
  keys.foldl (fun left key => left.erase key) schedulers

/-- The schedulers with some declared schedules written. -/
def writeAll (schedules : List ScheduleUpsert) (schedulers : Schedulers) : Schedulers :=
  schedules.foldl (fun left schedule => left.insert schedule.key (toScheduler schedule)) schedulers

/-- The loop of `reconcileSchedules`, up to the first schedule that is refused. -/
def upsertAll (answers : ReconcileAnswers) :
    List ScheduleUpsert → Schedulers → Schedulers × Except Thrown Unit
  | [], schedulers => (schedulers, .ok ())
  | schedule :: rest, schedulers =>
      match answers.upsert schedule with
      | .error error => (schedulers, .error (refusedSchedule schedule error))
      | .ok _ => upsertAll answers rest (schedulers.insert schedule.key (toScheduler schedule))

/-- `reconcileSchedules({ queue, declared })`: what it leaves of the schedulers of the queue, and
its outcome.  The removals are asked for at once, and each that is not refused is made. -/
def reconcileSchedules (declared : List ScheduleUpsert) (answers : ReconcileAnswers)
    (schedulers : Schedulers) : Schedulers × Except Thrown Unit :=
  match answers.existing with
  | .error error => (schedulers, .error error)
  | .ok _ =>
      let stale := staleKeys declared schedulers
      let left := eraseAll (stale.filter answers.removes) schedulers
      match (answers.order stale).mapM answers.removal with
      | .error error => (left, .error error)
      | .ok _ => upsertAll answers declared left

/-! ### The removals and the writes -/

variable {declared schedules : List ScheduleUpsert} {answers : ReconcileAnswers}
variable {schedulers : Schedulers} {key : String}

theorem isPrefixed_schedulerId (jobName : String) : isPrefixed (schedulerId jobName) = true :=
  Cut.startsWith_append _ _

theorem schedulerId_injective : Function.Injective schedulerId := by
  intro a b h
  have hlist := congrArg String.toList h
  simp only [schedulerId, String.toList_append, List.append_cancel_left_eq] at hlist
  exact String.toList_inj.1 hlist

/-- Schedules of jobs with distinct names are written under distinct keys. -/
theorem nodup_keys (h : (declared.map fun schedule => schedule.envelope.name).Nodup) :
    (declared.map ScheduleUpsert.key).Nodup := by
  have hmap : declared.map ScheduleUpsert.key =
      (declared.map fun schedule => schedule.envelope.name).map schedulerId := by
    rw [List.map_map]
    rfl
  rw [hmap]
  exact h.map schedulerId_injective

theorem lookup_eraseAll (keys : List String) (schedulers : Schedulers) (key : String) :
    (eraseAll keys schedulers).lookup key = if key ∈ keys then none else schedulers.lookup key := by
  induction keys generalizing schedulers with
  | nil => rfl
  | cons other keys ih =>
      rw [eraseAll, List.foldl_cons]
      refine (ih (schedulers.erase other)).trans ?_
      by_cases hkey : key = other
      · subst hkey
        simp
      · simp [hkey]

/-- What no schedule is written under stays as it is. -/
theorem lookup_writeAll_of_not_mem (h : key ∉ schedules.map ScheduleUpsert.key) :
    (writeAll schedules schedulers).lookup key = schedulers.lookup key := by
  induction schedules generalizing schedulers with
  | nil => rfl
  | cons schedule schedules ih =>
      obtain ⟨hne, hrest⟩ : key ≠ schedule.key ∧ key ∉ schedules.map ScheduleUpsert.key := by
        simpa using h
      rw [writeAll, List.foldl_cons]
      exact (ih hrest).trans (AList.lookup_insert_ne hne)

/-- Each schedule is found as it was written, when no two are written under one key. -/
theorem lookup_writeAll_of_mem (hnodup : (schedules.map ScheduleUpsert.key).Nodup)
    {schedule : ScheduleUpsert} (h : schedule ∈ schedules) :
    (writeAll schedules schedulers).lookup schedule.key = some (toScheduler schedule) := by
  induction schedules generalizing schedulers with
  | nil => cases h
  | cons first schedules ih =>
      obtain ⟨hfirst, hrest⟩ := List.nodup_cons.1 hnodup
      rw [writeAll, List.foldl_cons]
      rcases List.mem_cons.1 h with rfl | h
      · exact (lookup_writeAll_of_not_mem hfirst).trans (AList.lookup_insert _)
      · exact ih hrest h

theorem mem_staleKeys : key ∈ staleKeys declared schedulers ↔
    key ∈ schedulers ∧ isPrefixed key = true ∧ key ∉ declared.map ScheduleUpsert.key := by
  simp [staleKeys, AList.mem_keys]

/-- The loop writes the schedules up to one that is refused. -/
theorem upsertAll_cases (answers : ReconcileAnswers) (declared : List ScheduleUpsert)
    (schedulers : Schedulers) : ∃ written, written <+: declared ∧
      (upsertAll answers declared schedulers).1 = writeAll written schedulers ∧
        ((upsertAll answers declared schedulers).2 = .ok () → written = declared) := by
  induction declared generalizing schedulers with
  | nil => exact ⟨[], List.prefix_rfl, rfl, fun _ => rfl⟩
  | cons schedule rest ih =>
      rw [upsertAll]
      cases hupsert : answers.upsert schedule with
      | error error => exact ⟨[], List.nil_prefix, rfl, fun h => by cases h⟩
      | ok =>
          obtain ⟨written, hwritten, hleft, hok⟩ :=
            ih (schedulers.insert schedule.key (toScheduler schedule))
          refine ⟨schedule :: written, List.cons_prefix_cons.2 ⟨rfl, hwritten⟩, hleft, ?_⟩
          intro h
          rw [hok h]

/-- **The removals and the writes that took place.**  Nothing is written before every removal was
made, and a reconciliation that resolves has made them all. -/
theorem reconcileSchedules_cases (declared : List ScheduleUpsert) (answers : ReconcileAnswers)
    (schedulers : Schedulers) : ∃ removed written,
      removed ⊆ staleKeys declared schedulers ∧ written <+: declared ∧
      (reconcileSchedules declared answers schedulers).1 = writeAll written
      (eraseAll removed schedulers) ∧ ((reconcileSchedules declared answers schedulers).2 = .ok () →
        removed = staleKeys declared schedulers ∧ written = declared) := by
  cases hexisting : answers.existing with
  | error error =>
      have heq : reconcileSchedules declared answers schedulers = (schedulers, .error error) := by
        simp only [reconcileSchedules, hexisting]
      rw [heq]
      exact ⟨[], [], List.nil_subset _, List.nil_prefix, rfl, fun h => by cases h⟩
  | ok =>
      cases hremovals : (answers.order (staleKeys declared schedulers)).mapM answers.removal with
      | error error =>
          have heq : reconcileSchedules declared answers schedulers =
              (eraseAll ((staleKeys declared schedulers).filter answers.removes) schedulers,
                .error error) := by
            simp only [reconcileSchedules, hexisting, hremovals]
          rw [heq]
          exact ⟨_, [], List.filter_subset_self _, List.nil_prefix, rfl, fun h => by cases h⟩
      | ok =>
          have hall : (staleKeys declared schedulers).filter answers.removes =
              staleKeys declared schedulers := by
            refine List.filter_eq_self.2 fun key hkey => ?_
            obtain ⟨done, hdone⟩ :=
              exists_of_mapM_eq_ok hremovals ((answers.order_perm _).mem_iff.2 hkey)
            simp [ReconcileAnswers.removes, hdone]
          have heq : reconcileSchedules declared answers schedulers =
              upsertAll answers declared (eraseAll (staleKeys declared schedulers) schedulers) := by
            simp only [reconcileSchedules, hexisting, hremovals, hall]
          obtain ⟨written, hwritten, hleft, hok⟩ :=
            upsertAll_cases answers declared (eraseAll (staleKeys declared schedulers) schedulers)
          rw [heq]
          exact ⟨_, written, List.Subset.refl _, hwritten, hleft, fun h => ⟨rfl, hok h⟩⟩

/-! ### What a reconciliation leaves -/

/-- A scheduler carries what a schedule declares.  A time zone without a name is none. -/
structure CarriesSchedule (schedule : ScheduleUpsert) (scheduler : Scheduler) : Prop where
  interval : ∀ ms, schedule.recurrence = .everyMs ms → scheduler.repeatOptions =
    ⟨some ms, none, none⟩
  pattern : ∀ text, schedule.recurrence = .pattern text → scheduler.repeatOptions.every = none ∧
    scheduler.repeatOptions.pattern = some text ∧
      ∀ zone, scheduler.repeatOptions.tz = some zone ↔ schedule.timezone = some zone ∧ zone ≠ ""
  envelope : scheduler.name = schedule.envelope.name ∧ scheduler.data = schedule.envelope.toValue
  options : scheduler.opts = toTemplateOptions schedule.delivery

/-- The schedulers of the library are those of some declared schedules, one each. -/
structure Reconciled (declared : List ScheduleUpsert) (schedulers : Schedulers) : Prop where
  keys : (schedulers.keys.filter isPrefixed).Perm (declared.map ScheduleUpsert.key)
  carries : ∀ schedule ∈ declared, ∃ scheduler, schedulers.lookup schedule.key = some scheduler ∧
    CarriesSchedule schedule scheduler

/-- What a reconciliation leaves of the schedulers of a queue. -/
structure ReconcileLaw (declared : List ScheduleUpsert) (answers : ReconcileAnswers)
    (schedulers : Schedulers) : Prop where
  resolved : (reconcileSchedules declared answers schedulers).2 = .ok () →
    Reconciled declared (reconcileSchedules declared answers schedulers).1
  /-- Once it resolved, making it again changes nothing, whatever Redis answers then. -/
  again : (reconcileSchedules declared answers schedulers).2 = .ok () → ∀ answers' key,
    (reconcileSchedules declared answers'
      (reconcileSchedules declared answers schedulers).1).1.lookup
      key = (reconcileSchedules declared answers schedulers).1.lookup key
  /-- Resolved or refused, it touches no scheduler without the prefix. -/
  others : ∀ key, isPrefixed key = false →
    (reconcileSchedules declared answers schedulers).1.lookup key = schedulers.lookup key
  /-- Resolved or refused, it takes away none that is still declared. -/
  kept : ∀ schedule ∈ declared, schedule.key ∈ schedulers →
    schedule.key ∈ (reconcileSchedules declared answers schedulers).1

theorem carries_toScheduler (schedule : ScheduleUpsert) :
    CarriesSchedule schedule (toScheduler schedule) := by
  refine ⟨?_, ?_, ⟨rfl, rfl⟩, rfl⟩
  · intro ms hinterval
    simp [toScheduler, toRepeatOptions, hinterval]
  · intro text hpattern
    cases hzone : schedule.timezone with
    | none => simp [toScheduler, toRepeatOptions, hpattern, hzone]
    | some zone =>
        by_cases hempty : zone = ""
        · subst hempty
          simp [toScheduler, toRepeatOptions, hpattern, hzone]
        · simp only [toScheduler, toRepeatOptions, hpattern, hzone, Option.getD_some, hempty,
            if_false, Option.some.injEq, true_and]
          intro other
          constructor
          · rintro rfl
            exact ⟨rfl, hempty⟩
          · exact And.left

/-- What is taken away carries the prefix and is not declared. -/
theorem lookup_eraseAll_of_not_stale {removed : List String}
    (hremoved : removed ⊆ staleKeys declared schedulers)
    (hkey : isPrefixed key = false ∨ key ∈ declared.map ScheduleUpsert.key) :
    (eraseAll removed schedulers).lookup key = schedulers.lookup key := by
  have hnot : key ∉ removed := by
    intro hmem
    obtain ⟨-, hprefixed, hdeclared⟩ := mem_staleKeys.1 (hremoved hmem)
    rcases hkey with hkey | hkey
    · rw [hkey] at hprefixed
      cases hprefixed
    · exact hdeclared hkey
  rw [lookup_eraseAll, if_neg hnot]

/-- Whatever is declared is written under a key with the prefix. -/
theorem isPrefixed_of_mem (h : key ∈ schedules.map ScheduleUpsert.key) : isPrefixed key = true := by
  obtain ⟨schedule, -, rfl⟩ := List.mem_map.1 h
  exact isPrefixed_schedulerId _

/-- A reconciliation that resolves leaves the declared schedules, one each. -/
theorem reconciled_of_ok (hkeys : (declared.map ScheduleUpsert.key).Nodup)
    (hok : (reconcileSchedules declared answers schedulers).2 = .ok ()) :
    Reconciled declared (reconcileSchedules declared answers schedulers).1 := by
  obtain ⟨removed, written, -, -, hleft, hall⟩ :=
    reconcileSchedules_cases declared answers schedulers
  obtain ⟨rfl, rfl⟩ := hall hok
  rw [hleft]
  refine ⟨?_, fun schedule hschedule =>
    ⟨_, lookup_writeAll_of_mem hkeys hschedule, carries_toScheduler schedule⟩⟩
  refine (List.perm_ext_iff_of_nodup ((AList.keys_nodup _).filter _) hkeys).2 fun key => ?_
  rw [List.mem_filter, ← AList.mem_keys, ← AList.lookup_isSome]
  constructor
  · rintro ⟨hsome, hprefixed⟩
    by_contra hnot
    -- a key that is not declared was taken away, or was never there
    rw [lookup_writeAll_of_not_mem hnot, lookup_eraseAll] at hsome
    split_ifs at hsome with hstale
    · cases hsome
    · exact hstale (mem_staleKeys.2 ⟨AList.lookup_isSome.1 hsome, hprefixed, hnot⟩)
  · intro hkey
    refine ⟨?_, isPrefixed_of_mem hkey⟩
    obtain ⟨schedule, hschedule, rfl⟩ := List.mem_map.1 hkey
    rw [lookup_writeAll_of_mem hkeys hschedule]
    rfl

/-- Where the declared schedules stand as they are written, a reconciliation changes nothing. -/
theorem lookup_reconcileSchedules_of_written (hkeys : (declared.map ScheduleUpsert.key).Nodup)
    (hstale : staleKeys declared schedulers = [])
    (hstand : ∀ schedule ∈ declared, schedulers.lookup schedule.key = some (toScheduler schedule))
    (answers : ReconcileAnswers) (key : String) :
    (reconcileSchedules declared answers schedulers).1.lookup key = schedulers.lookup key := by
  obtain ⟨removed, written, hremoved, hwritten, hleft, -⟩ :=
    reconcileSchedules_cases declared answers schedulers
  have hnone : removed = [] := List.subset_nil.1 (hstale ▸ hremoved)
  rw [hleft, hnone]
  by_cases hkey : key ∈ written.map ScheduleUpsert.key
  · obtain ⟨schedule, hschedule, rfl⟩ := List.mem_map.1 hkey
    have hnodup := hkeys.sublist (hwritten.sublist.map ScheduleUpsert.key)
    rw [lookup_writeAll_of_mem hnodup hschedule]
    exact (hstand schedule (hwritten.subset hschedule)).symm
  · rw [lookup_writeAll_of_not_mem hkey]
    rfl

/-- **What a reconciliation leaves**, resolved or refused, whatever stood there before. -/
theorem reconcileLaw (hnames : (declared.map fun schedule => schedule.envelope.name).Nodup)
    (answers : ReconcileAnswers) (schedulers : Schedulers) :
    ReconcileLaw declared answers schedulers := by
  have hkeys := nodup_keys hnames
  obtain ⟨removed, written, hremoved, hwritten, hleft, hall⟩ :=
    reconcileSchedules_cases declared answers schedulers
  refine ⟨reconciled_of_ok hkeys, ?_, ?_, ?_⟩
  · intro hok answers' key
    have hreconciled := reconciled_of_ok hkeys hok
    refine lookup_reconcileSchedules_of_written hkeys ?_ ?_ answers' key
    · refine List.eq_nil_iff_forall_not_mem.2 fun other hother => ?_
      obtain ⟨hmem, hprefixed, hnot⟩ := mem_staleKeys.1 hother
      exact hnot (hreconciled.keys.mem_iff.1 (List.mem_filter.2 ⟨AList.mem_keys.1 hmem, hprefixed⟩))
    · obtain ⟨rfl, rfl⟩ := hall hok
      intro schedule hschedule
      rw [hleft]
      exact lookup_writeAll_of_mem hkeys hschedule
  · intro key hkey
    have hnot : key ∉ written.map ScheduleUpsert.key := by
      intro hmem
      rw [isPrefixed_of_mem hmem] at hkey
      cases hkey
    rw [hleft, lookup_writeAll_of_not_mem hnot, lookup_eraseAll_of_not_stale hremoved (Or.inl hkey)]
  · intro schedule hschedule hstands
    have hmem : schedule.key ∈ declared.map ScheduleUpsert.key := List.mem_map_of_mem hschedule
    rw [hleft, ← AList.lookup_isSome]
    by_cases hkey : schedule.key ∈ written.map ScheduleUpsert.key
    · obtain ⟨first, hfirst, hsame⟩ := List.mem_map.1 hkey
      have hnodup := hkeys.sublist (hwritten.sublist.map ScheduleUpsert.key)
      rw [← hsame, lookup_writeAll_of_mem hnodup hfirst]
      rfl
    · rw [lookup_writeAll_of_not_mem hkey, lookup_eraseAll_of_not_stale hremoved (Or.inr hmem)]
      exact AList.lookup_isSome.2 hstands

end Jubs
