/-
**The queues of a dashboard.**

A board shows the queues of the definitions it is given and the dead queues it is told of, each
once.  A name it is given by mistake would be written to the store for good, so it refuses a dead
queue that no definition uses; it tells whether it found one from the name it found, and the empty
name reads as none.

Main definitions:

* `Jubs.BoardConfig`, `Jubs.BoardQueue` — what names the queues of a board, and one of them;
* `Jubs.boardQueues` — the queues of a board;
* `Jubs.BoardLaw` — what a board owes;
* `Jubs.UnnamedStray` — the first dead queue that no definition uses is the one without a name.

Main results:

* `Jubs.boardQueues_eq_ok_iff` — when a board is shown, and what it shows;
* `Jubs.boardLaw_iff` — **which boards pay what they owe**;
* `Jubs.board_shows_stray` — one that does not.
-/

import Jubs.Queues

set_option autoImplicit false

namespace Jubs

/-! ### The board -/

/-- What names the queues of a board. -/
structure BoardConfig where
  definitions : List JobDefinition
  deadQueues : List String
  readOnly : Option Bool

/-- One queue of the board, and how it is registered. -/
structure BoardQueue where
  name : String
  readOnly : Bool
  description : String
deriving DecidableEq

/-- `LIVE_READ_ONLY`. -/
def liveReadOnly : String :=
  "Read only. The board's write buttons are gone on purpose: \"Add job\" stores what you type " ++
    "as the job's data, which a worker reads as an envelope, so the delivery fails before a " ++
    "handler is chosen and no hook reports it — there is no job name to report one under; and a " ++
    "jubs.* scheduler edited or removed here is written back on the next boot of any process " ++
    "that starts this queue. Retry a job with jobs.retry(id), stop one with jobs.cancel(id), " ++
    "and hold the whole queue with jobs.pause(queue) and jobs.resume(queue). Pass readOnly: " ++
    "false to the dashboard to take the buttons back."

/-- `LIVE_WRITABLE`. -/
def liveWritable : String :=
  "Writable, because this dashboard was given readOnly: false. Two of these buttons act on a " ++
    "job jubs still owns. \"Add job\" stores what you type as the job's data, which a worker " ++
    "reads as an envelope, so the delivery fails before a handler is chosen and no hook reports " ++
    "it — there is no job name to report one under. And a jubs.* scheduler edited or removed " ++
    "here is written back on the next boot of any process that starts this queue, so the change " ++
    "looks applied and is not."

/-- What a board without definitions is refused with. -/
def noDefinitionsError : Thrown :=
  plainError ("jubs: the dashboard was given no definitions, so the board would open with no " ++
    "queue at all — it shows the queues of the definitions you registered, and it takes a queue " ++
    "name from nowhere else. Pass mountDashboard, expressDashboard or fastifyDashboard the same " ++
    "`definitions` list you gave createJobs.") none

/-- What a dead queue is refused with that no definition uses. -/
def strayDeadQueueError (stray : String) (live : List String) : Thrown :=
  plainError ("jubs: the dashboard was given the dead queue \"" ++ stray ++ "\", which no " ++
    "definition it was given uses — the queues its definitions use are " ++ quoted live ++ ". " ++
    "Nothing was opened: the board opens a Queue for every name it is given, and opening one " ++
    "writes bull:" ++ deadQueueName stray ++ ":meta to Redis for good.") none

/-- How a live queue is registered. -/
def liveBoardQueue (readOnly : Bool) (name : String) : BoardQueue where
  name := name
  readOnly := readOnly
  description := if readOnly then liveReadOnly else liveWritable

/-- How the dead queue of a queue is registered. -/
def deadBoardQueue (queue : String) : BoardQueue where
  name := deadQueueName queue
  readOnly := true
  description := "Jobs buried out of \"" ++ queue ++ "\". Read only, because nothing consumes " ++
    "this queue: replay an entry with jobs.dead.replay(id), and drop one with " ++
    "jobs.dead.discard(id)."

/-- `boardQueues(config)`. -/
def boardQueues (config : BoardConfig) : Except Thrown (List BoardQueue) :=
  let live := queuesOf config.definitions
  if live.length = 0 then .error noDefinitionsError
  else
    let stray := (config.deadQueues.find? fun queue => !live.contains queue).getD ""
    if stray ≠ "" then .error (strayDeadQueueError stray live)
    else
      let dead := (onceEach config.deadQueues).map deadBoardQueue
      let readOnly := config.readOnly.getD true
      let buried := dead.map BoardQueue.name
      .ok ((live.filter fun name => !buried.contains name).map (liveBoardQueue readOnly) ++ dead)

/-! ### What it owes -/

/-- **What a board owes**: it refuses what it must, and what it shows is each queue once, the dead
ones read only. -/
structure BoardLaw (config : BoardConfig) : Prop where
  /-- It refuses to show nothing. -/
  someDefinition : config.definitions = [] → ∃ e, boardQueues config = .error e
  /-- It refuses a dead queue that no definition uses. -/
  everyDeadQueueUsed :
    (∃ queue ∈ config.deadQueues, queue ∉ config.definitions.map JobDefinition.queue) →
    ∃ e, boardQueues config = .error e
  /-- No name is shown twice. -/
  once : ∀ shown, boardQueues config = .ok shown → (shown.map BoardQueue.name).Nodup
  /-- The names are those of the queues that are used and of the listed dead queues. -/
  names : ∀ shown, boardQueues config = .ok shown → ∀ name, name ∈ shown.map BoardQueue.name ↔
    name ∈ config.definitions.map JobDefinition.queue ∨ ∃ queue ∈ config.deadQueues,
      name = deadQueueName queue
  /-- A dead queue is read only, and any other queue is what the config says. -/
  guarded : ∀ shown, boardQueues config = .ok shown → ∀ queue ∈ shown, queue.readOnly =
    if queue.name ∈ config.deadQueues.map deadQueueName then true else config.readOnly.getD true
  /-- No name is taken from anywhere else. -/
  known : ∀ shown, boardQueues config = .ok shown → ∀ queue ∈ shown,
    ∃ definition ∈ config.definitions, queue.name = definition.queue ∨
      queue.name = deadQueueName definition.queue

/-- The first dead queue that no definition uses is the one without a name. -/
def UnnamedStray (config : BoardConfig) : Prop :=
  ∃ before behind, config.deadQueues = before ++ "" :: behind ∧
    (∀ queue ∈ before, queue ∈ config.definitions.map JobDefinition.queue) ∧
    "" ∉ config.definitions.map JobDefinition.queue

variable {config : BoardConfig} {shown : List BoardQueue}

/-- What a board shows that is shown at all. -/
def boardOf (config : BoardConfig) : List BoardQueue :=
  ((queuesOf config.definitions).filter fun name =>
      !((onceEach config.deadQueues).map deadQueueName).contains name).map
    (liveBoardQueue (config.readOnly.getD true)) ++ (onceEach config.deadQueues).map deadBoardQueue

/-- **When a board is shown, and what it shows.** -/
theorem boardQueues_eq_ok_iff : boardQueues config = .ok shown ↔ config.definitions ≠ [] ∧
    ((config.deadQueues.find? fun queue => !(queuesOf config.definitions).contains queue).getD "") =
    "" ∧
    shown = boardOf config := by
  have hlive : (queuesOf config.definitions).length = 0 ↔ config.definitions = [] := by
    rw [List.length_eq_zero_iff, queuesOf, onceEach_eq_nil, List.map_eq_nil_iff]
  have hnames : ((onceEach config.deadQueues).map deadBoardQueue).map BoardQueue.name =
      (onceEach config.deadQueues).map deadQueueName := by
    rw [List.map_map]
    rfl
  unfold boardQueues
  dsimp only
  rw [hnames]
  split_ifs with hnone hstray
  · exact iff_of_false (by intro h; cases h) fun h => h.1 (hlive.1 hnone)
  · exact iff_of_false (by intro h; cases h) fun h => hstray h.2.1
  · constructor
    · intro h
      exact ⟨fun h => hnone (hlive.2 h), not_not.1 hstray, (Except.ok.inj h).symm⟩
    · rintro ⟨-, -, rfl⟩
      rfl

/-! ### What is shown -/

theorem names_boardOf (name : String) : name ∈ (boardOf config).map BoardQueue.name ↔
    name ∈ config.definitions.map JobDefinition.queue ∨
      ∃ queue ∈ config.deadQueues, name = deadQueueName queue := by
  have hdead : name ∈ (onceEach config.deadQueues).map deadQueueName ↔
      ∃ queue ∈ config.deadQueues, name = deadQueueName queue := by
    rw [List.mem_map]
    constructor
    · rintro ⟨queue, hqueue, rfl⟩
      exact ⟨queue, mem_onceEach.1 hqueue, rfl⟩
    · rintro ⟨queue, hqueue, rfl⟩
      exact ⟨queue, mem_onceEach.2 hqueue, rfl⟩
  rw [boardOf, List.map_append, List.mem_append, List.map_map, List.map_map,
    show BoardQueue.name ∘ liveBoardQueue (config.readOnly.getD true) = id from rfl,
    show BoardQueue.name ∘ deadBoardQueue = deadQueueName from rfl, List.map_id, List.mem_filter,
    mem_queuesOf, hdead]
  by_cases hmem : ∃ queue ∈ config.deadQueues, name = deadQueueName queue
  · exact iff_of_true (Or.inr hmem) (Or.inr hmem)
  · have hnot : name ∉ (onceEach config.deadQueues).map deadQueueName := mt hdead.1 hmem
    simp [hmem, hnot]

theorem nodup_boardOf : ((boardOf config).map BoardQueue.name).Nodup := by
  rw [boardOf, List.map_append, List.map_map, List.map_map,
    show BoardQueue.name ∘ liveBoardQueue (config.readOnly.getD true) = id from rfl,
    show BoardQueue.name ∘ deadBoardQueue = deadQueueName from rfl, List.map_id]
  refine List.Nodup.append ((nodup_onceEach _).filter _) ?_ ?_
  · exact (nodup_onceEach _).map deadQueueName_injective
  · intro name hname hdead
    have hnot := (List.mem_filter.1 hname).2
    rw [List.contains_iff_mem.2 hdead] at hnot
    cases hnot

theorem guarded_boardOf {queue : BoardQueue} (h : queue ∈ boardOf config) : queue.readOnly =
    if queue.name ∈ config.deadQueues.map deadQueueName then true else config.readOnly.getD
      true := by
  rcases List.mem_append.1 h with h | h
  · obtain ⟨name, hname, rfl⟩ := List.mem_map.1 h
    have hnot : name ∉ config.deadQueues.map deadQueueName := by
      intro hmem
      obtain ⟨queue, hqueue, rfl⟩ := List.mem_map.1 hmem
      have hburied : ((onceEach config.deadQueues).map deadQueueName).contains
          (deadQueueName queue) =
          true := List.contains_iff_mem.2 (List.mem_map_of_mem (mem_onceEach.2 hqueue))
      have hfree := (List.mem_filter.1 hname).2
      rw [hburied] at hfree
      cases hfree
    exact (if_neg hnot).symm
  · obtain ⟨queue, hqueue, rfl⟩ := List.mem_map.1 h
    exact (if_pos (List.mem_map_of_mem (mem_onceEach.1 hqueue))).symm

/-- The check for a dead queue that no definition uses finds none, or one without a name. -/
theorem find_stray_eq_iff :
    ((config.deadQueues.find? fun queue => !(queuesOf config.definitions).contains queue).getD "") =
    "" ↔
      (∀ queue ∈ config.deadQueues, queue ∈ config.definitions.map JobDefinition.queue) ∨
        UnnamedStray config := by
  have hused : ∀ queue, (!(queuesOf config.definitions).contains queue) = true ↔
      queue ∉ config.definitions.map JobDefinition.queue := by
    intro queue
    rw [Bool.not_eq_true', ← Bool.not_eq_true, List.contains_iff_mem, mem_queuesOf]
  cases hfind : config.deadQueues.find? fun queue =>
    !(queuesOf config.definitions).contains queue with
  | none =>
      refine iff_of_true rfl (Or.inl fun queue hqueue => ?_)
      by_contra hnot
      exact List.find?_eq_none.1 hfind queue hqueue ((hused queue).2 hnot)
  | some stray =>
      obtain ⟨hstray, before, behind, hsplit, hbefore⟩ := List.find?_eq_some_iff_append.1 hfind
      have hstray := (hused stray).1 hstray
      have hbefore : ∀ queue ∈ before, queue ∈ config.definitions.map JobDefinition.queue := by
        intro queue hqueue
        by_contra hnot
        have := hbefore queue hqueue
        rw [(hused queue).2 hnot] at this
        cases this
      constructor
      · rintro rfl
        exact Or.inr ⟨before, behind, hsplit, hbefore, hstray⟩
      · rintro (hall | ⟨before', behind', hsplit', hbefore', hnone⟩)
        · refine absurd (hall stray ?_) hstray
          rw [hsplit]
          exact List.mem_append_right _ List.mem_cons_self
        · -- the first one that is not used is found, whatever stands behind it
          have hfirst : config.deadQueues.find? (fun queue =>
              !(queuesOf config.definitions).contains queue) = some "" := by
            refine List.find?_eq_some_iff_append.2
              ⟨(hused "").2 hnone, before', behind', hsplit', ?_⟩
            intro queue hqueue
            have hnot : ¬(!(queuesOf config.definitions).contains queue) = true := fun h =>
              (hused queue).1 h (hbefore' queue hqueue)
            simpa using hnot
          exact Option.some.inj (hfind.symm.trans hfirst)

/-- **Which boards pay what they owe**: those whose first dead queue that no definition uses, if
there is one, has a name. -/
theorem boardLaw_iff : BoardLaw config ↔ config.definitions = [] ∨ ¬UnnamedStray config := by
  constructor
  · intro hlaw
    by_contra hnot
    push Not at hnot
    obtain ⟨hdefinitions, hstray⟩ := hnot
    have hshown : boardQueues config = .ok (boardOf config) :=
      boardQueues_eq_ok_iff.2 ⟨hdefinitions, find_stray_eq_iff.2 (Or.inr hstray), rfl⟩
    obtain ⟨before, behind, hsplit, -, hnone⟩ := hstray
    have hmem : "" ∈ config.deadQueues := by
      rw [hsplit]
      exact List.mem_append_right _ List.mem_cons_self
    obtain ⟨e, herror⟩ := hlaw.everyDeadQueueUsed ⟨"", hmem, hnone⟩
    cases hshown.symm.trans herror
  · intro hnamed
    have hokay : ∀ shown, boardQueues config = .ok shown → config.definitions ≠ [] ∧
        (∀ queue ∈ config.deadQueues, queue ∈ config.definitions.map JobDefinition.queue) ∧
        shown = boardOf config := by
      intro shown h
      obtain ⟨hdefinitions, hfind, rfl⟩ := boardQueues_eq_ok_iff.1 h
      refine ⟨hdefinitions, ?_, rfl⟩
      exact (find_stray_eq_iff.1 hfind).resolve_right (hnamed.resolve_left hdefinitions)
    have herror : (¬∃ shown, boardQueues config = .ok shown) → ∃ e, boardQueues config =
        .error e := by
      intro hnot
      cases h : boardQueues config with
      | error e => exact ⟨e, rfl⟩
      | ok shown => exact absurd ⟨shown, h⟩ hnot
    refine ⟨?_, ?_, ?_, ?_, ?_, ?_⟩
    · intro hnone
      exact herror fun ⟨shown, h⟩ => (hokay shown h).1 hnone
    · rintro ⟨queue, hqueue, hunused⟩
      exact herror fun ⟨shown, h⟩ => hunused ((hokay shown h).2.1 queue hqueue)
    · intro shown h
      obtain ⟨-, -, rfl⟩ := hokay shown h
      exact nodup_boardOf
    · intro shown h
      obtain ⟨-, -, rfl⟩ := hokay shown h
      exact names_boardOf
    · intro shown h queue hqueue
      obtain ⟨-, -, rfl⟩ := hokay shown h
      exact guarded_boardOf hqueue
    · intro shown h queue hqueue
      obtain ⟨-, hused, rfl⟩ := hokay shown h
      rcases (names_boardOf queue.name).1 (List.mem_map_of_mem hqueue) with hlive | ⟨dead,
        hdead, hname⟩
      · obtain ⟨definition, hdefinition, heq⟩ := List.mem_map.1 hlive
        exact ⟨definition, hdefinition, Or.inl heq.symm⟩
      · obtain ⟨definition, hdefinition, rfl⟩ := List.mem_map.1 (hused dead hdead)
        exact ⟨definition, hdefinition, Or.inr hname⟩

/-- A board that is told of a dead queue without a name shows it, though no definition uses it. -/
theorem board_shows_stray : ¬BoardLaw ⟨[lineJob], ["", "biling"], none⟩ ∧
    ((boardOf ⟨[lineJob], ["", "biling"], none⟩).map BoardQueue.name) =
      ["mail", ".dead", "biling.dead"] := by
  have hshown : boardQueues ⟨[lineJob], ["", "biling"], none⟩ =
      .ok (boardOf ⟨[lineJob], ["", "biling"], none⟩) := rfl
  refine ⟨?_, by decide⟩
  intro hlaw
  obtain ⟨e, herror⟩ := hlaw.everyDeadQueueUsed ⟨"biling", by decide, by decide⟩
  cases hshown.symm.trans herror

end Jubs
