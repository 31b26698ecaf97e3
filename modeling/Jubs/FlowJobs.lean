/-
**The jobs of a flow, and the steps BullMQ and the driver take over them.**

A flow is stored as one job for every node of its tree, each at a path from the root.  A job is
handed out, reads what its children settled into, enters its handler and settles; its parent hears
of it.  A child that has not started may be removed with everything below it, which its parent
hears of only as a dependency that is gone, and a failed job may be retried, which gives a failed
child back to the dependencies of its parent.

Main definitions:

* `Jubs.Flow`, `Jubs.Flow.jobAt` — a composed flow, and the job at a path;
* `Jubs.JobStatus`, `Jubs.JobRecord`, `Jubs.FlowRun` — where every job of a flow stands;
* `Jubs.readChildren` — what a job that was handed out reads of its children;
* `Jubs.flowRun` — the jobs of a flow as one machine.

Main results:

* `Jubs.Flow.jobAt_child` — the child at a position, and the definition its slot declares;
* `Jubs.Flow.key_injective` — **the keys of two children of one job differ**;
* `Jubs.flowRun_cases` — **what a step over a flow can do**.
-/

import Jubs.FlowStore
import Jubs.FlowTree
import Jubs.Machine
import Mathlib.Data.Finset.Card

set_option autoImplicit false

namespace Jubs

/-- The way from a job to the root: its position among its siblings, then that of its parent. -/
abbrev Path : Type := List ℕ

/-- One job of a flow: the definition it runs, the node it was made from, and the options it is
stored with. -/
structure FlowJob where
  definition : JobDefinition
  node : FlowNode
  opts : JobsOptions

/-- A flow that `composeFlow` built, with the random half of the id of every node below the root.
No two of them are the same. -/
structure Flow where
  definition : JobDefinition
  node : FlowNode
  uuid : Path → Uuid
  defined : WellDefined definition
  composed : Composed definition node
  fresh : Function.Injective uuid

/-- The job made from the child of a job at a position. -/
def FlowJob.child (job : FlowJob) (i : ℕ) (uuid : Uuid) : Option FlowJob := do
  let child ← job.node.children[i]?
  let slot ← (slotsOf job.definition).find? fun slot => slot.name = child.slot
  return ⟨slot.definition, child.node, toDependentOptions child uuid⟩

/-- The job at a path. -/
def Flow.jobAt (flow : Flow) : Path → Option FlowJob
  | [] => some ⟨flow.definition, flow.node, toFlowOptions flow.node⟩
  | i :: p => (flow.jobAt p).bind fun job => job.child i (flow.uuid (i :: p))

/-- The key a job below the root is stored under. -/
def FlowJob.key (job : FlowJob) : String := toKey job.node.queue (job.opts.jobId.getD "")

/-! ### Where the jobs stand -/

/-- Where BullMQ keeps one job of a flow.  `waiting` is every state a worker takes a job from, a
delay that is over or not included; an `active` job has not read its children yet; `refused` is a
read that was refused, `ready` one that passed, `running` a handler that was entered. -/
inductive JobStatus where
  | waitingChildren
  | waiting
  | active
  | refused (error : Thrown)
  | ready (children : List (String × Value))
  | running (children : List (String × Value))
  | completed (value : Value) (stored : String)
  | failed (reason : String)
  | removed

/-- What is kept of one job. -/
structure JobRecord where
  status : JobStatus
  ledger : FlowLedger

/-- What is kept of every job of a flow. -/
abbrev FlowRun : Type := Path → JobRecord

/-- Whether a worker holds a job. -/
def JobStatus.inProgress : JobStatus → Bool
  | .active | .refused _ | .ready _ | .running _ => true
  | _ => false

/-- Whether a job has not started. -/
def JobStatus.removable : JobStatus → Bool
  | .waitingChildren | .waiting => true
  | _ => false

/-- What a job read of its children, between the read and the end of the delivery. -/
def JobStatus.children : JobStatus → Option (List (String × Value))
  | .ready children | .running children => some children
  | _ => none

/-- Where a child is, as far as its parent is concerned. -/
def JobStatus.place : JobStatus → Ledger.Place String String
  | .completed _ stored => .done stored
  | .failed reason => .lost reason
  | .removed => .gone
  | _ => .pending

/-- The paths of the children of the job at `p`. -/
def childPaths (job : FlowJob) (p : Path) : List Path :=
  (List.range job.node.children.length).map fun i => i :: p

/-- The key of the child of a job at a position. -/
def Flow.key (flow : Flow) (p : Path) : String := ((flow.jobAt p).map FlowJob.key).getD ""

/-- What is kept of a job when its flow is added. -/
def addedRecord (flow : Flow) (job : FlowJob) (p : Path) : JobRecord where
  status := if job.node.children = [] then .waiting else .waitingChildren
  ledger := .start (((childPaths job p).map flow.key).toFinset)

/-- A flow that was just added. -/
def Flow.added (flow : Flow) : FlowRun := fun p =>
  match flow.jobAt p with
  | some job => addedRecord flow job p
  | none => ⟨.removed, .start ∅⟩

/-! ### The steps -/

/-- A parent that waits on its children is moved to `wait` once no dependency remains. -/
def JobRecord.wake (r : JobRecord) : JobRecord :=
  { r with
    status := match r.status with
      | .waitingChildren => if r.ledger.pending = ∅ then .waiting else .waitingChildren
      | status => status }

/-- What a parent hears when a child of it moves to a status: a completed child moves to the
`:processed` hash, one that failed for good to the `:failed` hash if it was added to be ignored as a
dependency then, a removed one leaves the dependencies, and a retried one returns to them. -/
def JobRecord.hear (r : JobRecord) (child : FlowJob) : JobStatus → JobRecord
  | .completed _ stored => { r with ledger := r.ledger.complete child.key stored }.wake
  | .failed reason =>
      if child.opts.ignoreDependencyOnFailure then
        { r with ledger := r.ledger.fail child.key reason }.wake
      else r
  | .removed => { r with ledger := r.ledger.drop child.key }.wake
  | _ => { r with ledger := r.ledger.revive child.key }

/-- The job at a path moves to a status that leaves its parent alone. -/
def FlowRun.setStatus (s : FlowRun) (p : Path) (status : JobStatus) : FlowRun :=
  Function.update s p { s p with status := status }

/-- The parent of the job at a path hears of its status. -/
def FlowRun.tellParent (s : FlowRun) (job : FlowJob) : Path → JobStatus → FlowRun
  | [], _ => s
  | _ :: p, status => Function.update s p ((s p).hear job status)

/-- The job at a path moves to a status its parent hears of. -/
def FlowRun.settle (s : FlowRun) (job : FlowJob) (p : Path) (status : JobStatus) : FlowRun :=
  (s.setStatus p status).tellParent job p status

/-- The job at a path and everything below it are gone. -/
def FlowRun.prune (s : FlowRun) (p : Path) : FlowRun := fun q =>
  if p <:+ q then { s q with status := .removed } else s q

mutual

/-- The paths of a node at a path and of everything below it. -/
def FlowNode.paths : FlowNode → Path → List Path
  | ⟨_, _, _, children⟩, p => p :: pathsFrom children 0 p

/-- The paths of the children of the job at a path, from a position on, and of everything below. -/
def pathsFrom : List (FlowChild FlowNode) → ℕ → Path → List Path
  | [], _, _ => []
  | ⟨_, node⟩ :: children, i, p => node.paths (i :: p) ++ pathsFrom children (i + 1) p

end

/-- `childrenFor` over the envelope a worker is handed and the reply of the script. -/
def readChildren (job : FlowJob) (reply : Reply) : Option (Except Thrown (List (String × Value))) :=
  (storedData job.node.envelope).bind fun stored =>
    match readEnvelope stored with
    | .error error => some (.error error)
    | .ok envelope => (childrenFor (some (.ok (readFlowState reply))) job.definition envelope :
        Effect Empty Thrown (List (String × Value))).map Prod.snd

/-- The status after the read of the children. -/
def readStatus : Except Thrown (List (String × Value)) → JobStatus
  | .ok children => .ready children
  | .error error => .refused error

/-- One step over the job at a path.  A `read` carries the orders Redis lists the two hashes in. -/
inductive JobAct where
  | deliver
  | read (processed failed : HashEntries)
  | enter
  /-- The delivery ends with a value, returned by the handler or kept from an earlier delivery. -/
  | complete (value : Value)
  /-- The delivery ends the job. -/
  | fail (reason : String)
  /-- The delivery fails an attempt that is not the last, is postponed, or is reclaimed. -/
  | runAgain
  /-- `job.moveToWaitingChildren(token)`. -/
  | waitAgain
  /-- `job.remove({ removeChildren: true })`, which a lock on any of the jobs refuses. -/
  | remove
  /-- `job.retry("failed")`. -/
  | retry

/-- What one step makes of the job at a path. -/
def stepAt (job : FlowJob) (s : FlowRun) (p : Path) : JobAct → Option FlowRun
  | .deliver =>
      match (s p).status with
      | .waiting => some (s.setStatus p .active)
      | _ => none
  | .read processed failed =>
      match (s p).status with
      | .active =>
          if (hashOf (s p).ledger.processed).Perm processed ∧
              (hashOf (s p).ledger.failed).Perm failed then
            (readChildren job (readFlowLua processed failed (s p).ledger.pending.card)).map
              fun outcome => s.setStatus p (readStatus outcome)
          else none
      | _ => none
  | .enter =>
      match (s p).status with
      | .ready children => some (s.setStatus p (.running children))
      | _ => none
  | .complete value =>
      if (s p).status.children.isSome ∧ (s p).ledger.pending = ∅ then
        (storedResult value).map fun stored => s.settle job p (.completed value stored)
      else none
  | .fail reason =>
      if (s p).status.inProgress then some (s.settle job p (.failed reason)) else none
  | .runAgain => if (s p).status.inProgress then some (s.setStatus p .waiting) else none
  | .waitAgain =>
      match (s p).status with
      | .refused error =>
          if error.cls = some .childrenPending ∧ (s p).ledger.pending ≠ ∅ then
            some (s.setStatus p .waitingChildren)
          else none
      | _ => none
  | .remove =>
      if (s p).status.removable ∧
          (job.node.paths p).all (fun q => !(s q).status.inProgress) then
        some ((s.prune p).tellParent job p .removed)
      else none
  | .retry =>
      match (s p).status with
      | .failed _ => some (s.settle job p .waiting)
      | _ => none

/-- **The jobs of a flow.** -/
def flowRun (flow : Flow) : Machine FlowRun (Path × JobAct) := fun s act =>
  (flow.jobAt act.1).bind fun job => stepAt job s act.1 act.2

/-! ### The children of a job -/

/-- A job made from a node that was composed for its definition. -/
structure FlowJob.Built (job : FlowJob) : Prop where
  defined : WellDefined job.definition
  composed : Composed job.definition job.node

/-- The number of children a job was enqueued with. -/
abbrev FlowJob.size (job : FlowJob) : ℕ := job.node.children.length

/-- The slot of the child at a position. -/
def FlowJob.slotOf (job : FlowJob) (i : Fin job.size) : String := (job.node.children.get i).slot

/-- The child at a position fills a declared slot and runs the definition that slot declares. -/
theorem FlowJob.Built.child {job : FlowJob} (h : job.Built) (i : Fin job.size) (uuid : Uuid) :
    ∃ slot ∈ slotsOf job.definition, job.slotOf i = slot.name ∧
      job.child i uuid = some ⟨slot.definition, (job.node.children.get i).node,
        toDependentOptions (job.node.children.get i) uuid⟩ ∧
      FlowJob.Built ⟨slot.definition, (job.node.children.get i).node,
        toDependentOptions (job.node.children.get i) uuid⟩ := by
  obtain ⟨-, -, -, -, hchildren⟩ := composeFlow_eq h.defined h.composed
  obtain ⟨slot, hslot, hname, hcomposed⟩ := hchildren _ (List.get_mem job.node.children i)
  obtain ⟨-, hdistinct, hdefined⟩ := h.defined
  refine ⟨slot, hslot, hname, ?_, ⟨hdefined slot hslot, hcomposed⟩⟩
  have hfound : (slotsOf job.definition).find? (fun s => s.name = (job.node.children.get i).slot) =
      some slot := by
    cases hfind : (slotsOf job.definition).find?
      (fun s => s.name = (job.node.children.get i).slot) with
    | none =>
        exact absurd (decide_eq_true hname.symm) (List.find?_eq_none.1 hfind slot hslot)
    | some other =>
        have hother : other.name = (job.node.children.get i).slot := by
          simpa using List.find?_some hfind
        rw [List.inj_on_of_nodup_map hdistinct (List.mem_of_find?_eq_some hfind) hslot
          (hother.trans hname)]
  have hget : job.node.children[(i : ℕ)]? = some (job.node.children.get i) := by simp
  rw [FlowJob.child, hget]
  change Option.bind ((slotsOf job.definition).find? _) _ = _
  rw [hfound]
  rfl

/-- Every job of a flow was made from a node composed for its definition. -/
theorem Flow.jobAt_built {flow : Flow} {p : Path} {job : FlowJob} (h : flow.jobAt p = some job) :
    job.Built := by
  induction p generalizing job with
  | nil =>
      obtain rfl := Option.some.inj h
      exact ⟨flow.defined, flow.composed⟩
  | cons i p ih =>
      obtain ⟨parent, hparent, hchild⟩ := Option.bind_eq_some_iff.1 h
      obtain ⟨child, hget, -⟩ := Option.bind_eq_some_iff.1 hchild
      obtain ⟨hi, -⟩ := List.getElem?_eq_some_iff.1 hget
      obtain ⟨slot, -, -, hjob, hbuilt⟩ := (ih hparent).child ⟨i, hi⟩ (flow.uuid (i :: p))
      rw [hjob] at hchild
      exact Option.some.inj hchild ▸ hbuilt

/-- **The child at a position, and the definition its slot declares.** -/
theorem Flow.jobAt_child {flow : Flow} {p : Path} {job : FlowJob} (h : flow.jobAt p = some job)
    (i : Fin job.size) : ∃ slot ∈ slotsOf job.definition, job.slotOf i = slot.name ∧
      flow.jobAt (i :: p) = some ⟨slot.definition, (job.node.children.get i).node,
        toDependentOptions (job.node.children.get i) (flow.uuid (i :: p))⟩ := by
  obtain ⟨slot, hslot, hname, hjob, -⟩ := (Flow.jobAt_built h).child i (flow.uuid (i :: p))
  exact ⟨slot, hslot, hname, by rw [Flow.jobAt, h]; exact hjob⟩

/-- The parent of a job is a job, and holds it at its position. -/
theorem Flow.jobAt_cons {flow : Flow} {i : ℕ} {p : Path} {job : FlowJob}
    (h : flow.jobAt (i :: p) = some job) :
    ∃ parent, flow.jobAt p = some parent ∧ i < parent.size := by
  obtain ⟨parent, hparent, hchild⟩ := Option.bind_eq_some_iff.1 h
  obtain ⟨child, hget, -⟩ := Option.bind_eq_some_iff.1 hchild
  exact ⟨parent, hparent, (List.getElem?_eq_some_iff.1 hget).1⟩

/-- The key of a child: its slot and its random half are read back out of it. -/
theorem Flow.key_child {flow : Flow} {p : Path} {job : FlowJob} (h : flow.jobAt p = some job)
    (i : Fin job.size) :
    (readChildKey (flow.key (i :: p))).2 = composeChildId (job.slotOf i) (flow.uuid (i :: p)) ∧
      flowIdMarker ∉ (job.slotOf i).toList := by
  obtain ⟨slot, hslot, hname, hjob⟩ := Flow.jobAt_child h i
  obtain ⟨haccepted, -, -⟩ := (Flow.jobAt_built h).defined
  obtain ⟨hcolon, hmarker⟩ := defineJob_slot_name haccepted slot hslot
  rw [← hname] at hcolon hmarker
  refine ⟨?_, hmarker⟩
  have hkey : flow.key (i :: p) = toKey (job.node.children.get i).node.queue
      (composeChildId (job.slotOf i) (flow.uuid (i :: p))) := by
    rw [Flow.key, hjob]
    rfl
  rw [hkey, readChildKey_toKey _ (colon_not_mem_composeChildId _ hcolon)]

/-- **The keys of two children of one job differ.** -/
theorem Flow.key_injective {flow : Flow} {p : Path} {job : FlowJob} (h : flow.jobAt p = some job) :
    Function.Injective fun i : Fin job.size => flow.key (i :: p) := by
  intro i j hij
  obtain ⟨hi, himarker⟩ := Flow.key_child h i
  obtain ⟨hj, hjmarker⟩ := Flow.key_child h j
  have hid : composeChildId (job.slotOf i) (flow.uuid (i :: p)) =
      composeChildId (job.slotOf j) (flow.uuid (j :: p)) := by
    rw [← hi, ← hj]
    exact congrArg (fun key => (readChildKey key).2) hij
  have huuid := ((composeChildId_inj himarker hjmarker).1 hid).2
  exact Fin.ext (List.cons.inj (flow.fresh huuid)).1

/-- What an entry of the `:processed` hash of a job is read as. -/
theorem Flow.readResult_child {flow : Flow} {p : Path} {job : FlowJob}
    (h : flow.jobAt p = some job) (i : Fin job.size) (stored : String) :
    readResult (flow.key (i :: p), stored) = ⟨job.slotOf i, childValue stored⟩ := by
  obtain ⟨hi, hmarker⟩ := Flow.key_child h i
  rw [readResult, hi, readChildSlot_composeChildId _ hmarker]

/-! ### What a step can do -/

/-- A move of one job that its parent hears of. -/
inductive Settles (old : JobStatus) : JobStatus → Prop
  | completes {value : Value} {stored : String} (hold : old.place = .pending)
      (hstored : storedResult value = some stored) : Settles old (.completed value stored)
  | fails (hold : old.place = .pending) (reason : String) : Settles old (.failed reason)
  | retried {reason : String} (hold : old = .failed reason) : Settles old .waiting

/-- A move of one job that leaves its parent alone. -/
inductive Stays (job : FlowJob) (r : JobRecord) : JobStatus → Prop
  | quiet {status : JobStatus} (hold : r.status.place = .pending) (hnew : status.place = .pending)
      (hchildren : status.children = none) : Stays job r status
  | enters {children : List (String × Value)} (hold : r.status = .ready children) :
      Stays job r (.running children)
  | reads {processed failed : HashEntries} {children : List (String × Value)}
      (hold : r.status = .active) (hprocessed : (hashOf r.ledger.processed).Perm processed)
      (hfailed : (hashOf r.ledger.failed).Perm failed)
      (hread : readChildren job (readFlowLua processed failed r.ledger.pending.card) =
        some (.ok children)) : Stays job r (.ready children)

theorem place_of_inProgress {status : JobStatus} (h : status.inProgress = true) :
    status.place = .pending := by
  cases status <;> first | rfl | cases h

theorem place_of_removable {status : JobStatus} (h : status.removable = true) :
    status.place = .pending := by
  cases status <;> first | rfl | cases h

theorem place_of_children {status : JobStatus} (h : status.children.isSome = true) :
    status.place = .pending := by
  cases status <;> first | rfl | cases h

/-- **What a step over a flow can do.** -/
theorem flowRun_cases {flow : Flow} {s t : FlowRun} {p : Path} {act : JobAct}
    (h : flowRun flow s (p, act) = some t) : ∃ job, flow.jobAt p = some job ∧
      ((∃ status, Stays job (s p) status ∧ t = s.setStatus p status) ∨
        (∃ status, Settles (s p).status status ∧ t = s.settle job p status) ∨
        (act = .remove ∧ (s p).status.removable = true ∧
          t = (s.prune p).tellParent job p .removed)) := by
  obtain ⟨job, hjob, h⟩ := Option.bind_eq_some_iff.1 h
  refine ⟨job, hjob, ?_⟩
  cases act with
  | deliver =>
      simp only [stepAt] at h
      split at h
      · rename_i hs
        exact Or.inl ⟨_, .quiet (by rw [hs]; rfl) rfl rfl, (Option.some.inj h).symm⟩
      · cases h
  | read processed failed =>
      simp only [stepAt] at h
      split at h
      · rename_i hs
        split_ifs at h with hperm
        obtain ⟨outcome, houtcome, rfl⟩ := Option.map_eq_some_iff.1 h
        refine Or.inl ⟨_, ?_, rfl⟩
        cases outcome with
        | error error => exact .quiet (by rw [hs]; rfl) rfl rfl
        | ok children => exact .reads hs hperm.1 hperm.2 houtcome
      · cases h
  | enter =>
      simp only [stepAt] at h
      split at h
      · rename_i children hs
        exact Or.inl ⟨_, .enters hs, (Option.some.inj h).symm⟩
      · cases h
  | complete value =>
      simp only [stepAt] at h
      split_ifs at h with hs
      obtain ⟨stored, hstored, rfl⟩ := Option.map_eq_some_iff.1 h
      exact Or.inr (Or.inl ⟨_, .completes (place_of_children hs.1) hstored, rfl⟩)
  | fail reason =>
      simp only [stepAt] at h
      split_ifs at h with hs
      exact Or.inr (Or.inl ⟨_, .fails (place_of_inProgress hs) reason, (Option.some.inj h).symm⟩)
  | runAgain =>
      simp only [stepAt] at h
      split_ifs at h with hs
      exact Or.inl ⟨_, .quiet (place_of_inProgress hs) rfl rfl, (Option.some.inj h).symm⟩
  | waitAgain =>
      simp only [stepAt] at h
      split at h
      · rename_i error hs
        split_ifs at h
        exact Or.inl ⟨_, .quiet (by rw [hs]; rfl) rfl rfl, (Option.some.inj h).symm⟩
      · cases h
  | remove =>
      simp only [stepAt] at h
      split_ifs at h with hs
      exact Or.inr (Or.inr ⟨rfl, hs.1, (Option.some.inj h).symm⟩)
  | retry =>
      simp only [stepAt] at h
      split at h
      · rename_i reason hs
        exact Or.inr (Or.inl ⟨_, .retried hs, (Option.some.inj h).symm⟩)
      · cases h

end Jubs
