/-
**Atomic blocks.**

`jobs.atomic(run)` opens a scope that every callback of `run` inherits, and an enqueue that finds an
open scope is held by it.  Once `run` resolves the scope is closed, and what it holds is delivered
one by one, or written to the outbox in one call.  A block opened inside an open one joins it, and
an enqueue that finds a closed scope is refused.

Main definitions:

* `Jubs.HeldJob`, `Jubs.forOutbox` — what an enqueue hands over, and the row that keeps it;
* `Jubs.AtomicScope`, `Jubs.BlockPhase` — a scope, and how far its block has come;
* `Jubs.holdOrDeliver`, `Jubs.runAtomicBlock`, `Jubs.atomic`, `Jubs.flushError` — the code;
* `Jubs.atomicRun` — contexts, blocks, enqueues and deliveries as one machine.
-/

import Jubs.FlowTree
import Jubs.Machine

set_option autoImplicit false

namespace Jubs

/-! ### Enqueues -/

/-- What `jobs.enqueue` hands over: the request of one job, or the tree of a flow under the name of
its definition. -/
inductive HeldJob where
  | direct (request : EnqueueRequest)
  | flow (name : String) (root : FlowNode)

/-- What `jobs.enqueue(definition, data, awaits)` hands over, or how it refuses its input. -/
def heldJob (definition : JobDefinition) (data awaits : Value) : Except Thrown HeldJob :=
  if slotsOf definition = [] then .direct <$> directRequest definition data
  else .flow definition.name <$> composeFlow definition data awaits

/-- What a job that declares `unique` is refused with by the outbox. -/
def uniqueInOutboxError (name : String) : Thrown :=
  plainError ("jubs: the job \"" ++ name ++ "\" declares `unique`, and it was enqueued inside " ++
    "jobs.atomic(fn, \x7b tx \x7d) — uniqueness does not survive the outbox, and it is refused " ++
    "here rather than dropped. The relay stores a job under an id derived from the outbox row, " ++
    "which is what makes a row delivered twice one job for as long as Redis keeps that job; " ++
    "BullMQ reads that id first and the deduplication key second, so a key already pointing at " ++
    "another job would answer with that other job's id, the row would be marked delivered by a " ++
    "job that is not its own, and the job this row stands for would never exist. This job was " ++
    "not written and not enqueued. Drop `unique` from this definition — `idempotencyKey` stops " ++
    "a second execution and travels through the outbox — or enqueue this job outside the block, " ++
    "where uniqueness works and the transaction does not cover it.") none

/-- `flowRefusedByOutbox(name)`. -/
def flowRefusedByOutbox (name : String) : Thrown :=
  plainError ("jubs: the flow \"" ++ name ++ "\" was enqueued inside jobs.atomic(fn, \x7b tx " ++
    "\x7d), and an outbox row holds one envelope and no tree — the whole flow would have to be " ++
    "rebuilt from that row, and what a slot was given would be lost on the way. This flow was " ++
    "not written and not enqueued. Enqueue the flow with jobs.enqueue(definition, data, awaits) " ++
    "outside the block, or hold it with jobs.atomic(fn) alone, which keeps it in memory until " ++
    "the block resolves.") none

/-- `envelopeForOutbox(request)`. -/
def envelopeForOutbox (request : EnqueueRequest) : Except Thrown Envelope :=
  if request.delivery.unique.isSome then .error (uniqueInOutboxError request.envelope.name)
  else .ok { request.envelope with origin := .relay }

/-- `held.forOutbox()`. -/
def forOutbox : HeldJob → Except Thrown Envelope
  | .direct request => envelopeForOutbox request
  | .flow name _ => .error (flowRefusedByOutbox name)

/-- One enqueue: its number in the order of arrival, the async context it was made in, the scope
that context carries, and what it hands over. -/
structure Enqueue where
  number : ℕ
  context : ℕ
  scope : Option ℕ
  job : HeldJob

/-! ### Blocks -/

/-- How far a block has come: its function runs, or threw; without an outbox, so many of the jobs it
held are delivered, or the delivery at a position is under way, or failed; with one, the envelopes
are being saved, are saved or not. -/
inductive BlockPhase where
  | running
  | threw (error : Thrown)
  | flushing (index : ℕ)
  | delivering (index : ℕ)
  | broken (index : ℕ) (error : Thrown)
  | flushed
  | nothingToSave
  | saving
  | saved
  | notSaved (error : Thrown)

/-- The scope of an outermost block.  It has a `write` exactly when the block was given a `tx`. -/
structure AtomicScope where
  held : List Enqueue
  written : List Envelope
  tx : Option Value
  closed : Bool
  phase : BlockPhase

/-- One call of `outbox.save(envelopes, tx)`, and the scope it was made for. -/
structure SaveCall where
  scope : ℕ
  envelopes : List Envelope
  tx : Value

/-- Every scope ever opened, the scope each async context carries, and what was done so far:
enqueues a scope took, enqueues handed to the driver, those of a block that the driver stored,
refused enqueues, and calls of `save`. -/
structure AtomicState where
  scopes : List AtomicScope
  contexts : List (Option ℕ)
  next : ℕ
  accepted : List Enqueue
  called : List Enqueue
  delivered : List Enqueue
  refused : List (Enqueue × Thrown)
  saves : List SaveCall

/-- One context outside every block. -/
def AtomicState.init : AtomicState := ⟨[], [none], 0, [], [], [], [], []⟩

/-- `openScopes.getStore()`, in a context that carries `tag`. -/
def AtomicState.getStore (s : AtomicState) (tag : Option ℕ) : Option (ℕ × AtomicScope) :=
  tag.bind fun n => s.scopes[n]?.map fun scope => (n, scope)

/-- `inAtomicBlock()`, in a context that carries `tag`. -/
def AtomicState.inAtomicBlock (s : AtomicState) (tag : Option ℕ) : Bool :=
  (s.getStore tag).any fun found => !found.2.closed

/-- `new Error(endedMessage(scope))`. -/
def endedError (scope : AtomicScope) : Thrown :=
  let done :=
    if scope.tx.isSome then "wrote what it held to the outbox" else "delivered what it held"
  plainError ("jubs: this enqueue reached an atomic block that has already ended, so nothing " ++
    "holds it — it was made from a callback the block scheduled and never waited for, which " ++
    "keeps the block's context and outlives it. The block " ++ done ++ " and cannot take this " ++
    "one, and it is refused instead of being dropped in silence. Await that work inside the " ++
    "block, or enqueue outside the block.") none

/-- What `flush` throws when the delivery at `index` failed. -/
def flushError (index total : ℕ) (failure : Thrown) : Thrown :=
  plainError ("jubs: an atomic block delivered " ++ toString index ++ " of the " ++
    toString total ++
    " jobs it held and then failed — the job it failed on is not enqueued, and the " ++
    toString (total - index - 1) ++ " after it were abandoned without being tried. What is " ++
    "enqueued stands: a job a worker may have taken already cannot be unenqueued, so running " ++
    "the block again delivers those " ++ toString index ++ " a second time.") (some failure)

/-- A scope takes an enqueue. -/
def AtomicState.take (s : AtomicState) (n : ℕ) (scope : AtomicScope) (e : Enqueue) : AtomicState :=
  { s with scopes := s.scopes.set n scope, accepted := s.accepted ++ [e] }

/-- `holdOrDeliver(held)`. -/
def holdOrDeliver (s : AtomicState) (e : Enqueue) : Except Thrown AtomicState :=
  match s.getStore e.scope with
  | none => .ok { s with called := s.called ++ [e] }
  | some (n, scope) =>
      if scope.closed then .error (endedError scope)
      else if scope.tx.isSome then do
        let envelope ← forOutbox e.job
        return s.take n { scope with written := scope.written ++ [envelope] } e
      else .ok (s.take n { scope with held := scope.held ++ [e] } e)

/-- `runAtomicBlock(run, write)`, up to the start of `run`: in an open block the function runs in
the context it was called in, and otherwise in one that carries a new scope. -/
def runAtomicBlock (s : AtomicState) (tag : Option ℕ) (tx : Option Value) : AtomicState :=
  if s.inAtomicBlock tag then s
  else { s with
    scopes := s.scopes ++ [⟨[], [], tx, false, .running⟩]
    contexts := s.contexts ++ [some s.scopes.length] }

/-- What `jobs.atomic` is refused with when no outbox is configured for its `tx`. -/
def noOutboxError : Thrown :=
  plainError ("jubs: jobs.atomic was given a tx, and this client has no outbox configured — a " ++
    "tx exists to write the envelopes inside your own database transaction, and nothing here " ++
    "can accept one. Give createJobs(\x7b outbox \x7d) an adapter over your table, or call " ++
    "jobs.atomic(fn) without the tx: the block still holds every enqueue until it resolves, but " ++
    "it holds them in memory, so a process that dies mid-block loses them.") none

/-- What `jobs.atomic` is refused with when it is given a `tx` inside an open block. -/
def txInsideError : Thrown :=
  plainError ("jubs: jobs.atomic was given a tx inside an atomic block that is already open, " ++
    "and the two settle in different ways — the outer block delivers what it holds, while this " ++
    "one writes it to the outbox, and the inner block would have to be the one that decides. " ++
    "This inner block never ran, and the block around it stands. Move the transaction and its " ++
    "block outside, so the block with the tx is the only one open.") none

/-- `jobs.atomic(run, { tx })`, where `outbox` says whether one is configured.  A `tx` that was not
given is `undefined`. -/
def atomic (outbox : Bool) (s : AtomicState) (tag : Option ℕ) (tx : Value) :
    Except Thrown AtomicState :=
  if tx.isUndefined then .ok (runAtomicBlock s tag none)
  else if !outbox then .error noOutboxError
  else if s.inAtomicBlock tag then .error txInsideError
  else .ok (runAtomicBlock s tag (some tx))

/-! ### The machine -/

/-- One step: an enqueue arrives from a context, a context opens a block, hands its scope to a
callback, or leaves it with `outsideAtomicBlock`; the function of a block resolves or throws; a
block delivers the next job it held; the driver or the outbox answers. -/
inductive AtomicAct where
  | enqueue (context : ℕ) (definition : JobDefinition) (data awaits : Value)
  | atomic (context : ℕ) (tx : Value)
  | spawn (context : ℕ)
  | outside (context : ℕ)
  | resolve (scope : ℕ)
  | throws (scope : ℕ) (error : Thrown)
  | deliver (scope : ℕ)
  | answer (scope : ℕ) (outcome : Except Thrown Unit)

/-- An enqueue arrives. -/
def arrive (s : AtomicState) (e : Enqueue) : AtomicState :=
  match holdOrDeliver s e with
  | .ok t => { t with next := s.next + 1 }
  | .error error => { s with next := s.next + 1, refused := s.refused ++ [(e, error)] }

/-- The function of a block resolved: its scope is closed, and what it holds is settled. -/
def settleBlock (s : AtomicState) (n : ℕ) (scope : AtomicScope) : AtomicState :=
  let settled := fun phase => s.scopes.set n { scope with closed := true, phase := phase }
  match scope.tx with
  | none => { s with scopes := settled (.flushing 0) }
  | some tx =>
      if scope.written = [] then { s with scopes := settled .nothingToSave }
      else { s with scopes := settled .saving, saves := s.saves ++ [⟨n, scope.written, tx⟩] }

/-- The next turn of the loop of `flush`. -/
def deliverNext (s : AtomicState) (n : ℕ) (scope : AtomicScope) : Option AtomicState :=
  match scope.phase with
  | .flushing k =>
      match scope.held[k]? with
      | some e => some { s with
          scopes := s.scopes.set n { scope with phase := .delivering k }
          called := s.called ++ [e] }
      | none => some { s with scopes := s.scopes.set n { scope with phase := .flushed } }
  | _ => none

/-- The call a block waits for settles. -/
def settleCall (s : AtomicState) (n : ℕ) (scope : AtomicScope) (outcome : Except Thrown Unit) :
    Option AtomicState :=
  match scope.phase, outcome with
  | .delivering k, .ok _ => some { s with
      scopes := s.scopes.set n { scope with phase := .flushing (k + 1) }
      delivered := s.delivered ++ scope.held[k]?.toList }
  | .delivering k, .error failure => some { s with
      scopes := s.scopes.set n
        { scope with phase := .broken k (flushError k scope.held.length failure) } }
  | .saving, .ok _ => some { s with scopes := s.scopes.set n { scope with phase := .saved } }
  | .saving, .error failure => some { s with
      scopes := s.scopes.set n { scope with phase := .notSaved failure } }
  | _, _ => none

/-- **Contexts, blocks and enqueues.**  A call that throws leaves everything as it was. -/
def atomicRun (outbox : Bool) : Machine AtomicState AtomicAct := fun s act =>
  match act with
  | .enqueue c definition data awaits =>
      s.contexts[c]?.map fun tag =>
        match heldJob definition data awaits with
        | .ok job => arrive s ⟨s.next, c, tag, job⟩
        | .error _ => s
  | .atomic c tx =>
      s.contexts[c]?.map fun tag =>
        match atomic outbox s tag tx with
        | .ok t => t
        | .error _ => s
  | .spawn c => s.contexts[c]?.map fun tag => { s with contexts := s.contexts ++ [tag] }
  | .outside c => s.contexts[c]?.map fun _ => { s with contexts := s.contexts ++ [none] }
  | .resolve n =>
      s.scopes[n]?.bind fun scope =>
        match scope.phase with
        | .running => some (settleBlock s n scope)
        | _ => none
  | .throws n error =>
      s.scopes[n]?.bind fun scope =>
        match scope.phase with
        | .running => some { s with
            scopes := s.scopes.set n { scope with closed := true, phase := .threw error } }
        | _ => none
  | .deliver n => s.scopes[n]?.bind fun scope => deliverNext s n scope
  | .answer n outcome => s.scopes[n]?.bind fun scope => settleCall s n scope outcome

end Jubs
