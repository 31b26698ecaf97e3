/-
**What an atomic block does with the enqueues it holds, over whole runs.**

Contexts, blocks and callbacks run in any order.  A step is about one scope, and leaves what belongs
to every other scope alone; what a scope holds, what it handed to the driver and what it saved stand
in a relation that its phase decides, and every step keeps that relation.

Main definitions:

* `Jubs.BlockLog`, `Jubs.AtomicState.logOf` — what belongs to one scope;
* `Jubs.Delivers`, `Jubs.BlockContract` — what a scope holds, and what was done with it;
* `Jubs.EndsWith` — how a block ended, and the step of its function that ended it;
* `Jubs.AtomicContract` — what is promised of every state of a run.

Main results:

* `Jubs.arrive_cases` — where an enqueue ends up;
* `Jubs.atomicRun_step` — one step keeps the invariant;
* `Jubs.ends_step` — a block ends when its function resolves or throws, and at no other step;
* `Jubs.atomic_contract` — **the contract of atomic blocks**, in every reachable state;
* `Jubs.flush_delivers_all` — a block that flushes gets to its end.
-/

import Jubs.Atomic
import Mathlib.Data.List.Nodup

set_option autoImplicit false

namespace Jubs

/-! ### What belongs to a scope -/

/-- The enqueues a scope took, those of them handed to the driver, those the driver stored, and the
calls of `save`: what was saved, under which `tx`. -/
structure BlockLog where
  accepted : List Enqueue
  called : List Enqueue
  delivered : List Enqueue
  saves : List (List Envelope × Value)

/-- The enqueues made in contexts of one scope. -/
def ofScope (n : ℕ) (l : List Enqueue) : List Enqueue := l.filter fun e => e.scope = some n

/-- What belongs to one scope. -/
def AtomicState.logOf (s : AtomicState) (n : ℕ) : BlockLog where
  accepted := ofScope n s.accepted
  called := ofScope n s.called
  delivered := ofScope n s.delivered
  saves := (s.saves.filter fun call => call.scope = n).map fun call => (call.envelopes, call.tx)

/-- Whether the function of a block has resolved or thrown. -/
def BlockPhase.ended : BlockPhase → Bool
  | .running => false
  | _ => true

/-- Nothing of a block reached the driver or the outbox. -/
def Untouched (log : BlockLog) : Prop := log.called = [] ∧ log.delivered = [] ∧ log.saves = []

/-- **What was done with the enqueues of a block**: nothing while its function runs or once it
threw; without a `tx` the first ones are delivered, in order and one by one, and a failure names
where it stopped; with a `tx` they are saved in one call, unless there is none. -/
def Delivers (scope : AtomicScope) (log : BlockLog) : Prop :=
  match scope.phase with
  | .running | .threw _ => Untouched log
  | .flushing k => scope.tx = none ∧ k ≤ log.accepted.length ∧ log.called = log.accepted.take k ∧
      log.delivered = log.accepted.take k ∧ log.saves = []
  | .delivering k => scope.tx = none ∧ k < log.accepted.length ∧
      log.called = log.accepted.take (k + 1) ∧ log.delivered = log.accepted.take k ∧ log.saves = []
  | .broken k error => scope.tx = none ∧ k < log.accepted.length ∧
      log.called = log.accepted.take (k + 1) ∧ log.delivered = log.accepted.take k ∧
      log.saves = [] ∧ ∃ failure, error = flushError k log.accepted.length failure
  | .flushed => scope.tx = none ∧ log.called = log.accepted ∧ log.delivered = log.accepted ∧
      log.saves = []
  | .nothingToSave => scope.tx.isSome ∧ log.accepted = [] ∧ Untouched log
  | .saving | .saved | .notSaved _ => log.called = [] ∧ log.delivered = [] ∧
      ∃ tx, scope.tx = some tx ∧ scope.written ≠ [] ∧ log.saves = [(scope.written, tx)]

/-- **What a scope holds**: the enqueues it took, in the order it took them, or their envelopes for
the outbox when it has a `tx`; it is closed once its function ended. -/
structure BlockContract (scope : AtomicScope) (log : BlockLog) : Prop where
  closed : scope.closed = scope.phase.ended
  held : scope.tx = none → scope.held = log.accepted ∧ scope.written = []
  written : scope.tx.isSome → scope.held = [] ∧
    log.accepted.mapM (fun e => forOutbox e.job) = .ok scope.written
  delivers : Delivers scope log

/-! ### The invariant -/

/-- **What holds at every moment.** -/
structure AtomicInv (s : AtomicState) : Prop where
  tags : ∀ n, some n ∈ s.contexts → n < s.scopes.length
  accepted : ∀ e ∈ s.accepted, e.number < s.next ∧ s.contexts[e.context]? = some e.scope
  called : ∀ e ∈ s.called, e.number < s.next ∧ s.contexts[e.context]? = some e.scope
  order : s.accepted.Pairwise fun a b => a.number < b.number
  once : s.called.Nodup
  blocks : ∀ n scope, s.scopes[n]? = some scope → BlockContract scope (s.logOf n)
  fresh : ∀ n, s.scopes.length ≤ n → s.logOf n = ⟨[], [], [], []⟩

theorem atomicInv_init : AtomicInv .init := by
  refine ⟨?_, ?_, ?_, .nil, .nil, ?_, fun _ _ => rfl⟩
  · intro n hn
    simp [AtomicState.init] at hn
  · intro e he
    cases he
  · intro e he
    cases he
  · intro n scope hn
    simp [AtomicState.init] at hn

@[simp] theorem ofScope_append (n : ℕ) (l l' : List Enqueue) :
    ofScope n (l ++ l') = ofScope n l ++ ofScope n l' := List.filter_append _ _

theorem ofScope_self {n : ℕ} {e : Enqueue} (h : e.scope = some n) : ofScope n [e] = [e] := by
  simp [ofScope, h]

theorem ofScope_of_ne {n : ℕ} {e : Enqueue} (h : e.scope ≠ some n) : ofScope n [e] = [] := by
  simp [ofScope, h]

theorem scope_of_mem {n : ℕ} {l : List Enqueue} {e : Enqueue} (h : e ∈ ofScope n l) :
    e ∈ l ∧ e.scope = some n := by
  simpa [ofScope] using h

/-- A scope that is open. -/
theorem BlockContract.open_phase {scope : AtomicScope} {log : BlockLog}
    (h : BlockContract scope log) (hopen : scope.closed = false) : scope.phase = .running := by
  rw [h.closed] at hopen
  cases hphase : scope.phase with
  | running => rfl
  | _ => simp [hphase, BlockPhase.ended] at hopen

theorem BlockContract.untouched {scope : AtomicScope} {log : BlockLog} (h : BlockContract scope log)
    (hphase : scope.phase = .running) : Untouched log := by
  have hdelivers := h.delivers
  rwa [Delivers, hphase] at hdelivers

/-- **A step about one scope**: contexts and accepted enqueues stay, what belongs to the other
scopes stays, and the scope keeps its contract. -/
theorem AtomicInv.set {s t : AtomicState} (h : AtomicInv s) {n : ℕ} {scope scope' : AtomicScope}
    (hn : s.scopes[n]? = some scope) (hscopes : t.scopes = s.scopes.set n scope')
    (hcontexts : t.contexts = s.contexts) (hnext : t.next = s.next)
    (haccepted : t.accepted = s.accepted)
    (hcalled : ∀ e ∈ t.called, e.number < s.next ∧ s.contexts[e.context]? = some e.scope)
    (honce : t.called.Nodup) (hothers : ∀ m, m ≠ n → t.logOf m = s.logOf m)
    (hself : BlockContract scope' (t.logOf n)) : AtomicInv t := by
  have hlength : t.scopes.length = s.scopes.length := by rw [hscopes, List.length_set]
  have hlt : n < s.scopes.length := (List.getElem?_eq_some_iff.1 hn).1
  refine ⟨?_, ?_, ?_, haccepted ▸ h.order, honce, ?_, ?_⟩
  · rw [hcontexts, hlength]
    exact h.tags
  · rw [haccepted, hcontexts, hnext]
    exact h.accepted
  · rw [hcontexts, hnext]
    exact hcalled
  · intro m scope'' hm
    rw [hscopes, List.getElem?_set] at hm
    split_ifs at hm with hmn
    · subst hmn
      exact Option.some.inj hm ▸ hself
    · rw [hothers m (Ne.symm hmn)]
      exact h.blocks m scope'' hm
  · intro m hm
    rw [hlength] at hm
    rw [hothers m (by omega)]
    exact h.fresh m hm

/-! ### Blocks that end -/

theorem settleBlock_inv {s : AtomicState} (h : AtomicInv s) {n : ℕ} {scope : AtomicScope}
    (hn : s.scopes[n]? = some scope) (hphase : scope.phase = .running) :
    AtomicInv (settleBlock s n scope) := by
  have hblock := h.blocks n scope hn
  obtain ⟨hcalled, hdelivered, hsaves⟩ := hblock.untouched hphase
  unfold settleBlock
  cases htx : scope.tx with
  | none =>
      refine h.set hn rfl rfl rfl rfl h.called h.once (fun _ _ => rfl) ⟨rfl, ?_, ?_, ?_⟩
      · intro _
        exact hblock.held htx
      · intro hsome
        cases hsome
      · exact ⟨rfl, Nat.zero_le _, by rw [List.take_zero]; exact hcalled,
          by rw [List.take_zero]; exact hdelivered, hsaves⟩
  | some tx =>
      have hwritten := hblock.written (by rw [htx]; rfl)
      simp only
      split_ifs with hempty
      · refine h.set hn rfl rfl rfl rfl h.called h.once (fun _ _ => rfl) ⟨rfl, ?_, ?_, ?_⟩
        · intro hnone
          cases hnone
        · intro _
          exact hwritten
        · have hnone := forall₂_of_mapM_eq_ok hwritten.2
          rw [hempty, List.forall₂_nil_right_iff] at hnone
          exact ⟨rfl, hnone, hcalled, hdelivered, hsaves⟩
      · refine h.set hn rfl rfl rfl rfl h.called h.once ?_ ⟨rfl, ?_, ?_, ?_⟩
        · intro m hm
          simp [AtomicState.logOf, Ne.symm hm]
        · intro hnone
          cases hnone
        · intro _
          exact hwritten
        · refine ⟨hcalled, hdelivered, tx, rfl, hempty, ?_⟩
          have hsaves : (s.saves.filter fun call => call.scope = n).map
              (fun call => (call.envelopes, call.tx)) = [] := hsaves
          simp only [AtomicState.logOf, List.filter_append, List.map_append, hsaves]
          simp

theorem throws_inv {s : AtomicState} (h : AtomicInv s) {n : ℕ} {scope : AtomicScope}
    (hn : s.scopes[n]? = some scope) (hphase : scope.phase = .running) (error : Thrown) :
    AtomicInv { s with
      scopes := s.scopes.set n { scope with closed := true, phase := .threw error } } := by
  have hblock := h.blocks n scope hn
  exact h.set hn rfl rfl rfl rfl h.called h.once (fun _ _ => rfl)
    ⟨rfl, hblock.held, hblock.written, hblock.untouched hphase⟩

/-! ### Deliveries -/

/-- What a flushing block held, and how far it has come. -/
theorem BlockContract.flushing {scope : AtomicScope} {log : BlockLog} (h : BlockContract scope log)
    {k : ℕ} (hphase : scope.phase = .flushing k) :
    scope.tx = none ∧ scope.held = log.accepted ∧ k ≤ log.accepted.length ∧
      log.called = log.accepted.take k ∧ log.delivered = log.accepted.take k ∧ log.saves = [] := by
  have hdelivers := h.delivers
  rw [Delivers, hphase] at hdelivers
  obtain ⟨htx, hk, hcalled, hdelivered, hsaves⟩ := hdelivers
  exact ⟨htx, (h.held htx).1, hk, hcalled, hdelivered, hsaves⟩

/-- What a block in the middle of a delivery held, and how far it has come. -/
theorem BlockContract.delivering {scope : AtomicScope} {log : BlockLog}
    (h : BlockContract scope log) {k : ℕ} (hphase : scope.phase = .delivering k) :
    scope.tx = none ∧ scope.held = log.accepted ∧ k < log.accepted.length ∧
      log.called = log.accepted.take (k + 1) ∧ log.delivered = log.accepted.take k ∧
      log.saves = [] := by
  have hdelivers := h.delivers
  rw [Delivers, hphase] at hdelivers
  obtain ⟨htx, hk, hcalled, hdelivered, hsaves⟩ := hdelivers
  exact ⟨htx, (h.held htx).1, hk, hcalled, hdelivered, hsaves⟩

/-- The next job a block held was not handed to the driver before. -/
theorem AtomicInv.not_called {s : AtomicState} (h : AtomicInv s) {n k : ℕ} {e : Enqueue}
    (hcalled : (s.logOf n).called = (s.logOf n).accepted.take k)
    (he : (s.logOf n).accepted[k]? = some e) : e ∉ s.called := by
  intro hmem
  have hscope : e.scope = some n := (scope_of_mem (List.mem_of_getElem? he)).2
  have htake : e ∈ (s.logOf n).accepted.take k := by
    rw [← hcalled]
    exact List.mem_filter.2 ⟨hmem, by simpa using hscope⟩
  -- the jobs a block took have increasing numbers, so none stands at two positions
  have horder : (s.logOf n).accepted.Pairwise fun a b => a.number < b.number :=
    h.order.filter _
  obtain ⟨i, hi, hie⟩ := List.mem_take_iff_getElem.1 htake
  obtain ⟨hk, hke⟩ := List.getElem?_eq_some_iff.1 he
  have hik : i < k := by omega
  have hlt := List.pairwise_iff_getElem.1 horder i k (by omega) hk hik
  rw [hie, hke] at hlt
  exact absurd hlt (lt_irrefl _)

theorem deliverNext_inv {s t : AtomicState} (h : AtomicInv s) {n : ℕ} {scope : AtomicScope}
    (hn : s.scopes[n]? = some scope) (ht : deliverNext s n scope = some t) : AtomicInv t := by
  have hblock := h.blocks n scope hn
  unfold deliverNext at ht
  split at ht
  · rename_i k hphase
    obtain ⟨htx, hheld, hk, hcalled, hdelivered, hsaves⟩ := hblock.flushing hphase
    have hwritten := hblock.written
    split at ht
    · rename_i e he
      obtain rfl := Option.some.inj ht
      rw [hheld] at he
      have hmem := List.mem_of_getElem? he
      obtain ⟨haccepted, hscope⟩ := scope_of_mem hmem
      refine h.set hn rfl rfl rfl rfl ?_ ?_ ?_ ⟨?_, hblock.held, hwritten, ?_⟩
      · intro e' he'
        rcases List.mem_append.1 he' with he' | he'
        · exact h.called e' he'
        · obtain rfl := List.mem_singleton.1 he'
          exact h.accepted e' haccepted
      · exact List.nodup_append_comm.1 (List.nodup_cons.2 ⟨h.not_called hcalled he, h.once⟩)
      · intro m hm
        have hne : e.scope ≠ some m := by
          rw [hscope]
          simpa using Ne.symm hm
        simp [AtomicState.logOf, ofScope_of_ne hne]
      · rw [hblock.closed, hphase]
        rfl
      · refine ⟨htx, (List.getElem?_eq_some_iff.1 he).1, ?_, hdelivered, hsaves⟩
        have hnext : ofScope n (s.called ++ [e]) = (s.logOf n).accepted.take k ++ [e] := by
          rw [ofScope_append, ofScope_self hscope, ← hcalled]
          rfl
        show ofScope n (s.called ++ [e]) = (s.logOf n).accepted.take (k + 1)
        rw [hnext, List.take_add_one, he]
        rfl
    · rename_i he
      obtain rfl := Option.some.inj ht
      rw [hheld, List.getElem?_eq_none_iff] at he
      rw [List.take_of_length_le he] at hcalled hdelivered
      refine h.set hn rfl rfl rfl rfl h.called h.once (fun _ _ => rfl)
        ⟨?_, hblock.held, hwritten, ?_⟩
      · rw [hblock.closed, hphase]
        rfl
      · exact ⟨htx, hcalled, hdelivered, hsaves⟩
  · cases ht

theorem settleCall_inv {s t : AtomicState} (h : AtomicInv s) {n : ℕ} {scope : AtomicScope}
    {outcome : Except Thrown Unit} (hn : s.scopes[n]? = some scope)
    (ht : settleCall s n scope outcome = some t) : AtomicInv t := by
  have hblock := h.blocks n scope hn
  have hdelivers := hblock.delivers
  unfold settleCall at ht
  split at ht
  · rename_i k _ hphase
    obtain ⟨htx, hheld, hk, hcalled, hdelivered, hsaves⟩ := hblock.delivering hphase
    obtain rfl := Option.some.inj ht
    have hget : scope.held[k]?.toList = [(s.logOf n).accepted[k]] := by
      rw [hheld, List.getElem?_eq_getElem hk]
      rfl
    have hscope : (s.logOf n).accepted[k].scope = some n :=
      (scope_of_mem (List.getElem_mem hk)).2
    refine h.set hn rfl rfl rfl rfl h.called h.once ?_ ⟨?_, hblock.held, hblock.written, ?_⟩
    · intro m hm
      have hne : (s.logOf n).accepted[k].scope ≠ some m := by
        rw [hscope]
        simpa using Ne.symm hm
      have hdelivered : ofScope m (s.delivered ++ scope.held[k]?.toList) =
          ofScope m s.delivered := by
        rw [hget, ofScope_append, ofScope_of_ne hne, List.append_nil]
      simp only [AtomicState.logOf, hdelivered]
    · rw [hblock.closed, hphase]
      rfl
    · refine ⟨htx, hk, hcalled, ?_, hsaves⟩
      have hnext : ofScope n (s.delivered ++ scope.held[k]?.toList) =
          (s.logOf n).accepted.take k ++ [(s.logOf n).accepted[k]] := by
        rw [hget, ofScope_append, ofScope_self hscope, ← hdelivered]
        rfl
      show ofScope n (s.delivered ++ scope.held[k]?.toList) = (s.logOf n).accepted.take (k + 1)
      rw [hnext, List.take_append_getElem]
  · rename_i k failure hphase
    obtain ⟨htx, hheld, hk, hcalled, hdelivered, hsaves⟩ := hblock.delivering hphase
    obtain rfl := Option.some.inj ht
    refine h.set hn rfl rfl rfl rfl h.called h.once (fun _ _ => rfl)
      ⟨?_, hblock.held, hblock.written, ?_⟩
    · rw [hblock.closed, hphase]
      rfl
    · exact ⟨htx, hk, hcalled, hdelivered, hsaves, failure, by rw [hheld]; rfl⟩
  · rename_i hphase
    obtain rfl := Option.some.inj ht
    rw [Delivers, hphase] at hdelivers
    refine h.set hn rfl rfl rfl rfl h.called h.once (fun _ _ => rfl)
      ⟨?_, hblock.held, hblock.written, hdelivers⟩
    rw [hblock.closed, hphase]
    rfl
  · rename_i failure hphase
    obtain rfl := Option.some.inj ht
    rw [Delivers, hphase] at hdelivers
    refine h.set hn rfl rfl rfl rfl h.called h.once (fun _ _ => rfl)
      ⟨?_, hblock.held, hblock.written, hdelivers⟩
    rw [hblock.closed, hphase]
    rfl
  · cases ht

/-! ### Enqueues that arrive -/

/-- An open scope takes an enqueue. -/
inductive Takes (scope : AtomicScope) (e : Enqueue) : AtomicScope → Prop
  | holds (htx : scope.tx = none) : Takes scope e { scope with held := scope.held ++ [e] }
  | writes {envelope : Envelope} (htx : scope.tx.isSome) (hrow : forOutbox e.job = .ok envelope) :
      Takes scope e { scope with written := scope.written ++ [envelope] }

/-- **Where an enqueue ends up**: at the driver when its context carries no scope, nowhere when it
is refused, and otherwise in the open scope of its own context. -/
theorem arrive_cases {s : AtomicState} {e : Enqueue}
    (htag : ∀ n, e.scope = some n → n < s.scopes.length) :
    (e.scope = none ∧ arrive s e = { s with next := s.next + 1, called := s.called ++ [e] }) ∨
      (∃ error, arrive s e =
        { s with next := s.next + 1, refused := s.refused ++ [(e, error)] }) ∨
      ∃ n scope scope', e.scope = some n ∧ s.scopes[n]? = some scope ∧ scope.closed = false ∧
        Takes scope e scope' ∧ arrive s e = { s.take n scope' e with next := s.next + 1 } := by
  cases hscope : e.scope with
  | none =>
      refine Or.inl ⟨rfl, ?_⟩
      simp [arrive, holdOrDeliver, AtomicState.getStore, hscope]
  | some n =>
      have hn : n < s.scopes.length := htag n hscope
      have hstore : s.getStore e.scope = some (n, s.scopes[n]) := by
        simp [AtomicState.getStore, hscope, hn]
      have hget : s.scopes[n]? = some s.scopes[n] := List.getElem?_eq_getElem hn
      cases hclosed : s.scopes[n].closed with
      | true =>
          refine Or.inr (Or.inl ⟨endedError s.scopes[n], ?_⟩)
          simp [arrive, holdOrDeliver, hstore, hclosed]
      | false =>
          cases htx : s.scopes[n].tx with
          | none =>
              refine Or.inr (Or.inr ⟨n, _, _, rfl, hget, hclosed, .holds htx, ?_⟩)
              simp [arrive, holdOrDeliver, hstore, hclosed, htx, AtomicState.take]
          | some tx =>
              cases hrow : forOutbox e.job with
              | error error =>
                  refine Or.inr (Or.inl ⟨error, ?_⟩)
                  simp [arrive, holdOrDeliver, hstore, hclosed, htx, hrow, bind, Except.bind]
              | ok envelope =>
                  refine Or.inr (Or.inr ⟨n, _, _, rfl, hget, hclosed,
                    .writes (by rw [htx]; rfl) hrow, ?_⟩)
                  simp [arrive, holdOrDeliver, hstore, hclosed, htx, hrow, bind, Except.bind, pure,
                    Except.pure, AtomicState.take]

/-- A scope that takes an enqueue holds it behind the others. -/
theorem BlockContract.takes {scope scope' : AtomicScope} {log : BlockLog} {e : Enqueue}
    (h : BlockContract scope log) (hopen : scope.closed = false) (htakes : Takes scope e scope') :
    BlockContract scope' { log with accepted := log.accepted ++ [e] } := by
  have hphase := h.open_phase hopen
  have huntouched := h.untouched hphase
  cases htakes with
  | holds htx =>
      refine ⟨h.closed, ?_, ?_, ?_⟩
      · intro _
        exact ⟨by rw [(h.held htx).1], (h.held htx).2⟩
      · intro hsome
        simp [htx] at hsome
      · simpa [Delivers, hphase, Untouched] using huntouched
  | @writes envelope htx hrow =>
      refine ⟨h.closed, ?_, ?_, ?_⟩
      · intro hnone
        have hnone : scope.tx = none := hnone
        simp [hnone] at htx
      · intro _
        refine ⟨(h.written htx).1, ?_⟩
        simp [List.mapM_append, (h.written htx).2, hrow, bind, Except.bind, pure, Except.pure]
      · simpa [Delivers, hphase, Untouched] using huntouched

theorem arrive_inv {s : AtomicState} (h : AtomicInv s) {e : Enqueue} (hnumber : e.number = s.next)
    (hcontext : s.contexts[e.context]? = some e.scope) : AtomicInv (arrive s e) := by
  have hlater : ∀ e' : Enqueue, (e'.number < s.next ∧ s.contexts[e'.context]? = some e'.scope) →
      e'.number < s.next + 1 ∧ s.contexts[e'.context]? = some e'.scope := by
    rintro e' ⟨hlt, hctx⟩
    exact ⟨by omega, hctx⟩
  have hnew : e.number < s.next + 1 ∧ s.contexts[e.context]? = some e.scope := ⟨by omega, hcontext⟩
  have htag : ∀ n, e.scope = some n → n < s.scopes.length := by
    intro n hn
    rw [hn] at hcontext
    exact h.tags n (List.mem_of_getElem? hcontext)
  rcases arrive_cases htag with ⟨hscope, heq⟩ | ⟨error, heq⟩ |
    ⟨n, scope, scope', hscope, hn, hopen, htakes, heq⟩
  · have hlogs : ∀ m, (arrive s e).logOf m = s.logOf m := by
      intro m
      have hne : e.scope ≠ some m := by simp [hscope]
      simp [heq, AtomicState.logOf, ofScope_of_ne hne]
    have hfresh : e ∉ s.called := by
      intro hmem
      have := (h.called e hmem).1
      omega
    rw [heq] at hlogs ⊢
    refine ⟨h.tags, fun e' he' => hlater e' (h.accepted e' he'), ?_, h.order, ?_, ?_, ?_⟩
    · intro e' he'
      rcases List.mem_append.1 he' with he' | he'
      · exact hlater e' (h.called e' he')
      · exact List.mem_singleton.1 he' ▸ hnew
    · exact List.nodup_append_comm.1 (List.nodup_cons.2 ⟨hfresh, h.once⟩)
    · intro m scope hm
      rw [hlogs m]
      exact h.blocks m scope hm
    · intro m hm
      rw [hlogs m]
      exact h.fresh m hm
  · rw [heq]
    exact ⟨h.tags, fun e' he' => hlater e' (h.accepted e' he'),
      fun e' he' => hlater e' (h.called e' he'), h.order, h.once, h.blocks, h.fresh⟩
  · have hlt : n < s.scopes.length := (List.getElem?_eq_some_iff.1 hn).1
    have hself : (arrive s e).logOf n =
        { s.logOf n with accepted := (s.logOf n).accepted ++ [e] } := by
      simp [heq, AtomicState.logOf, AtomicState.take, ofScope_self hscope]
    have hothers : ∀ m, m ≠ n → (arrive s e).logOf m = s.logOf m := by
      intro m hm
      have hne : e.scope ≠ some m := by
        rw [hscope]
        simpa using Ne.symm hm
      simp [heq, AtomicState.logOf, AtomicState.take, ofScope_of_ne hne]
    rw [heq] at hself hothers ⊢
    refine ⟨?_, ?_, fun e' he' => hlater e' (h.called e' he'), ?_, h.once, ?_, ?_⟩
    · intro m hm
      have := h.tags m hm
      simpa [AtomicState.take] using this
    · intro e' he'
      rcases List.mem_append.1 he' with he' | he'
      · exact hlater e' (h.accepted e' he')
      · exact List.mem_singleton.1 he' ▸ hnew
    · refine List.pairwise_append.2 ⟨h.order, List.pairwise_singleton _ _, ?_⟩
      intro a ha b hb
      obtain rfl := List.mem_singleton.1 hb
      have := (h.accepted a ha).1
      omega
    · intro m scope'' hm
      have hset : (s.scopes.set n scope')[m]? = some scope'' := hm
      rw [List.getElem?_set] at hset
      split_ifs at hset with hmn
      · subst hmn
        rw [hself]
        exact Option.some.inj hset ▸ (h.blocks n scope hn).takes hopen htakes
      · rw [hothers m (Ne.symm hmn)]
        exact h.blocks m scope'' hset
    · intro m hm
      have hm : s.scopes.length ≤ m := by simpa [AtomicState.take] using hm
      rw [hothers m (by omega)]
      exact h.fresh m hm

/-! ### Contexts -/

/-- A new context carries a scope that exists, or none. -/
theorem AtomicInv.context {s : AtomicState} (h : AtomicInv s) {tag : Option ℕ}
    (htag : ∀ n, tag = some n → n < s.scopes.length) :
    AtomicInv { s with contexts := s.contexts ++ [tag] } := by
  have hkept : ∀ e : Enqueue, s.contexts[e.context]? = some e.scope →
      (s.contexts ++ [tag])[e.context]? = some e.scope := by
    intro e he
    rwa [List.getElem?_append_left (List.getElem?_eq_some_iff.1 he).1]
  refine ⟨?_, ?_, ?_, h.order, h.once, h.blocks, h.fresh⟩
  · intro n hn
    rcases List.mem_append.1 hn with hn | hn
    · exact h.tags n hn
    · exact htag n (List.mem_singleton.1 hn).symm
  · intro e he
    exact ⟨(h.accepted e he).1, hkept e (h.accepted e he).2⟩
  · intro e he
    exact ⟨(h.called e he).1, hkept e (h.called e he).2⟩

/-- A block that does not join another opens a scope that holds nothing. -/
theorem AtomicInv.opens {s : AtomicState} (h : AtomicInv s) (tx : Option Value) :
    AtomicInv { s with scopes := s.scopes ++ [⟨[], [], tx, false, .running⟩] } := by
  refine ⟨?_, h.accepted, h.called, h.order, h.once, ?_, ?_⟩
  · intro n hn
    have := h.tags n hn
    rw [List.length_append, List.length_singleton]
    omega
  · intro n scope hn
    rcases Nat.lt_or_ge n s.scopes.length with hlt | hge
    · rw [List.getElem?_append_left hlt] at hn
      exact h.blocks n scope hn
    · -- the new scope is the last one, and nothing belongs to it yet
      have hn' : n = s.scopes.length := by
        have hlength := (List.getElem?_eq_some_iff.1 hn).1
        rw [List.length_append, List.length_singleton] at hlength
        omega
      subst hn'
      rw [List.getElem?_concat_length] at hn
      obtain rfl := Option.some.inj hn
      have hlog : s.logOf s.scopes.length = ⟨[], [], [], []⟩ := h.fresh _ le_rfl
      show BlockContract _ (s.logOf s.scopes.length)
      rw [hlog]
      exact ⟨rfl, fun _ => ⟨rfl, rfl⟩, fun _ => ⟨rfl, rfl⟩, rfl, rfl, rfl⟩
  · intro n hn
    rw [List.length_append] at hn
    exact h.fresh n (by omega)

theorem runAtomicBlock_inv {s : AtomicState} (h : AtomicInv s) (tag : Option ℕ)
    (tx : Option Value) : AtomicInv (runAtomicBlock s tag tx) := by
  unfold runAtomicBlock
  split_ifs
  · exact h
  · refine (h.opens tx).context ?_
    rintro n ⟨⟩
    simp

theorem atomic_inv {outbox : Bool} {s t : AtomicState} (h : AtomicInv s) {tag : Option ℕ}
    {tx : Value} (ht : atomic outbox s tag tx = .ok t) : AtomicInv t := by
  unfold atomic at ht
  split_ifs at ht
  · exact Except.ok.inj ht ▸ runAtomicBlock_inv h tag none
  · exact Except.ok.inj ht ▸ runAtomicBlock_inv h tag (some tx)

/-! ### Whole runs -/

/-- One step keeps the invariant. -/
theorem atomicRun_step {outbox : Bool} {s t : AtomicState} {act : AtomicAct} (h : AtomicInv s)
    (hstep : atomicRun outbox s act = some t) : AtomicInv t := by
  cases act with
  | enqueue c definition data awaits =>
      obtain ⟨tag, htag, rfl⟩ := Option.map_eq_some_iff.1 hstep
      split
      · exact arrive_inv h rfl htag
      · exact h
  | atomic c tx =>
      obtain ⟨tag, -, rfl⟩ := Option.map_eq_some_iff.1 hstep
      split
      · rename_i t ht
        exact atomic_inv h ht
      · exact h
  | spawn c =>
      obtain ⟨tag, htag, rfl⟩ := Option.map_eq_some_iff.1 hstep
      refine h.context ?_
      rintro n rfl
      exact h.tags n (List.mem_of_getElem? htag)
  | outside c =>
      obtain ⟨tag, -, rfl⟩ := Option.map_eq_some_iff.1 hstep
      exact h.context fun n hn => by cases hn
  | resolve n =>
      obtain ⟨scope, hn, hstep⟩ := Option.bind_eq_some_iff.1 hstep
      split at hstep
      · rename_i hphase
        exact Option.some.inj hstep ▸ settleBlock_inv h hn hphase
      · cases hstep
  | throws n error =>
      obtain ⟨scope, hn, hstep⟩ := Option.bind_eq_some_iff.1 hstep
      split at hstep
      · rename_i hphase
        exact Option.some.inj hstep ▸ throws_inv h hn hphase error
      · cases hstep
  | deliver n =>
      obtain ⟨scope, hn, hstep⟩ := Option.bind_eq_some_iff.1 hstep
      exact deliverNext_inv h hn hstep
  | answer n outcome =>
      obtain ⟨scope, hn, hstep⟩ := Option.bind_eq_some_iff.1 hstep
      exact settleCall_inv h hn hstep

/-! ### How blocks end -/

/-- How the function of a block has ended. -/
def BlockPhase.outcome : BlockPhase → Option (Except Thrown Unit)
  | .running => none
  | .threw error => some (.error error)
  | _ => some (.ok ())

/-- How the function of a block has ended.  That of a block nobody opened has not. -/
def AtomicState.outcome (s : AtomicState) (n : ℕ) : Option (Except Thrown Unit) :=
  s.scopes[n]?.bind fun scope => scope.phase.outcome

/-- Nothing of a block was touched whose function has not resolved. -/
theorem AtomicInv.untouched {s : AtomicState} (h : AtomicInv s) {n : ℕ}
    (hn : s.outcome n ≠ some (.ok ())) : Untouched (s.logOf n) := by
  cases hscope : s.scopes[n]? with
  | none =>
      rw [h.fresh n (List.getElem?_eq_none_iff.1 hscope)]
      exact ⟨rfl, rfl, rfl⟩
  | some scope =>
      have hdelivers := (h.blocks n scope hscope).delivers
      rw [AtomicState.outcome, hscope, Option.bind_some] at hn
      rw [Delivers] at hdelivers
      cases hphase : scope.phase with
      | running => rwa [hphase] at hdelivers
      | threw error => rwa [hphase] at hdelivers
      | _ => exact absurd (by rw [hphase]; rfl) hn

/-- **A block ended as its function did**: by the steps that were taken. -/
structure EndsWith (l : List AtomicAct) (s : AtomicState) : Prop where
  resolved : ∀ n, s.outcome n = some (.ok ()) ↔ .resolve n ∈ l
  threw : ∀ n error, s.outcome n = some (.error error) ↔ .throws n error ∈ l

/-- The block whose function a step ends, and how. -/
def AtomicAct.ends : AtomicAct → Option (ℕ × Except Thrown Unit)
  | .resolve n => some (n, .ok ())
  | .throws n error => some (n, .error error)
  | _ => none

theorem outcome_set {s t : AtomicState} {n : ℕ} {scope scope' : AtomicScope}
    {outcome : Option (Except Thrown Unit)} (hn : s.scopes[n]? = some scope)
    (hscopes : t.scopes = s.scopes.set n scope') (hphase : scope'.phase.outcome = outcome) :
    t.outcome = Function.update s.outcome n outcome := by
  have hlt : n < s.scopes.length := (List.getElem?_eq_some_iff.1 hn).1
  funext m
  by_cases hm : m = n
  · subst hm
    rw [Function.update_self, AtomicState.outcome, hscopes, List.getElem?_set_self hlt]
    exact hphase
  · rw [Function.update_of_ne hm, AtomicState.outcome, hscopes, List.getElem?_set_ne (Ne.symm hm)]
    rfl

/-- A block whose phase moves on behind its function has ended as it had. -/
theorem outcome_kept {s t : AtomicState} {n : ℕ} {scope scope' : AtomicScope}
    (hn : s.scopes[n]? = some scope) (hscopes : t.scopes = s.scopes.set n scope')
    (hphase : scope'.phase.outcome = scope.phase.outcome) : t.outcome = s.outcome := by
  have hsame : s.outcome n = scope.phase.outcome := by rw [AtomicState.outcome, hn]; rfl
  rw [outcome_set hn hscopes (hphase.trans hsame.symm), Function.update_eq_self]

theorem outcome_arrive (s : AtomicState) (e : Enqueue) : (arrive s e).outcome = s.outcome := by
  unfold arrive
  cases hheld : holdOrDeliver s e with
  | error error => rfl
  | ok t =>
      show t.outcome = s.outcome
      unfold holdOrDeliver at hheld
      split at hheld
      · obtain rfl := Except.ok.inj hheld
        rfl
      · rename_i n scope hstore
        have hn : s.scopes[n]? = some scope := by
          obtain ⟨m, -, hm⟩ := Option.bind_eq_some_iff.1 hstore
          obtain ⟨scope', hscope', heq⟩ := Option.map_eq_some_iff.1 hm
          cases heq
          exact hscope'
        split_ifs at hheld
        · obtain ⟨envelope, -, hheld⟩ := bind_eq_ok.1 hheld
          obtain rfl := Except.ok.inj hheld
          exact outcome_kept hn rfl rfl
        · obtain rfl := Except.ok.inj hheld
          exact outcome_kept hn rfl rfl

theorem outcome_atomic {outbox : Bool} {s t : AtomicState} {tag : Option ℕ} {tx : Value}
    (ht : atomic outbox s tag tx = .ok t) : t.outcome = s.outcome := by
  have hruns : ∀ tx, (runAtomicBlock s tag tx).outcome = s.outcome := by
    intro tx
    unfold runAtomicBlock
    split_ifs
    · rfl
    · funext n
      rcases Nat.lt_trichotomy n s.scopes.length with hlt | rfl | hgt
      · simp only [AtomicState.outcome, List.getElem?_append_left hlt]
      -- the function of a block that opens is running
      · simp [AtomicState.outcome, BlockPhase.outcome]
      · simp only [AtomicState.outcome]
        rw [List.getElem?_eq_none (by simp; omega), List.getElem?_eq_none (by omega)]
  unfold atomic at ht
  split_ifs at ht
  · exact Except.ok.inj ht ▸ hruns none
  · exact Except.ok.inj ht ▸ hruns (some tx)

theorem outcome_deliverNext {s t : AtomicState} {n : ℕ} {scope : AtomicScope}
    (hn : s.scopes[n]? = some scope) (ht : deliverNext s n scope = some t) :
    t.outcome = s.outcome := by
  unfold deliverNext at ht
  split at ht
  · rename_i k hphase
    split at ht <;> obtain rfl := Option.some.inj ht
    · exact outcome_kept hn rfl (by rw [hphase]; rfl)
    · exact outcome_kept hn rfl (by rw [hphase]; rfl)
  · cases ht

theorem outcome_settleCall {s t : AtomicState} {n : ℕ} {scope : AtomicScope}
    {answer : Except Thrown Unit} (hn : s.scopes[n]? = some scope)
    (ht : settleCall s n scope answer = some t) : t.outcome = s.outcome := by
  unfold settleCall at ht
  split at ht
  · rename_i k _ hphase
    obtain rfl := Option.some.inj ht
    exact outcome_kept hn rfl (by rw [hphase]; rfl)
  · rename_i k failure hphase
    obtain rfl := Option.some.inj ht
    exact outcome_kept hn rfl (by rw [hphase]; rfl)
  · rename_i hphase
    obtain rfl := Option.some.inj ht
    exact outcome_kept hn rfl (by rw [hphase]; rfl)
  · rename_i failure hphase
    obtain rfl := Option.some.inj ht
    exact outcome_kept hn rfl (by rw [hphase]; rfl)
  · cases ht

/-- **A block ends when its function resolves or throws**, once, and at no other step. -/
theorem outcome_step {outbox : Bool} {s t : AtomicState} {act : AtomicAct}
    (h : atomicRun outbox s act = some t) :
    (act.ends = none ∧ t.outcome = s.outcome) ∨
      ∃ n r, act.ends = some (n, r) ∧ s.outcome n = none ∧
        t.outcome = Function.update s.outcome n (some r) := by
  cases act with
  | enqueue c definition data awaits =>
      obtain ⟨tag, -, rfl⟩ := Option.map_eq_some_iff.1 h
      refine Or.inl ⟨rfl, ?_⟩
      split
      · exact outcome_arrive _ _
      · rfl
  | atomic c tx =>
      obtain ⟨tag, -, rfl⟩ := Option.map_eq_some_iff.1 h
      refine Or.inl ⟨rfl, ?_⟩
      split
      · rename_i t ht
        exact outcome_atomic ht
      · rfl
  | spawn c =>
      obtain ⟨tag, -, rfl⟩ := Option.map_eq_some_iff.1 h
      exact Or.inl ⟨rfl, rfl⟩
  | outside c =>
      obtain ⟨tag, -, rfl⟩ := Option.map_eq_some_iff.1 h
      exact Or.inl ⟨rfl, rfl⟩
  | resolve n =>
      obtain ⟨scope, hn, h⟩ := Option.bind_eq_some_iff.1 h
      split at h
      · rename_i hphase
        obtain rfl := Option.some.inj h
        refine Or.inr ⟨n, .ok (), rfl, by simp [AtomicState.outcome, hn, hphase,
            BlockPhase.outcome], ?_⟩
        unfold settleBlock
        cases scope.tx with
        | none => exact outcome_set hn rfl rfl
        | some tx =>
            simp only
            split_ifs
            · exact outcome_set hn rfl rfl
            · exact outcome_set hn rfl rfl
      · cases h
  | throws n error =>
      obtain ⟨scope, hn, h⟩ := Option.bind_eq_some_iff.1 h
      split at h
      · rename_i hphase
        obtain rfl := Option.some.inj h
        exact Or.inr ⟨n, .error error, rfl,
          by simp [AtomicState.outcome, hn, hphase, BlockPhase.outcome], outcome_set hn rfl rfl⟩
      · cases h
  | deliver n =>
      obtain ⟨scope, hn, h⟩ := Option.bind_eq_some_iff.1 h
      exact Or.inl ⟨rfl, outcome_deliverNext hn h⟩
  | answer n answer =>
      obtain ⟨scope, hn, h⟩ := Option.bind_eq_some_iff.1 h
      exact Or.inl ⟨rfl, outcome_settleCall hn h⟩

theorem AtomicAct.ends_resolve_iff {act : AtomicAct} {n : ℕ} :
    act.ends = some (n, .ok ()) ↔ act = .resolve n := by
  cases act <;> simp [AtomicAct.ends]

theorem AtomicAct.ends_throws_iff {act : AtomicAct} {n : ℕ} {error : Thrown} :
    act.ends = some (n, .error error) ↔ act = .throws n error := by
  cases act <;> simp [AtomicAct.ends]

/-- **One step keeps how blocks ended with the steps that ended them.** -/
theorem ends_step {outbox : Bool} {l : List AtomicAct} {s t : AtomicState} {act : AtomicAct}
    (h : EndsWith l s) (hstep : atomicRun outbox s act = some t) : EndsWith (l ++ [act]) t := by
  have hother : ∀ {act' : AtomicAct}, act ≠ act' → (act' ∈ l ++ [act] ↔ act' ∈ l) := by
    intro act' hne
    simp [hne.symm]
  rcases outcome_step hstep with ⟨hnone, hsame⟩ | ⟨n, r, hends, hopen, hset⟩
  · constructor
    · intro m
      rw [hsame, hother, h.resolved]
      rintro rfl
      cases hnone
    · intro m error
      rw [hsame, hother, h.threw]
      rintro rfl
      cases hnone
  · constructor
    · intro m
      rw [hset]
      by_cases hm : m = n
      · subst hm
        rw [Function.update_self]
        have hnot : .resolve m ∉ l := fun hmem => by
          have hsome := (h.resolved m).2 hmem
          rw [hopen] at hsome
          cases hsome
        rw [List.mem_append, List.mem_singleton, or_iff_right hnot,
          eq_comm (a := AtomicAct.resolve m), ← AtomicAct.ends_resolve_iff, hends]
        simp
      · rw [Function.update_of_ne hm, h.resolved, hother]
        rintro rfl
        cases hends
        exact hm rfl
    · intro m error
      rw [hset]
      by_cases hm : m = n
      · subst hm
        rw [Function.update_self]
        have hnot : .throws m error ∉ l := fun hmem => by
          have hsome := (h.threw m error).2 hmem
          rw [hopen] at hsome
          cases hsome
        rw [List.mem_append, List.mem_singleton, or_iff_right hnot,
          eq_comm (a := AtomicAct.throws m error), ← AtomicAct.ends_throws_iff, hends]
        simp
      · rw [Function.update_of_ne hm, h.threw, hother]
        rintro rfl
        cases hends
        exact hm rfl

/-- **The contract of atomic blocks**, in the state that some steps led to. -/
structure AtomicContract (outbox : Bool) (l : List AtomicAct) (s : AtomicState) : Prop where
  /-- A block ended as its function did. -/
  ends : EndsWith l s
  /-- Until its function resolves, nothing of a block reaches the driver or the outbox. -/
  unresolved : ∀ n, .resolve n ∉ l → Untouched (s.logOf n)
  /-- And once it threw, nothing of it ever does. -/
  thrown : ∀ n error, .throws n error ∈ l → .resolve n ∉ l ∧ Untouched (s.logOf n)
  /-- What a block holds and what was done with it, by how far it has come. -/
  blocks : ∀ n scope, s.scopes[n]? = some scope → BlockContract scope (s.logOf n)
  /-- Enqueues are held in the order they arrived. -/
  order : s.accepted.Pairwise fun a b => a.number < b.number
  /-- No enqueue reaches the driver twice. -/
  once : s.called.Nodup
  /-- The scope an enqueue was held by, or was not held by, is the one its own context carries. -/
  own : ∀ e, e ∈ s.accepted ∨ e ∈ s.called → s.contexts[e.context]? = some e.scope
  /-- A block that is flushing goes on to its next job, or ends. -/
  goesOn : ∀ n scope k, s.scopes[n]? = some scope → scope.phase = .flushing k →
    (atomicRun outbox s (.deliver n)).isSome
  /-- An enqueue that arrives after its block ended is refused, and nothing else happens. -/
  ended : ∀ c n scope, s.contexts[c]? = some (some n) → s.scopes[n]? = some scope →
    scope.phase.ended = true → ∀ definition data awaits job,
    heldJob definition data awaits = .ok job →
      atomicRun outbox s (.enqueue c definition data awaits) = some { s with
        next := s.next + 1
        refused := s.refused ++ [(⟨s.next, c, some n, job⟩, endedError scope)] }

/-- **The contract of atomic blocks** holds in every state that contexts, blocks, enqueues and
deliveries reach, in whatever order they take their steps. -/
theorem atomic_contract {outbox : Bool} {l : List AtomicAct} {s : AtomicState}
    (h : (atomicRun outbox).exec .init l = some s) : AtomicContract outbox l s := by
  have hinv : AtomicInv s :=
    Machine.exec_invariant (fun _ _ _ hs hstep => atomicRun_step hs hstep) h atomicInv_init
  have hstart : EndsWith [] .init := by
    constructor <;> simp [AtomicState.outcome, AtomicState.init]
  have hends : EndsWith l s :=
    Machine.exec_history (fun _ _ _ _ hs hstep => ends_step hs hstep) h hstart
  have hunresolved : ∀ n, .resolve n ∉ l → Untouched (s.logOf n) := fun n hn =>
    hinv.untouched fun hok => hn ((hends.resolved n).1 hok)
  have hthrown : ∀ n error, .throws n error ∈ l → .resolve n ∉ l := by
    intro n error hthrows hresolves
    have hsame := ((hends.threw n error).2 hthrows).symm.trans ((hends.resolved n).2 hresolves)
    cases hsame
  refine ⟨hends, hunresolved, ?_, hinv.blocks, hinv.order, hinv.once, ?_, ?_, ?_⟩
  · intro n error hn
    exact ⟨hthrown n error hn, hunresolved n (hthrown n error hn)⟩
  · rintro e (he | he)
    · exact (hinv.accepted e he).2
    · exact (hinv.called e he).2
  · intro n scope k hn hphase
    rw [atomicRun, hn]
    simp only [Option.bind_some, deliverNext, hphase]
    split <;> rfl
  · intro c n scope hc hn hended definition data awaits job hjob
    have hclosed : scope.closed = true := by rw [(hinv.blocks n scope hn).closed, hended]
    simp [atomicRun, hc, hjob, arrive, holdOrDeliver, AtomicState.getStore, hn, hclosed]

/-- Three outermost blocks and an inner one: the first block holds two enqueues, one of them made in
the inner block, and one of its deliveries fails; the second one saves its only enqueue; the third
one holds one and throws; a callback of the first block and one of the third enqueue too late. -/
def threeBlocks : List AtomicAct :=
  [.atomic 0 .undefined, .enqueue 1 lineJob .null .undefined, .spawn 1, .atomic 1 .undefined,
    .enqueue 1 lineJob .null .undefined, .atomic 0 (.str "tx"), .enqueue 3 lineJob .null .undefined,
    .atomic 0 .undefined, .enqueue 4 lineJob .null .undefined, .throws 2 typeError,
    .resolve 0, .deliver 0, .resolve 1, .answer 0 (.ok ()), .enqueue 2 lineJob .null .undefined,
    .enqueue 4 lineJob .null .undefined, .deliver 0, .answer 1 (.ok ()),
    .answer 0 (.error typeError)]

/-- Four enqueues were held; the first block delivered one of its two, the second one saved its only
one, nothing became of that of the block that threw, and the late ones were refused. -/
theorem atomic_contract_example : ∃ s, (atomicRun true).exec .init threeBlocks = some s ∧
    (s.accepted.length, s.delivered.length, s.called.length, s.saves.length, s.refused.length) =
      (4, 1, 2, 1, 2) ∧
    (s.logOf 2).accepted.length = 1 ∧ Untouched (s.logOf 2) ∧
    AtomicContract true threeBlocks s := by
  have hrun : ∃ s, (atomicRun true).exec .init threeBlocks = some s ∧
      (s.accepted.length, s.delivered.length, s.called.length, s.saves.length, s.refused.length) =
        (4, 1, 2, 1, 2) ∧ (s.logOf 2).accepted.length = 1 := ⟨_, rfl, rfl, rfl⟩
  obtain ⟨s, hrun, hcounts, hheld⟩ := hrun
  have hcontract := atomic_contract hrun
  have hthrows : .throws 2 typeError ∈ threeBlocks := by simp [threeBlocks]
  exact ⟨s, hrun, hcounts, hheld, (hcontract.thrown 2 typeError hthrows).2, hcontract⟩

/-! ### Blocks that go on -/

/-- One turn of the loop of `flush`, when the driver takes the job. -/
theorem flush_turn {outbox : Bool} {s : AtomicState} {n k : ℕ} {scope : AtomicScope}
    (hn : s.scopes[n]? = some scope) (hphase : scope.phase = .flushing k)
    (hk : k < scope.held.length) :
    ∃ t, (atomicRun outbox).exec s [.deliver n, .answer n (.ok ())] = some t ∧
      t.scopes[n]? = some { scope with phase := .flushing (k + 1) } := by
  have hlt : n < s.scopes.length := (List.getElem?_eq_some_iff.1 hn).1
  have hget : scope.held[k]? = some scope.held[k] := List.getElem?_eq_getElem hk
  let called : AtomicState := { s with
    scopes := s.scopes.set n { scope with phase := .delivering k }
    called := s.called ++ [scope.held[k]] }
  have hdeliver : atomicRun outbox s (.deliver n) = some called := by
    simp [atomicRun, hn, deliverNext, hphase, hget, called]
  have hcalled : called.scopes[n]? = some { scope with phase := .delivering k } :=
    List.getElem?_set_self hlt
  have hanswer : ∃ t, atomicRun outbox called (.answer n (.ok ())) = some t ∧
      t.scopes = called.scopes.set n { scope with phase := .flushing (k + 1) } := by
    rw [atomicRun, hcalled]
    exact ⟨_, rfl, rfl⟩
  obtain ⟨t, hanswer, hscopes⟩ := hanswer
  refine ⟨t, Machine.exec_cons_iff.2 ⟨called, hdeliver, Machine.exec_singleton.2 hanswer⟩, ?_⟩
  rw [hscopes]
  exact List.getElem?_set_self (by rw [List.length_set]; exact hlt)

/-- **A block that flushes delivers everything it held**, when the driver takes every job. -/
theorem flush_delivers_all {outbox : Bool} {s : AtomicState} {n k : ℕ} {scope : AtomicScope}
    (hn : s.scopes[n]? = some scope) (hphase : scope.phase = .flushing k) :
    ∃ l t, (atomicRun outbox).exec s l = some t ∧
      t.scopes[n]? = some { scope with phase := .flushed } := by
  -- the induction is on the number of jobs that are left
  induction hleft : scope.held.length - k generalizing s scope k with
  | zero =>
      have hlt : n < s.scopes.length := (List.getElem?_eq_some_iff.1 hn).1
      have hnone : scope.held[k]? = none := List.getElem?_eq_none_iff.2 (by omega)
      have hends : atomicRun outbox s (.deliver n) =
          some { s with scopes := s.scopes.set n { scope with phase := .flushed } } := by
        simp [atomicRun, hn, deliverNext, hphase, hnone]
      exact ⟨[.deliver n], _, Machine.exec_singleton.2 hends, List.getElem?_set_self hlt⟩
  | succ left ih =>
      obtain ⟨u, hturn, hu⟩ := @flush_turn outbox s n k scope hn hphase (by omega)
      obtain ⟨l, t, hl, ht⟩ := ih hu rfl (by simp only; omega)
      exact ⟨_, t, Machine.exec_append_iff.2 ⟨u, hturn, hl⟩, ht⟩

end Jubs
