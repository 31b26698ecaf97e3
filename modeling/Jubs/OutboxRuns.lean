/-
**Relays over one driver.**

Any number of relays claim rows of their outboxes, deliver them one by one and mark what they
delivered.  A row may be claimed by two relays at once or again after a crash, a relay may crash at
any point, and a call of the driver may fail whether or not it had stored the job.  What ties a mark
to a job is the id derived from the row: it names one row of one outbox, and says nothing of which
outbox.

Main definitions:

* `Jubs.Relaying` — the rows of some outboxes, and the relays that read them;
* `Jubs.RelayRun`, `Jubs.relayRun` — the relays and the driver as one machine;
* `Jubs.RelayInv`, `Jubs.Backed` — what holds in every run, and a mark that is backed by its own
  job;
* `Jubs.Apart` — no two outboxes derive one id for one queue.

Main results:

* `Jubs.relayRun_inv` — what is stored was stored from a row, and never twice under one id;
* `Jubs.outbox_contract` — **one outbox: one job for a row, and no mark before it**;
* `Jubs.marks_backed_iff` — **several outboxes: every mark is backed exactly when they are apart**;
* `Jubs.marks_unbacked` — two outboxes that mark a row nothing was stored for.
-/

import Jubs.MemoryRuns
import Jubs.Outbox

set_option autoImplicit false

namespace Jubs

/-! ### Relays and their rows -/

/-- The rows that ever stand in some outboxes, by outbox and row id, and the relays that read them.
A row was read back from a table, so its envelope can be stored. -/
structure Relaying (ι ρ : Type) where
  rows : ι → String → Option Envelope
  outbox : ρ → ι
  config : ρ → RelayConfig
  storable : ∀ o id envelope, rows o id = some envelope → (storedData envelope).isSome = true

/-- Where a relay stands: between two cycles, or with the rows of its batch that are left and the
ids of those it delivered. -/
inductive RelayState where
  | idle
  | working (batch : List ClaimedEnvelope) (delivered : List String)

/-- The driver, the relays, the jobs that were stored by row, and the rows that are marked. -/
structure RelayRun (δ ι ρ : Type) where
  driver : δ
  relays : ρ → RelayState
  stored : List ((ι × String) × KeptJob)
  marked : List (ι × String)

/-- A step of one relay.  `claim` names the rows the outbox hands out, `deliver` how the call on the
driver fares, `mark` the rows the outbox does mark. -/
inductive RelayStep (ρ φ : Type) where
  | claim (relay : ρ) (ids : List String)
  | deliver (relay : ρ) (fate : φ)
  | mark (relay : ρ) (marks : List String)
  | crash (relay : ρ)

section

variable {δ φ ι ρ : Type}

/-- The rows an outbox hands out for some ids. -/
def Relaying.claim (R : Relaying ι ρ) (relay : ρ) (ids : List String) :
    Option (List ClaimedEnvelope) :=
  ids.mapM fun id => (R.rows (R.outbox relay) id).map fun envelope => ⟨id, envelope⟩

/-- Every row that is handed out stands in the outbox. -/
theorem rows_of_claim {R : Relaying ι ρ} {relay : ρ} {ids : List String}
    {batch : List ClaimedEnvelope} (h : R.claim relay ids = some batch) :
    ∀ row ∈ batch, R.rows (R.outbox relay) row.id = some row.envelope := by
  induction ids generalizing batch with
  | nil =>
      obtain rfl := Option.some.inj h
      simp
  | cons id ids ih =>
      rw [Relaying.claim, List.mapM_cons] at h
      obtain ⟨row, hrow, h⟩ := Option.bind_eq_some_iff.1 h
      obtain ⟨rest, hrest, h⟩ := Option.bind_eq_some_iff.1 h
      obtain rfl := Option.some.inj h
      obtain ⟨envelope, henvelope, rfl⟩ := Option.map_eq_some_iff.1 hrow
      exact List.forall_mem_cons.2 ⟨henvelope, ih hrest⟩

/-- A relay after the delivery of one row.  An error ends its cycle. -/
def RelayState.next (batch : List ClaimedEnvelope) (delivered : List String) (id : String) :
    Except Thrown (Option LeftBehindEvent) → RelayState
  | .ok none => .working batch (delivered ++ [id])
  | .ok (some _) => .working batch delivered
  | .error _ => .idle

variable [DecidableEq ρ]

/-- One relay moves to another state. -/
def RelayRun.moves (s : RelayRun δ ι ρ) (relay : ρ) (state : RelayState) : RelayRun δ ι ρ :=
  { s with relays := Function.update s.relays relay state }

/-- What holds of every relay after one of them moved. -/
theorem RelayRun.forall_moves {P : ρ → RelayState → Prop} {s : RelayRun δ ι ρ} {relay : ρ}
    {state : RelayState} (hothers : ∀ relay', P relay' (s.relays relay')) (hself : P relay state)
    (relay' : ρ) : P relay' ((s.moves relay state).relays relay') := by
  show P relay' (Function.update s.relays relay state relay')
  by_cases h : relay' = relay
  · subst h
    rw [Function.update_self]
    exact hself
  · rw [Function.update_of_ne h]
    exact hothers relay'

/-- `runRelayCycle(config)` of every relay, step by step. -/
def relayRun (K : KeepingDriver δ φ) (R : Relaying ι ρ) :
    Machine (RelayRun δ ι ρ) (RelayStep ρ φ) := fun s step =>
  match step with
  | .claim relay ids =>
      match s.relays relay with
      | .idle => (R.claim relay ids).map fun batch => s.moves relay (.working batch [])
      | .working _ _ => none
  | .deliver relay fate =>
      match s.relays relay with
      | .working (row :: batch) delivered =>
          (deliver (K.enqueue fate) (R.config relay) row s.driver).map fun (answer, d) =>
            let added := (K.jobs d).drop (K.jobs s.driver).length
            { s.moves relay (.next batch delivered row.id answer) with
              driver := d
              stored := s.stored ++ added.map fun job => ((R.outbox relay, row.id), job) }
      | _ => none
  | .mark relay marks =>
      match s.relays relay with
      | .working [] delivered =>
          if ∀ id ∈ marks, id ∈ delivered then
            some { s.moves relay .idle with
              marked := s.marked ++ marks.map fun id => (R.outbox relay, id) }
          else none
      | _ => none
  | .crash relay => some (s.moves relay .idle)

/-- No relay has begun. -/
def RelayRun.start (d : δ) : RelayRun δ ι ρ := ⟨d, fun _ => .idle, [], []⟩

/-! ### What a step can do -/

/-- What a step of a relay does. -/
inductive RelayMove (K : KeepingDriver δ φ) (R : Relaying ι ρ) (s : RelayRun δ ι ρ) :
    RelayRun δ ι ρ → Prop where
  | claims {relay : ρ} {batch : List ClaimedEnvelope}
      (rows : ∀ row ∈ batch, R.rows (R.outbox relay) row.id = some row.envelope) :
      RelayMove K R s (s.moves relay (.working batch []))
  | delivers {relay : ρ} {row : ClaimedEnvelope} {batch : List ClaimedEnvelope}
      {delivered : List String} {answer : Except Thrown (Option LeftBehindEvent)} {d : δ}
      (working : s.relays relay = .working (row :: batch) delivered)
      (did : K.Delivered (R.config relay) row s.driver d answer) :
      RelayMove K R s { s.moves relay (.next batch delivered row.id answer) with
        driver := d
        stored := s.stored ++ ((K.jobs d).drop (K.jobs s.driver).length).map fun job =>
          ((R.outbox relay, row.id), job) }
  | marks {relay : ρ} {delivered marks : List String}
      (working : s.relays relay = .working [] delivered) (among : ∀ id ∈ marks, id ∈ delivered) :
      RelayMove K R s { s.moves relay .idle with
        marked := s.marked ++ marks.map fun id => (R.outbox relay, id) }
  | crashes {relay : ρ} : RelayMove K R s (s.moves relay .idle)

theorem relayRun_cases {K : KeepingDriver δ φ} {R : Relaying ι ρ} {s t : RelayRun δ ι ρ}
    {step : RelayStep ρ φ} (h : relayRun K R s step = some t) : RelayMove K R s t := by
  cases step with
  | claim relay ids =>
      simp only [relayRun] at h
      split at h
      · obtain ⟨batch, hbatch, rfl⟩ := Option.map_eq_some_iff.1 h
        exact .claims (rows_of_claim hbatch)
      · cases h
  | deliver relay fate =>
      simp only [relayRun] at h
      split at h
      · rename_i row batch delivered hworking
        obtain ⟨⟨answer, d⟩, hdeliver, rfl⟩ := Option.map_eq_some_iff.1 h
        exact .delivers hworking (K.deliver_cases hdeliver)
      · cases h
  | mark relay marks =>
      simp only [relayRun] at h
      split at h
      · rename_i delivered hworking
        split_ifs at h with hamong
        obtain rfl := Option.some.inj h
        exact .marks hworking hamong
      · cases h
  | crash relay =>
      obtain rfl := Option.some.inj h
      exact .crashes

/-! ### What is stored -/

/-- The request a relay makes of a row of its outbox. -/
def Relaying.Requests (R : Relaying ι ρ) (relay : ρ) (id : String) (request : EnqueueRequest) :
    Prop :=
  ∃ envelope, R.rows (R.outbox relay) id = some envelope ∧
    prepare (R.config relay) ⟨id, envelope⟩ = some (.ok request)

/-- A job that was stored from the envelope of a row. -/
structure StoredFrom (K : KeepingDriver δ φ) (R : Relaying ι ρ) (row : ι × String) (job : KeptJob) :
    Prop where
  requested : ∃ relay request, R.outbox relay = row.1 ∧ R.Requests relay row.2 request ∧
    K.takes request ∧ job.queue = request.queue
  derived : outboxJobId row.2 = .ok job.id
  envelope : ∃ envelope, R.rows row.1 row.2 = some envelope ∧
    storedData envelope = some job.envelope

/-- The rows of a batch stand in an outbox. -/
def RelayState.Reads (R : Relaying ι ρ) (relay : ρ) : RelayState → Prop
  | .idle => True
  | .working batch _ => ∀ row ∈ batch, R.rows (R.outbox relay) row.id = some row.envelope

/-- What is stored was stored from a row, and no two of the jobs stand under one id of one queue. -/
structure RelayInv (K : KeepingDriver δ φ) (R : Relaying ι ρ) (d₀ : δ) (s : RelayRun δ ι ρ) :
    Prop where
  jobs : K.jobs s.driver = K.jobs d₀ ++ s.stored.map Prod.snd
  origin : ∀ row job, (row, job) ∈ s.stored → StoredFrom K R row job
  apart : (s.stored.map Prod.snd).Pairwise fun job job' => ¬ job.At job'.queue job'.id
  batch : ∀ relay, (s.relays relay).Reads R relay

section

variable {K : KeepingDriver δ φ} {R : Relaying ι ρ} {d₀ : δ} {s t : RelayRun δ ι ρ}

omit [DecidableEq ρ] in
theorem RelayInv.start : RelayInv K R d₀ (.start d₀) := by
  constructor
  · exact (List.append_nil _).symm
  · intro row job h
    cases h
  · exact .nil
  · exact fun _ => trivial

omit [DecidableEq ρ] in
theorem RelayState.reads_next {relay : ρ} {row : ClaimedEnvelope} {batch : List ClaimedEnvelope}
    {delivered : List String} (h : (RelayState.working (row :: batch) delivered).Reads R relay)
    (id : String) (answer : Except Thrown (Option LeftBehindEvent)) :
    (RelayState.next batch delivered id answer).Reads R relay := by
  have hrest := fun row' hrow' => h row' (List.mem_cons_of_mem row hrow')
  rcases answer with error | _ | event
  · trivial
  · exact hrest
  · exact hrest

/-- **What is stored**: a step stores the job of a row under the row's id, or nothing. -/
theorem RelayInv.step (h : RelayInv K R d₀ s) (hmove : RelayMove K R s t) : RelayInv K R d₀ t := by
  cases hmove with
  | claims hrows => exact ⟨h.jobs, h.origin, h.apart, RelayRun.forall_moves h.batch hrows⟩
  | marks _ _ => exact ⟨h.jobs, h.origin, h.apart, RelayRun.forall_moves h.batch trivial⟩
  | crashes => exact ⟨h.jobs, h.origin, h.apart, RelayRun.forall_moves h.batch trivial⟩
  | @delivers relay row batch delivered answer d hworking hdid =>
      have hreads := h.batch relay
      rw [hworking] at hreads
      have hrow : R.rows (R.outbox relay) row.id = some row.envelope :=
        hreads row List.mem_cons_self
      have hbatch := RelayRun.forall_moves h.batch (RelayState.reads_next hreads row.id answer)
      cases hdid with
      | kept hsame _ =>
          have hnone : (K.jobs d).drop (K.jobs s.driver).length = [] := by
            rw [hsame, List.drop_length]
          rw [hnone, List.map_nil, List.append_nil]
          exact ⟨hsame.trans h.jobs, h.origin, h.apart, hbatch⟩
      | @stored request jobId envelope hprepared htakes hderived hprojected hadded hnew =>
          have hone : (K.jobs d).drop (K.jobs s.driver).length =
              [⟨request.queue, jobId, envelope⟩] := by rw [hadded, List.drop_left]
          rw [hone, List.map_singleton]
          refine ⟨?_, ?_, ?_, hbatch⟩
          · rw [hadded, h.jobs, List.map_append, List.append_assoc]
            rfl
          · intro key job hmem
            rcases List.mem_append.1 hmem with hmem | hmem
            · exact h.origin key job hmem
            · cases List.mem_singleton.1 hmem
              exact ⟨⟨relay, request, rfl, ⟨row.envelope, hrow, hprepared⟩, htakes, rfl⟩, hderived,
                row.envelope, hrow, hprojected⟩
          · rw [List.map_append, List.map_singleton]
            refine List.pairwise_append.2 ⟨h.apart, List.pairwise_singleton _ _, ?_⟩
            intro job hjob job' hjob'
            rw [List.mem_singleton.1 hjob']
            refine hnew job ?_
            rw [h.jobs]
            exact List.mem_append_right _ hjob

/-- What is stored in a run was stored from rows, under different ids. -/
theorem relayRun_inv {steps : List (RelayStep ρ φ)}
    (h : (relayRun K R).exec (.start d₀) steps = some s) : RelayInv K R d₀ s :=
  Machine.exec_invariant (fun _ _ _ hinv hstep => RelayInv.step hinv (relayRun_cases hstep)) h
    RelayInv.start

/-! ### Marks and the jobs behind them -/

/-- Every row that is marked has a job of its own: one the driver holds, stored from the row's own
envelope. -/
def Backed (K : KeepingDriver δ φ) (R : Relaying ι ρ) (s : RelayRun δ ι ρ) : Prop :=
  ∀ row ∈ s.marked, ∃ job ∈ K.jobs s.driver, (row, job) ∈ s.stored ∧
    ∃ envelope, R.rows row.1 row.2 = some envelope ∧ storedData envelope = some job.envelope

/-- No two outboxes derive one id for one queue: no row that is delivered meets a job the driver
held from the start, and two rows of one id that are delivered to one queue are rows of one
outbox. -/
structure Apart (K : KeepingDriver δ φ) (R : Relaying ι ρ) (d₀ : δ) : Prop where
  start : ∀ relay id request jobId, R.Requests relay id request → K.takes request →
    outboxJobId id = .ok jobId → ∀ job ∈ K.jobs d₀, ¬ job.At request.queue jobId
  outboxes : ∀ relay relay' id request request', R.Requests relay id request → K.takes request →
    R.Requests relay' id request' → K.takes request' → request.queue = request'.queue →
    R.outbox relay = R.outbox relay'

/-- Everything a relay delivered in its cycle was stored. -/
def RelayState.Stored (R : Relaying ι ρ) (stored : List ((ι × String) × KeptJob)) (relay : ρ) :
    RelayState → Prop
  | .idle => True
  | .working _ delivered => ∀ id ∈ delivered, ∃ job, ((R.outbox relay, id), job) ∈ stored

/-- What was delivered or marked was stored. -/
structure BackedInv (K : KeepingDriver δ φ) (R : Relaying ι ρ) (d₀ : δ) (s : RelayRun δ ι ρ) :
    Prop where
  inv : RelayInv K R d₀ s
  delivered : ∀ relay, (s.relays relay).Stored R s.stored relay
  marked : ∀ row ∈ s.marked, ∃ job, (row, job) ∈ s.stored

omit [DecidableEq ρ]

theorem BackedInv.start : BackedInv K R d₀ (.start d₀) := by
  refine ⟨RelayInv.start, fun _ => trivial, ?_⟩
  intro row h
  cases h

/-- What was stored stays stored. -/
theorem RelayState.Stored.append {stored : List ((ι × String) × KeptJob)} {relay : ρ}
    {state : RelayState} (h : state.Stored R stored relay)
    (more : List ((ι × String) × KeptJob)) : state.Stored R (stored ++ more) relay := by
  cases state with
  | idle => trivial
  | working batch delivered =>
      intro id hid
      obtain ⟨job, hjob⟩ := h id hid
      exact ⟨job, List.mem_append_left _ hjob⟩

/-- The job a row meets under its id is its own, where the outboxes are apart. -/
theorem RelayInv.own_job (h : RelayInv K R d₀ s) (hapart : Apart K R d₀) {relay : ρ} {id : String}
    {request : EnqueueRequest} (hrequest : R.Requests relay id request) (htakes : K.takes request)
    {jobId : String} (hjobId : outboxJobId id = .ok jobId) {job : KeptJob}
    (hjob : job ∈ K.jobs s.driver) (hat : job.At request.queue jobId) :
    ∃ job, ((R.outbox relay, id), job) ∈ s.stored := by
  rw [h.jobs] at hjob
  rcases List.mem_append.1 hjob with hjob | hjob
  · exact absurd hat (hapart.start relay id request jobId hrequest htakes hjobId job hjob)
  · obtain ⟨⟨⟨o, id'⟩, stored⟩, hstored, rfl⟩ := List.mem_map.1 hjob
    obtain ⟨⟨relay', request', ho, hrequest', htakes', hqueue⟩, hderived, -⟩ :=
      h.origin _ _ hstored
    obtain ⟨hatqueue, hatid⟩ := hat
    -- one id of one queue: one row id, and so one outbox
    have hid : id' = id := outboxJobId_injective hderived (hatid ▸ hjobId)
    have hsame : request'.queue = request.queue := hqueue.symm.trans hatqueue
    have houtbox := hapart.outboxes relay' relay id request' request
      (hid ▸ hrequest') htakes' hrequest htakes hsame
    refine ⟨stored, ?_⟩
    rw [← houtbox, ho, ← hid]
    exact hstored

/-- A delivery that is answered leaves the row's own job stored. -/
theorem RelayInv.stored_of_delivered (h : RelayInv K R d₀ s) (hapart : Apart K R d₀) {relay : ρ}
    {row : ClaimedEnvelope} (hrow : R.rows (R.outbox relay) row.id = some row.envelope) {d : δ}
    (hdid : K.Delivered (R.config relay) row s.driver d (.ok none)) :
    ∃ job, ((R.outbox relay, row.id), job) ∈ s.stored ++
      ((K.jobs d).drop (K.jobs s.driver).length).map fun job =>
      ((R.outbox relay, row.id), job) := by
  cases hdid with
  | kept _ hthere =>
      obtain ⟨request, jobId, hprepared, htakes, hderived, job, hjob, hat⟩ := hthere rfl
      obtain ⟨own, hown⟩ := h.own_job hapart ⟨row.envelope, hrow, hprepared⟩ htakes
        hderived hjob hat
      exact ⟨own, List.mem_append_left _ hown⟩
  | @stored request jobId envelope _ _ _ _ hadded _ =>
      refine ⟨⟨request.queue, jobId, envelope⟩, List.mem_append_right _ ?_⟩
      rw [hadded, List.drop_left]
      exact List.mem_singleton.2 rfl

variable [DecidableEq ρ]

/-- **Where the outboxes are apart, what is delivered was stored.** -/
theorem BackedInv.step (hapart : Apart K R d₀) (h : BackedInv K R d₀ s)
    (hmove : RelayMove K R s t) :
    BackedInv K R d₀ t := by
  have hinv := h.inv.step hmove
  cases hmove with
  | claims _ =>
      refine ⟨hinv, RelayRun.forall_moves h.delivered ?_, h.marked⟩
      intro id hid
      cases hid
  | crashes => exact ⟨hinv, RelayRun.forall_moves h.delivered trivial, h.marked⟩
  | @marks relay delivered marks hworking hamong =>
      refine ⟨hinv, RelayRun.forall_moves h.delivered trivial, ?_⟩
      intro row hrow
      rcases List.mem_append.1 hrow with hrow | hrow
      · exact h.marked row hrow
      · obtain ⟨id, hid, rfl⟩ := List.mem_map.1 hrow
        have hdelivered := h.delivered relay
        rw [hworking] at hdelivered
        exact hdelivered id (hamong id hid)
  | @delivers relay row batch delivered answer d hworking hdid =>
      have hreads := h.inv.batch relay
      rw [hworking] at hreads
      have hdelivered := (h.delivered relay).append
        (((K.jobs d).drop (K.jobs s.driver).length).map fun job => ((R.outbox relay, row.id), job))
      rw [hworking] at hdelivered
      refine ⟨hinv, RelayRun.forall_moves (fun relay' => (h.delivered relay').append _) ?_, ?_⟩
      · rcases answer with error | _ | event
        · trivial
        · intro id hid
          rcases List.mem_append.1 hid with hid | hid
          · exact hdelivered id hid
          · rw [List.mem_singleton.1 hid]
            exact h.inv.stored_of_delivered hapart (hreads row List.mem_cons_self) hdid
        · exact hdelivered
      · intro row' hrow'
        obtain ⟨job, hjob⟩ := h.marked row' hrow'
        exact ⟨job, List.mem_append_left _ hjob⟩

/-- **Apart outboxes**: in every run, every mark is backed by a job of its own. -/
theorem backed_of_apart (hapart : Apart K R d₀) {steps : List (RelayStep ρ φ)}
    (h : (relayRun K R).exec (.start d₀) steps = some s) : Backed K R s := by
  have hinv : BackedInv K R d₀ s :=
    Machine.exec_invariant (fun _ _ _ hinv hstep =>
      BackedInv.step hapart hinv (relayRun_cases hstep)) h BackedInv.start
  intro row hrow
  obtain ⟨job, hjob⟩ := hinv.marked row hrow
  refine ⟨job, ?_, hjob, (hinv.inv.origin row job hjob).envelope⟩
  rw [hinv.inv.jobs]
  exact List.mem_append_right _ (List.mem_map.2 ⟨_, hjob, rfl⟩)

/-! ### One outbox -/

/-- What holds of the relays of one outbox. -/
structure OutboxContract (K : KeepingDriver δ φ) (R : Relaying ι ρ) (d₀ : δ)
    (s : RelayRun δ ι ρ) : Prop where
  /-- A row yields at most one job. -/
  once : (s.stored.map Prod.fst).Nodup
  /-- The driver holds what it held and the jobs of the rows. -/
  jobs : K.jobs s.driver = K.jobs d₀ ++ s.stored.map Prod.snd
  /-- A job carries the envelope of its row. -/
  carries : ∀ row job, (row, job) ∈ s.stored →
    ∃ envelope, R.rows row.1 row.2 = some envelope ∧ storedData envelope = some job.envelope
  /-- A row is marked once its job was stored. -/
  marked : ∀ row ∈ s.marked, ∃ job, (row, job) ∈ s.stored

omit [DecidableEq ρ] in
/-- Relays with the same definitions deliver a row to one queue. -/
theorem Relaying.Requests.same_queue {relay relay' : ρ} {id : String}
    {request request' : EnqueueRequest} (houtbox : R.outbox relay = R.outbox relay')
    (hconfig : R.config relay = R.config relay') (h : R.Requests relay id request)
    (h' : R.Requests relay' id request') : request.queue = request'.queue := by
  obtain ⟨envelope, henvelope, hprepare⟩ := h
  obtain ⟨envelope', henvelope', hprepare'⟩ := h'
  rw [houtbox, henvelope'] at henvelope
  obtain rfl := Option.some.inj henvelope
  rw [hconfig, hprepare'] at hprepare
  rw [Except.ok.inj (Option.some.inj hprepare)]

omit [DecidableEq ρ] in
/-- A row of one outbox is stored once. -/
theorem RelayInv.once (h : RelayInv K R d₀ s)
    (houtbox : ∀ relay relay', R.outbox relay = R.outbox relay')
    (hconfig : ∀ relay relay', R.config relay = R.config relay') :
    (s.stored.map Prod.fst).Nodup := by
  refine List.pairwise_map.2 ((List.pairwise_map.1 h.apart).imp_of_mem ?_)
  rintro ⟨row, job⟩ ⟨row', job'⟩ hmem hmem' hat heq
  obtain rfl : row = row' := heq
  obtain ⟨⟨relay, request, -, hrequest, -, hqueue⟩, hderived, -⟩ := h.origin _ _ hmem
  obtain ⟨⟨relay', request', -, hrequest', -, hqueue'⟩, hderived', -⟩ := h.origin _ _ hmem'
  refine hat ⟨?_, Except.ok.inj (hderived.symm.trans hderived')⟩
  rw [hqueue, hqueue']
  exact hrequest.same_queue (houtbox relay relay') (hconfig relay relay') hrequest'

end

/-- **One outbox**: over a driver that keeps its jobs, and that held none under the id of a row,
relays with the same definitions store one job for a row, under its own envelope, and mark no row
before its job was stored — in every interleaving, with crashes, failed calls and rows that are
claimed again. -/
theorem outbox_contract {K : KeepingDriver δ φ} {R : Relaying Unit ρ} {d₀ : δ}
    {s : RelayRun δ Unit ρ} (hconfig : ∀ relay relay', R.config relay = R.config relay')
    (hfresh : ∀ job ∈ K.jobs d₀, ∀ rowId, job.id ≠ "outbox-" ++ rowId)
    {steps : List (RelayStep ρ φ)} (h : (relayRun K R).exec (.start d₀) steps = some s) :
    OutboxContract K R d₀ s := by
  have hapart : Apart K R d₀ := by
    refine ⟨?_, fun _ _ _ _ _ _ _ _ _ _ => rfl⟩
    intro relay id request jobId _ _ hjobId job hjob hat
    exact hfresh job hjob id (hat.2.trans (outboxJobId_eq_ok hjobId))
  have hinv := relayRun_inv h
  refine ⟨hinv.once (fun _ _ => rfl) hconfig, hinv.jobs, ?_, ?_⟩
  · exact fun row job hmem => (hinv.origin row job hmem).envelope
  · intro row hrow
    obtain ⟨job, -, hjob, -⟩ := backed_of_apart hapart h row hrow
    exact ⟨job, hjob⟩

/-! ### Several outboxes -/

section

variable {K : AnsweringDriver δ φ} {R : Relaying ι ρ} {d₀ : δ} {s : RelayRun δ ι ρ}

/-- A whole cycle over one row. -/
def cycleOver (relay : ρ) (id : String) (fate : φ) : List (RelayStep ρ φ) :=
  [.claim relay [id], .deliver relay fate, .mark relay [id]]

/-- What a cycle over one row leaves behind, when the driver answers. -/
structure Cycled (K : AnsweringDriver δ φ) (R : Relaying ι ρ) (relay : ρ) (id : String)
    (request : EnqueueRequest) (s t : RelayRun δ ι ρ) : Prop where
  driver : t.driver = (K.enqueue K.reliable s.driver request).2
  answered : ∃ answer, (K.enqueue K.reliable s.driver request).1 = .ok answer
  idle : ∀ relay', s.relays relay' = .idle → t.relays relay' = .idle
  stored : t.stored = s.stored ++
    ((K.jobs t.driver).drop (K.jobs s.driver).length).map fun job => ((R.outbox relay, id), job)
  marked : (R.outbox relay, id) ∈ t.marked

theorem exec_cycle {relay : ρ} {id : String} {request : EnqueueRequest}
    (hidle : s.relays relay = .idle) (hrequest : R.Requests relay id request)
    (htakes : K.takes request) : ∃ t, (relayRun K.toKeepingDriver R).exec s
      (cycleOver relay id K.reliable) = some t ∧ Cycled K R relay id request s t := by
  obtain ⟨envelope, hrow, hprepare⟩ := hrequest
  obtain ⟨henvelope, -⟩ := prepare_eq_ok hprepare
  obtain ⟨answer, hanswer⟩ := K.answers s.driver request htakes
    (henvelope ▸ R.storable _ _ _ hrow)
  have hdeliver : deliver (K.enqueue K.reliable) (R.config relay) ⟨id, envelope⟩ s.driver =
      some (.ok none, (K.enqueue K.reliable s.driver request).2) := by
    rcases hcall : K.enqueue K.reliable s.driver request with ⟨result, d⟩
    rw [hcall] at hanswer
    obtain rfl : result = .ok answer := hanswer
    simp only [deliver, hprepare, hcall, Option.map_some]
  let d := (K.enqueue K.reliable s.driver request).2
  let s₁ := s.moves relay (.working [⟨id, envelope⟩] [])
  let s₂ : RelayRun δ ι ρ := { s₁.moves relay (.working [] [id]) with
    driver := d
    stored := s.stored ++ ((K.jobs d).drop (K.jobs s.driver).length).map fun job =>
      ((R.outbox relay, id), job) }
  let s₃ : RelayRun δ ι ρ := { s₂.moves relay .idle with
    marked := s.marked ++ [(R.outbox relay, id)] }
  have hclaim : relayRun K.toKeepingDriver R s (.claim relay [id]) = some s₁ := by
    simp only [relayRun, hidle]
    simp [Relaying.claim, hrow, s₁]
  have hworking : s₁.relays relay = .working [⟨id, envelope⟩] [] := Function.update_self _ _ _
  have hdelivered : relayRun K.toKeepingDriver R s₁ (.deliver relay K.reliable) = some s₂ := by
    simp only [relayRun, hworking]
    rw [show s₁.driver = s.driver from rfl, hdeliver]
    rfl
  have hdone : s₂.relays relay = .working [] [id] := Function.update_self _ _ _
  have hmark : relayRun K.toKeepingDriver R s₂ (.mark relay [id]) = some s₃ := by
    simp only [relayRun, hdone]
    rw [if_pos fun _ h => h]
    rfl
  refine ⟨s₃, Machine.exec_cons_iff.2 ⟨s₁, hclaim, Machine.exec_cons_iff.2 ⟨s₂, hdelivered,
    Machine.exec_singleton.2 hmark⟩⟩, rfl, ⟨answer, hanswer⟩, ?_, rfl, ?_⟩
  · intro relay' hidle'
    show Function.update s₂.relays relay .idle relay' = .idle
    by_cases heq : relay' = relay
    · rw [heq, Function.update_self]
    · rw [Function.update_of_ne heq]
      show Function.update s₁.relays relay _ relay' = .idle
      rw [Function.update_of_ne heq]
      show Function.update s.relays relay _ relay' = .idle
      rw [Function.update_of_ne heq, hidle']
  · exact List.mem_append_right _ (List.mem_singleton.2 rfl)

omit [DecidableEq ρ] in
/-- What stands under an id is given back, and nothing is stored beside it. -/
theorem KeepingDriver.jobs_of_there {K : KeepingDriver δ φ} {fate : φ} {d : δ}
    {request : EnqueueRequest} {id : String} (hid : request.jobId = some id) (hne : id ≠ "")
    {job : KeptJob} (hjob : job ∈ K.jobs d) (hat : job.At request.queue id) :
    K.jobs (K.enqueue fate d request).2 = K.jobs d := by
  rcases K.keeps fate d request id hid hne with ⟨hsame, -⟩ | ⟨-, _, -, -, hnew⟩
  · exact hsame
  · exact absurd hat (hnew job hjob)

omit [DecidableEq ρ] in
/-- A call that is answered leaves a job under its id. -/
theorem KeepingDriver.there_of_answered {K : KeepingDriver δ φ} {fate : φ} {d : δ}
    {request : EnqueueRequest} {id answer : String} (hid : request.jobId = some id) (hne : id ≠ "")
    (hanswer : (K.enqueue fate d request).1 = .ok answer) :
    ∃ job ∈ K.jobs (K.enqueue fate d request).2, job.At request.queue id := by
  rcases K.keeps fate d request id hid hne with ⟨hsame, hthere⟩ | ⟨-, envelope, -, hadded, -⟩
  · rw [hsame]
    exact (hthere answer hanswer).2
  · refine ⟨⟨request.queue, id, envelope⟩, ?_, rfl, rfl⟩
    rw [hadded]
    exact List.mem_append_right _ (List.mem_singleton.2 rfl)

section

variable {relay : ρ} {id jobId : String} {request : EnqueueRequest} {t : RelayRun δ ι ρ}

omit [DecidableEq ρ]

/-- A cycle over a row whose id is taken stores nothing. -/
theorem Cycled.stored_of_there (h : Cycled K R relay id request s t)
    (hid : request.jobId = some jobId) (hne : jobId ≠ "") {job : KeptJob}
    (hjob : job ∈ K.jobs s.driver) (hat : job.At request.queue jobId) : t.stored = s.stored := by
  have hsame : K.jobs t.driver = K.jobs s.driver := by
    rw [h.driver]
    exact KeepingDriver.jobs_of_there hid hne hjob hat
  rw [h.stored, hsame, List.drop_length, List.map_nil, List.append_nil]

/-- After a cycle over a row, a job stands under its id. -/
theorem Cycled.there (h : Cycled K R relay id request s t) (hid : request.jobId = some jobId)
    (hne : jobId ≠ "") : ∃ job ∈ K.jobs t.driver, job.At request.queue jobId := by
  obtain ⟨answer, hanswer⟩ := h.answered
  rw [h.driver]
  exact KeepingDriver.there_of_answered hid hne hanswer

/-- A request carries the id that is derived from its row. -/
theorem Relaying.Requests.carries (h : R.Requests relay id request)
    (hid : outboxJobId id = .ok jobId) :
    request.jobId = some jobId := by
  obtain ⟨envelope, -, hprepare⟩ := h
  obtain ⟨-, derived, hjobId, hderived⟩ := prepare_eq_ok hprepare
  rw [hjobId, Except.ok.inj (hid.symm.trans hderived)]

theorem Relaying.Requests.derived (h : R.Requests relay id request) :
    ∃ jobId, outboxJobId id = .ok jobId := by
  obtain ⟨envelope, -, hprepare⟩ := h
  obtain ⟨-, jobId, -, hderived⟩ := prepare_eq_ok hprepare
  exact ⟨jobId, hderived⟩

end

/-- **Every mark is backed by a job of its own exactly when the outboxes are apart.** -/
theorem marks_backed_iff (K : AnsweringDriver δ φ) (R : Relaying ι ρ) (d₀ : δ) :
    (∀ steps s, (relayRun K.toKeepingDriver R).exec (.start d₀) steps = some s →
      Backed K.toKeepingDriver R s) ↔ Apart K.toKeepingDriver R d₀ := by
  constructor
  · intro hbacked
    constructor
    · intro relay id request jobId hrequest htakes hderived job hjob hat
      obtain ⟨t, ht, hcycled⟩ := exec_cycle (s := .start d₀) rfl hrequest htakes
      obtain ⟨own, -, hown, -⟩ := hbacked _ t ht _ hcycled.marked
      -- the cycle stored nothing, and the row is marked
      rw [hcycled.stored_of_there (hrequest.carries hderived)
        (ne_empty_of_outboxJobId hderived) hjob
        hat] at hown
      cases hown
    · intro relay relay' id request request' hrequest htakes hrequest' htakes' hqueue
      obtain ⟨jobId, hderived⟩ := hrequest.derived
      have hne := ne_empty_of_outboxJobId hderived
      obtain ⟨t, ht, hcycled⟩ := exec_cycle (s := .start d₀) rfl hrequest htakes
      obtain ⟨u, hu, hcycled'⟩ := exec_cycle (hcycled.idle relay' rfl) hrequest' htakes'
      obtain ⟨own, -, hown, -⟩ := hbacked _ u (Machine.exec_append_iff.2 ⟨t, ht, hu⟩) _
        hcycled'.marked
      -- the second row meets the job of the first, so all that is stored is the first row's
      obtain ⟨job, hjob, hat⟩ := hcycled.there (hrequest.carries hderived) hne
      rw [hcycled'.stored_of_there (hrequest'.carries hderived) hne hjob (hqueue ▸ hat),
        hcycled.stored] at hown
      obtain ⟨_, -, heq⟩ := List.mem_map.1 hown
      exact congrArg (fun p => p.1.1) heq
  · intro hapart steps s h
    exact backed_of_apart hapart h

end

end

/-! ### The memory driver keeps its jobs -/

/-- How a call on a driver behind a connection fares: it is answered, or its answer is lost before
or after it took effect. -/
inductive Fate where
  | answered
  | lostBefore
  | lostAfter

/-- What the caller of a lost call is told. -/
def lostError : Thrown := plainError "Connection is closed." none

namespace MemoryDriver

/-- The jobs the driver keeps. -/
def kept (m : MemoryDriver) : List KeptJob :=
  m.recorded.map fun ref => ⟨(m.jobs ref).queue, (m.jobs ref).id, (m.jobs ref).envelope⟩

/-- The driver after an enqueue, whether or not it was refused. -/
def afterEnqueue (m : MemoryDriver) (request : EnqueueRequest) : MemoryDriver :=
  (m.actEnqueue request).1

/-- A job that is recorded is kept behind the others. -/
theorem kept_record {m : MemoryDriver} (hline : LineInv m) (job : MemoryJob) :
    (m.record job).kept = m.kept ++ [⟨job.queue, job.id, job.envelope⟩] := by
  have hold : ∀ ref ∈ m.recorded, (m.record job).jobs ref = m.jobs ref := fun ref href =>
    Function.update_of_ne (Nat.ne_of_lt (hline.made ref href)) _ _
  have hnew : (m.record job).jobs m.made = job := Function.update_self _ _ _
  rw [kept, show (m.record job).recorded = m.recorded ++ [m.made] from rfl, List.map_append,
    List.map_singleton, hnew, kept]
  congr 1
  refine List.map_congr_left ?_
  intro ref href
  rw [hold ref href]

/-- What an enqueue under a derived id does to the jobs that are kept. -/
theorem kept_enqueue {m : MemoryDriver} (hline : LineInv m) {request : EnqueueRequest} {id : String}
    (hid : request.jobId = some id) (hne : id ≠ "") :
    ((m.afterEnqueue request).kept = m.kept ∧ ∀ p, m.enqueue request = .ok p →
      (∀ key ∈ request.delivery.keys, key ∈ acceptedDelivery) ∧
        ∃ job ∈ m.kept, job.At request.queue id) ∨
    ((∀ key ∈ request.delivery.keys, key ∈ acceptedDelivery) ∧
      ∃ envelope, storedData request.envelope = some envelope ∧
        (m.afterEnqueue request).kept = m.kept ++ [⟨request.queue, id, envelope⟩] ∧
        ∀ job ∈ m.kept, ¬ job.At request.queue id) := by
  have halready : m.already request = m.jobAt request.queue id := by simp [already, hid, hne]
  unfold afterEnqueue actEnqueue enqueue
  cases hrejected : request.delivery.keys.find? fun key => key ∉ acceptedDelivery with
  | some rejected => exact .inl ⟨rfl, fun p h => by cases h⟩
  | none =>
      have haccepted : ∀ key ∈ request.delivery.keys, key ∈ acceptedDelivery := by
        simpa using hrejected
      cases hfound : m.jobAt request.queue id with
      | some ref =>
          rw [halready, hfound]
          obtain ⟨hrecorded, hat⟩ := jobAt_eq_some hfound
          exact .inl ⟨rfl, fun _ _ => ⟨haccepted, _, List.mem_map.2 ⟨ref, hrecorded, rfl⟩, hat⟩⟩
      | none =>
          rw [halready, hfound]
          cases hstored : storedData request.envelope with
          | none => exact .inl ⟨rfl, fun p h => by cases h⟩
          | some envelope =>
              refine .inr ⟨haccepted, envelope, rfl, ?_, ?_⟩
              · have hfresh : m.freshId request = id := by simp [freshId, hid, hne]
                rw [← hfresh]
                exact kept_record hline (m.newJob request envelope)
              · intro job hjob hat
                obtain ⟨ref, href, rfl⟩ := List.mem_map.1 hjob
                have hmiss := List.find?_eq_none.1 hfound ref href
                exact hmiss (by simpa [KeptJob.At] using hat)

/-- The arrays stay in step over an enqueue. -/
theorem line_afterEnqueue {m : MemoryDriver} (hline : LineInv m) (request : EnqueueRequest) :
    LineInv (m.afterEnqueue request) := hline.step (step_enqueue request)

end MemoryDriver

/-- **The memory driver keeps its jobs**, behind a connection too: it stores under a derived id, or
gives back the job that is there. -/
def memoryKeeper : AnsweringDriver {m : MemoryDriver // LineInv m} Fate where
  jobs d := d.1.kept
  takes request := ∀ key ∈ request.delivery.keys, key ∈ acceptedDelivery
  enqueue fate d request :=
    let after : {m : MemoryDriver // LineInv m} :=
      ⟨d.1.afterEnqueue request, MemoryDriver.line_afterEnqueue d.2 request⟩
    match fate with
    | .answered => ((d.1.enqueue request).map fun p => (p.2.jobs p.1).id, after)
    | .lostBefore => (.error lostError, d)
    | .lostAfter => (.error lostError, after)
  keeps fate d request id hid hne := by
    have hkept := MemoryDriver.kept_enqueue d.2 hid hne
    cases fate with
    | answered =>
        refine hkept.imp_left ?_
        rintro ⟨hsame, hthere⟩
        refine ⟨hsame, fun answer hanswer => ?_⟩
        cases henqueue : d.1.enqueue request with
        | error error => simp [henqueue, Except.map] at hanswer
        | ok p => exact hthere p henqueue
    | lostBefore => exact .inl ⟨rfl, fun _ h => by cases h⟩
    | lostAfter => exact hkept.imp_left fun h => ⟨h.1, fun _ h => by cases h⟩
  reliable := .answered
  answers d request htakes hstorable := by
    obtain ⟨envelope, hstored⟩ := Option.isSome_iff_exists.1 hstorable
    have hrejected : (request.delivery.keys.find? fun key => key ∉ acceptedDelivery) = none := by
      simpa using htakes
    cases halready : d.1.already request with
    | some ref => exact ⟨_, by simp only [MemoryDriver.enqueue, hrejected, halready]; rfl⟩
    | none => exact ⟨_, by simp only [MemoryDriver.enqueue, hrejected, halready, hstored]; rfl⟩

/-! ### Relays over a memory driver -/

/-- The envelope of a row that runs a line. -/
def rowEnvelope (text : String) : Envelope := writeEnvelope lineJob (.str text) .relay

/-- The request of the row `1` that carries a text. -/
def rowRequest (text : String) : EnqueueRequest :=
  ⟨"mail", rowEnvelope text, deliveryDefaults, some "outbox-1"⟩

theorem outboxJobId_one : outboxJobId "1" = .ok "outbox-1" := by
  have hcolon : ':' ∉ "1".toList := by decide
  rw [outboxJobId, if_neg (by decide), if_neg hcolon]
  rfl

theorem prepare_row (text : String) :
    prepare ⟨some [lineJob]⟩ ⟨"1", rowEnvelope text⟩ = some (.ok (rowRequest text)) := by
  have hmigrate : migrateEnvelope lineJob (rowEnvelope text) = some (.ok (.str text)) :=
    migrateEnvelope_current (d := 1) rfl rfl
  have hdefinition : definitionOf ⟨some [lineJob]⟩ ⟨"1", rowEnvelope text⟩ = .ok lineJob := rfl
  have hpayload : validatePayload lineJob (.str text) = .ok (.str text) := rfl
  have hdelivery : resolveDeliveryWithoutUniqueness lineJob (.str text) = .ok deliveryDefaults :=
    rfl
  rw [prepare, hdefinition]
  refine Option.map_eq_some_iff.2 ⟨_, hmigrate, ?_⟩
  change requestOf _ _ _ = _
  refine bind_eq_ok.2 ⟨.str text, hpayload, bind_eq_ok.2 ⟨deliveryDefaults, hdelivery, ?_⟩⟩
  exact bind_eq_ok.2 ⟨"outbox-1", outboxJobId_one, rfl⟩

/-- Two relays over rows `1`, one for each outbox. -/
def rowsNumberedOne (ι ρ : Type) (outbox : ρ → ι) (text : ι → String) : Relaying ι ρ where
  rows o id := if id = "1" then some (rowEnvelope (text o)) else none
  outbox := outbox
  config _ := ⟨some [lineJob]⟩
  storable := by
    intro o id envelope h
    split_ifs at h
    obtain rfl := Option.some.inj h
    rfl

theorem requests_row {ι ρ : Type} {outbox : ρ → ι} {text : ι → String} (relay : ρ) :
    (rowsNumberedOne ι ρ outbox text).Requests relay "1" (rowRequest (text (outbox relay))) :=
  ⟨rowEnvelope (text (outbox relay)), rfl, prepare_row _⟩

theorem takes_row (text : String) : memoryKeeper.takes (rowRequest text) := by
  show ∀ key ∈ deliveryDefaults.keys, key ∈ acceptedDelivery
  decide

/-- A memory driver nothing was enqueued on. -/
def emptyKeeper : {m : MemoryDriver // LineInv m} := ⟨memoryDriver, LineInv.start⟩

/-- Two relays of one outbox. -/
def oneOutbox : Relaying Unit Bool := rowsNumberedOne Unit Bool (fun _ => ()) fun _ => "first"

/-- Two relays of an outbox each. -/
def twoOutboxes : Relaying Bool Bool := rowsNumberedOne Bool Bool id (cond · "first" "second")

/-- Two relays of one outbox both deliver and mark a row. -/
theorem outbox_contract_example : ∃ s,
    (relayRun memoryKeeper.toKeepingDriver oneOutbox).exec (.start emptyKeeper)
      (cycleOver false "1" Fate.answered ++ cycleOver true "1" Fate.answered) = some s ∧
    OutboxContract memoryKeeper.toKeepingDriver oneOutbox emptyKeeper s := by
  have hrequests : ∀ relay, oneOutbox.Requests relay "1" (rowRequest "first") := fun relay =>
    requests_row relay
  obtain ⟨t, ht, hcycled⟩ := exec_cycle (K := memoryKeeper) (s := .start emptyKeeper) rfl
    (hrequests false) (takes_row "first")
  obtain ⟨u, hu, -⟩ := exec_cycle (hcycled.idle true rfl) (hrequests true) (takes_row "first")
  have hrun := Machine.exec_append_iff.2 ⟨t, ht, hu⟩
  exact ⟨u, hrun, outbox_contract (fun _ _ => rfl) (fun job hjob => by cases hjob) hrun⟩

/-- **A mark nothing was stored for**: the rows `1` of two outboxes are delivered to one queue, and
the second row is marked though only the job of the first was stored. -/
theorem marks_unbacked : ∃ s,
    (relayRun memoryKeeper.toKeepingDriver twoOutboxes).exec (.start emptyKeeper)
      (cycleOver true "1" Fate.answered ++ cycleOver false "1" Fate.answered) = some s ∧
    (false, "1") ∈ s.marked ∧ ∀ job, ((false, "1"), job) ∉ s.stored := by
  have hfirst : twoOutboxes.Requests true "1" (rowRequest "first") := requests_row true
  have hsecond : twoOutboxes.Requests false "1" (rowRequest "second") := requests_row false
  have hid := outboxJobId_one
  have hne : "outbox-1" ≠ "" := by decide
  obtain ⟨t, ht, hcycled⟩ := exec_cycle (K := memoryKeeper) (s := .start emptyKeeper) rfl hfirst
    (takes_row "first")
  obtain ⟨u, hu, hcycled'⟩ := exec_cycle (hcycled.idle false rfl) hsecond (takes_row "second")
  refine ⟨u, Machine.exec_append_iff.2 ⟨t, ht, hu⟩, hcycled'.marked, ?_⟩
  obtain ⟨job, hjob, hat⟩ := hcycled.there (hfirst.carries hid) hne
  intro own hown
  rw [hcycled'.stored_of_there (hsecond.carries hid) hne hjob hat, hcycled.stored] at hown
  obtain ⟨_, -, heq⟩ := List.mem_map.1 hown
  have houtbox : true = false := congrArg (fun p => p.1.1) heq
  cases houtbox

end Jubs
