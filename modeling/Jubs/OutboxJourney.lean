/-
**From an atomic block to the driver.**

A client opens blocks with a transaction, each of them saves what it held in one call, and the
transaction of a call is committed or rolled back.  A commit puts one row for each envelope into the
table, under an id of its own.  Loops of relays read the table while it grows, and hand its rows to
the driver.  What the driver stores is then told from what the blocks held, whatever order the
client, the database, the relays and the driver take their steps in.

Main definitions:

* `Jubs.OutboxColumn`, `Jubs.TableRow` — what a table gives back of an envelope, and its rows;
* `Jubs.Journey`, `Jubs.journeyRun` — client, table, relays and driver as one machine;
* `Jubs.Stems` — the enqueue a row was written for;
* `Jubs.JourneyContract` — what is promised from end to end.

Main results:

* `Jubs.relayRun_grows` — relays do not mind rows that are added to their tables;
* `Jubs.journeyInv` — the invariant of the journey, in every run;
* `Jubs.journey_contract` — **what is stored stems from committed blocks, each enqueue once**.
-/

import Jubs.AtomicRuns
import Jubs.RelayLoops

set_option autoImplicit false

namespace Jubs

/-! ### Tables -/

/-- A column of a table, which gives back what was stored of an envelope: it can be stored again,
and then comes to what storing the envelope itself comes to.  Not every envelope can be inserted. -/
structure OutboxColumn where
  back : Envelope → Option {envelope : Envelope // (storedData envelope).isSome = true}
  projects : ∀ envelope read, back envelope = some read → storedData read.1 = storedData envelope

/-- A row, with the call of `save` it was inserted by and its place among the envelopes of that
call. -/
structure TableRow where
  id : String
  call : ℕ
  place : ℕ
  envelope : {envelope : Envelope // (storedData envelope).isSome = true}

/-- The rows a call of `save` inserts, from a place on, under the ids the table gives them. -/
def insertRows (column : OutboxColumn) (call : ℕ) :
    ℕ → List String → List Envelope → Option (List TableRow)
  | _, [], [] => some []
  | place, id :: ids, envelope :: envelopes => do
      let read ← column.back envelope
      let rows ← insertRows column call (place + 1) ids envelopes
      return ⟨id, call, place, read⟩ :: rows
  | _, _, _ => none

/-- What the relays read of a table. -/
def tableRelaying {ρ : Type} (config : ρ → RelayConfig) (table : List TableRow) :
    Relaying Unit ρ where
  rows _ id := (table.find? fun row => row.id = id).map fun row => row.envelope.1
  outbox _ := ()
  config := config
  storable := by
    intro _ id envelope h
    obtain ⟨row, -, rfl⟩ := Option.map_eq_some_iff.1 h
    exact row.envelope.2

/-! ### The machine -/

/-- What became of the transaction a call of `save` was made in. -/
inductive SaveFate where
  | pending
  | committed
  | undone
deriving DecidableEq

/-- The client and its blocks, what became of each call of `save`, the table, and the relays over
their driver. -/
structure Journey (δ ρ : Type) where
  client : AtomicState
  fates : ℕ → SaveFate
  table : List TableRow
  relays : RelayLoops δ Unit ρ

/-- One step of the client, of the database, or of the relays. -/
inductive JourneyStep (ρ φ : Type) where
  | client (act : AtomicAct)
  | commit (call : ℕ) (ids : List String)
  | rollback (call : ℕ)
  | relays (step : LoopsStep ρ φ)

section

variable {δ φ ρ : Type} [DecidableEq ρ]

/-- **From the blocks of a client to the driver.**  A commit inserts every envelope of its call,
under ids that are new, or does not happen. -/
def journeyRun (K : KeepingDriver δ φ) (column : OutboxColumn) (config : ρ → RelayConfig)
    (hooked : ρ → Bool) : Machine (Journey δ ρ) (JourneyStep ρ φ) := fun s step =>
  match step with
  | .client act => (atomicRun true s.client act).map fun client => { s with client := client }
  | .commit call ids =>
      s.client.saves[call]?.bind fun save =>
        (insertRows column call 0 ids save.envelopes).bind fun rows =>
          if s.fates call = .pending ∧ ids.Nodup ∧ ∀ id ∈ ids, id ∉ s.table.map TableRow.id then
            some { s with
              fates := Function.update s.fates call .committed
              table := s.table ++ rows }
          else none
  | .rollback call =>
      s.client.saves[call]?.bind fun _ =>
        if s.fates call = .pending then
          some { s with fates := Function.update s.fates call .undone }
        else none
  | .relays step =>
      (loopsRun K (tableRelaying config s.table) hooked s.relays step).map fun relays =>
        { s with relays := relays }

/-- Nothing was enqueued, and no process runs a loop. -/
def Journey.start (d : δ) : Journey δ ρ := ⟨.init, fun _ => .pending, [], .start d⟩

end

/-! ### Rows that are inserted -/

section

variable {column : OutboxColumn} {call place : ℕ} {ids : List String} {envelopes : List Envelope}
variable {rows : List TableRow}

theorem insertRows_cons {id : String} {envelope : Envelope} {ids : List String}
    {envelopes : List Envelope} {rows : List TableRow}
    (h : insertRows column call place (id :: ids) (envelope :: envelopes) = some rows) :
    ∃ read rest, column.back envelope = some read ∧
      insertRows column call (place + 1) ids envelopes = some rest ∧
      rows = ⟨id, call, place, read⟩ :: rest := by
  obtain ⟨read, hread, h⟩ := Option.bind_eq_some_iff.1 h
  obtain ⟨rest, hrest, h⟩ := Option.bind_eq_some_iff.1 h
  exact ⟨read, rest, hread, hrest, (Option.some.inj h).symm⟩

/-- The rows carry the ids they were given, and stand at the places of their envelopes. -/
theorem insertRows_spec (h : insertRows column call place ids envelopes = some rows) :
    rows.map TableRow.id = ids ∧ (∀ row ∈ rows, row.call = call) ∧
      rows.map TableRow.place = List.range' place envelopes.length := by
  induction envelopes generalizing place ids rows with
  | nil =>
      cases ids with
      | nil =>
          obtain rfl := Option.some.inj h
          exact ⟨rfl, List.forall_mem_nil _, rfl⟩
      | cons id ids => cases h
  | cons envelope envelopes ih =>
      cases ids with
      | nil => cases h
      | cons id ids =>
          obtain ⟨read, rest, -, hrest, rfl⟩ := insertRows_cons h
          obtain ⟨hids, hcalls, hplaces⟩ := ih hrest
          refine ⟨by rw [List.map_cons, hids], List.forall_mem_cons.2 ⟨rfl, hcalls⟩, ?_⟩
          rw [List.map_cons, hplaces]
          rfl

/-- Each row was inserted for the envelope at its place. -/
theorem envelope_of_insertRows (h : insertRows column call place ids envelopes = some rows)
    {row : TableRow} (hrow : row ∈ rows) : ∃ k envelope, row.place = place + k ∧
      envelopes[k]? = some envelope ∧ column.back envelope = some row.envelope := by
  induction envelopes generalizing place ids rows with
  | nil =>
      cases ids with
      | nil =>
          obtain rfl := Option.some.inj h
          cases hrow
      | cons id ids => cases h
  | cons envelope envelopes ih =>
      cases ids with
      | nil => cases h
      | cons id ids =>
          obtain ⟨read, rest, hread, hrest, rfl⟩ := insertRows_cons h
          rcases List.mem_cons.1 hrow with rfl | hrow
          · exact ⟨0, envelope, rfl, rfl, hread⟩
          · obtain ⟨k, envelope', hplace, hk, hback⟩ := ih hrest hrow
            exact ⟨k + 1, envelope', by omega, hk, hback⟩

end

/-! ### Rows that are added under the relays -/

section

variable {δ φ ι ρ : Type} [DecidableEq ρ]

/-- Outboxes with more rows, read by the same relays. -/
structure Grows (R R' : Relaying ι ρ) : Prop where
  rows : ∀ o id envelope, R.rows o id = some envelope → R'.rows o id = some envelope
  outbox : R'.outbox = R.outbox
  config : R'.config = R.config

omit [DecidableEq ρ] in
theorem Grows.claim {R R' : Relaying ι ρ} (h : Grows R R') {relay : ρ} {ids : List String}
    {batch : List ClaimedEnvelope} (hclaim : R.claim relay ids = some batch) :
    R'.claim relay ids = some batch := by
  induction ids generalizing batch with
  | nil => exact hclaim
  | cons id ids ih =>
      rw [Relaying.claim, List.mapM_cons] at hclaim ⊢
      obtain ⟨row, hrow, hclaim⟩ := Option.bind_eq_some_iff.1 hclaim
      obtain ⟨rest, hrest, hclaim⟩ := Option.bind_eq_some_iff.1 hclaim
      obtain ⟨envelope, henvelope, rfl⟩ := Option.map_eq_some_iff.1 hrow
      refine Option.bind_eq_some_iff.2
        ⟨⟨id, envelope⟩, ?_, Option.bind_eq_some_iff.2 ⟨rest, ih hrest, hclaim⟩⟩
      rw [h.outbox, h.rows _ _ _ henvelope]
      rfl

/-- **Relays do not mind rows that are added**: a run over some tables is a run over larger ones. -/
theorem relayRun_grows {K : KeepingDriver δ φ} {R R' : Relaying ι ρ} (h : Grows R R')
    {s t : RelayRun δ ι ρ} {steps : List (RelayStep ρ φ)}
    (hrun : (relayRun K R).exec s steps = some t) : (relayRun K R').exec s steps = some t := by
  refine Machine.exec_mono ?_ hrun
  intro s step t hstep
  cases step with
  | claim relay ids =>
      simp only [relayRun] at hstep ⊢
      split at hstep
      · obtain ⟨batch, hbatch, rfl⟩ := Option.map_eq_some_iff.1 hstep
        simp only [h.claim hbatch, Option.map_some]
      · cases hstep
  | deliver relay fate =>
      simp only [relayRun, h.outbox, h.config] at hstep ⊢
      exact hstep
  | mark relay marks =>
      simp only [relayRun, h.outbox] at hstep ⊢
      exact hstep
  | crash relay => exact hstep

omit [DecidableEq ρ] in
theorem grows_append {config : ρ → RelayConfig} (table rows : List TableRow) :
    Grows (tableRelaying config table) (tableRelaying config (table ++ rows)) := by
  refine ⟨?_, rfl, rfl⟩
  intro _ id envelope h
  obtain ⟨row, hrow, rfl⟩ := Option.map_eq_some_iff.1 h
  show ((table ++ rows).find? _).map _ = _
  rw [List.find?_append, hrow]
  rfl

/-! ### Calls of `save` -/

omit [DecidableEq ρ] in
/-- A step of the client leaves the calls of `save` that were made, and may make more. -/
theorem saves_grow {outbox : Bool} {s t : AtomicState} {act : AtomicAct} (hinv : AtomicInv s)
    (h : atomicRun outbox s act = some t) : ∃ more, t.saves = s.saves ++ more := by
  have hsame : ∀ {t : AtomicState}, t.saves = s.saves → ∃ more, t.saves = s.saves ++ more :=
    fun hsaves => ⟨[], hsaves.trans (List.append_nil _).symm⟩
  cases act with
  | enqueue c definition data awaits =>
      obtain ⟨tag, htag, rfl⟩ := Option.map_eq_some_iff.1 h
      split
      · rename_i job _
        have hscopes : ∀ n, tag = some n → n < s.scopes.length := by
          rintro n rfl
          exact hinv.tags n (List.mem_of_getElem? htag)
        rcases @arrive_cases s ⟨s.next, c, tag, job⟩ hscopes with
          ⟨-, harrive⟩ | ⟨error, harrive⟩ | ⟨n, scope, scope', -, -, -, -, harrive⟩
        -- outside any block, refused, or held by a block: nothing is saved yet in any of them
        · exact hsame (by rw [harrive])
        · exact hsame (by rw [harrive])
        · exact hsame (by rw [harrive]; rfl)
      · exact hsame rfl
  | atomic c tx =>
      obtain ⟨tag, -, rfl⟩ := Option.map_eq_some_iff.1 h
      split
      · rename_i t ht
        refine hsame ?_
        unfold atomic runAtomicBlock at ht
        split_ifs at ht <;> cases ht <;> rfl
      · exact hsame rfl
  | spawn c =>
      obtain ⟨tag, -, rfl⟩ := Option.map_eq_some_iff.1 h
      exact hsame rfl
  | outside c =>
      obtain ⟨tag, -, rfl⟩ := Option.map_eq_some_iff.1 h
      exact hsame rfl
  | resolve n =>
      obtain ⟨scope, -, h⟩ := Option.bind_eq_some_iff.1 h
      split at h
      · obtain rfl := Option.some.inj h
        unfold settleBlock
        split
        · exact hsame rfl
        · split_ifs
          · exact hsame rfl
          -- the function of a block with a `tx` resolved: the one branch that calls `save`
          · exact ⟨_, rfl⟩
      · cases h
  | throws n error =>
      obtain ⟨scope, -, h⟩ := Option.bind_eq_some_iff.1 h
      split at h
      · obtain rfl := Option.some.inj h
        exact hsame rfl
      · cases h
  | deliver n =>
      obtain ⟨scope, -, h⟩ := Option.bind_eq_some_iff.1 h
      unfold deliverNext at h
      split at h
      · split at h <;> cases h <;> exact hsame rfl
      · cases h
  | answer n outcome =>
      obtain ⟨scope, -, h⟩ := Option.bind_eq_some_iff.1 h
      unfold settleCall at h
      split at h <;> first | cases h; exact hsame rfl | cases h

/-! ### What holds at every moment -/

variable {K : KeepingDriver δ φ} {column : OutboxColumn} {config : ρ → RelayConfig}
variable {hooked : ρ → Bool} {d₀ : δ} {s t : Journey δ ρ}

/-- A row was inserted by a call of `save` whose transaction was committed, for the envelope at its
place. -/
def Inserted (column : OutboxColumn) (s : Journey δ ρ) (row : TableRow) : Prop :=
  s.fates row.call = .committed ∧ ∃ save envelope, s.client.saves[row.call]? = some save ∧
    save.envelopes[row.place]? = some envelope ∧ column.back envelope = some row.envelope

/-- **The invariant of the journey**: the client keeps the contract of its blocks, the table holds
what committed calls saved, each envelope once and none left out, and the relays have gone the way
relays go over the table as it is. -/
structure JourneyInv (K : KeepingDriver δ φ) (column : OutboxColumn) (config : ρ → RelayConfig)
    (d₀ : δ) (s : Journey δ ρ) : Prop where
  client : AtomicInv s.client
  pending : ∀ call, s.client.saves.length ≤ call → s.fates call = .pending
  ids : (s.table.map TableRow.id).Nodup
  places : (s.table.map fun row => (row.call, row.place)).Nodup
  rows : ∀ row ∈ s.table, Inserted column s row
  whole : ∀ call save, s.fates call = .committed → s.client.saves[call]? = some save →
    ∀ place envelope, save.envelopes[place]? = some envelope →
      ∃ row ∈ s.table, row.call = call ∧ row.place = place
  relays : ∃ steps u, (relayRun K (tableRelaying config s.table)).exec (.start d₀) steps = some u ∧
    Follows s.relays u

theorem JourneyInv.start : JourneyInv K column config d₀ (Journey.start d₀) := by
  refine ⟨atomicInv_init, fun _ _ => rfl, .nil, .nil, ?_, ?_, ?_⟩
  · intro row hrow
    cases hrow
  · intro call save hfate
    cases hfate
  · exact ⟨[], .start d₀, rfl, rfl, rfl, fun _ => rfl⟩

/-- A step of the client. -/
theorem JourneyInv.client_step (h : JourneyInv K column config d₀ s) {act : AtomicAct}
    {client : AtomicState} (hstep : atomicRun true s.client act = some client) :
    JourneyInv K column config d₀ { s with client := client } := by
  obtain ⟨more, hmore⟩ := saves_grow h.client hstep
  have hkept : ∀ {call : ℕ} {save : SaveCall}, s.client.saves[call]? = some save →
      client.saves[call]? = some save := by
    intro call save hsave
    rw [hmore, List.getElem?_append_left (List.getElem?_eq_some_iff.1 hsave).1, hsave]
  refine ⟨atomicRun_step h.client hstep, ?_, h.ids, h.places, ?_, ?_, h.relays⟩
  · intro call hcall
    have hcall : client.saves.length ≤ call := hcall
    rw [hmore, List.length_append] at hcall
    exact h.pending call (by omega)
  · intro row hrow
    obtain ⟨hfate, save, envelope, hsave, henvelope, hback⟩ := h.rows row hrow
    exact ⟨hfate, save, envelope, hkept hsave, henvelope, hback⟩
  · intro call save hfate hsave
    have hlt : call < s.client.saves.length := by
      by_contra hge
      have hfate : s.fates call = .committed := hfate
      rw [h.pending call (by omega)] at hfate
      cases hfate
    have hold : s.client.saves[call]? = some save := by
      have hsave : client.saves[call]? = some save := hsave
      rwa [hmore, List.getElem?_append_left hlt] at hsave
    exact h.whole call save hfate hold

/-- A commit. -/
theorem JourneyInv.commit_step (h : JourneyInv K column config d₀ s) {call : ℕ} {save : SaveCall}
    {ids : List String} {rows : List TableRow} (hsave : s.client.saves[call]? = some save)
    (hrows : insertRows column call 0 ids save.envelopes = some rows)
    (hpending : s.fates call = .pending) (hids : ids.Nodup)
    (hfresh : ∀ id ∈ ids, id ∉ s.table.map TableRow.id) :
    JourneyInv K column config d₀ { s with
      fates := Function.update s.fates call .committed
      table := s.table ++ rows } := by
  obtain ⟨hrowIds, hcalls, hplaces⟩ := insertRows_spec hrows
  have hfate : ∀ call', s.fates call' = .committed →
      Function.update s.fates call .committed call' = .committed := by
    intro call' hcall'
    by_cases heq : call' = call
    · rw [heq, Function.update_self]
    · rw [Function.update_of_ne heq, hcall']
  refine ⟨h.client, ?_, ?_, ?_, ?_, ?_, ?_⟩
  · intro call' hcall'
    have hne : call' ≠ call := by
      have hlt := (List.getElem?_eq_some_iff.1 hsave).1
      have hcall' : s.client.saves.length ≤ call' := hcall'
      omega
    exact (Function.update_of_ne hne _ _).trans (h.pending call' hcall')
  · rw [List.map_append, hrowIds]
    refine List.nodup_append.2 ⟨h.ids, hids, ?_⟩
    rintro id hold id' hnew rfl
    exact hfresh id hnew hold
  · rw [List.map_append]
    refine List.nodup_append.2 ⟨h.places, ?_, ?_⟩
    · -- the rows of one call stand at different places
      refine List.Nodup.of_map Prod.snd ?_
      rw [List.map_map]
      exact hplaces ▸ List.nodup_range'
    · -- and no row of that call was there before
      intro p hp q hq heq
      obtain ⟨row, hrow, rfl⟩ := List.mem_map.1 hp
      obtain ⟨row', hrow', rfl⟩ := List.mem_map.1 hq
      have hcommitted := (h.rows row hrow).1
      rw [(Prod.mk.inj heq).1, hcalls row' hrow', hpending] at hcommitted
      cases hcommitted
  · intro row hrow
    rcases List.mem_append.1 hrow with hrow | hrow
    · obtain ⟨hcommitted, hinserted⟩ := h.rows row hrow
      exact ⟨hfate _ hcommitted, hinserted⟩
    · obtain ⟨k, envelope, hplace, hk, hback⟩ := envelope_of_insertRows hrows hrow
      rw [Nat.zero_add] at hplace
      refine ⟨?_, save, envelope, ?_, ?_, hback⟩
      · show Function.update s.fates call .committed row.call = .committed
        rw [hcalls row hrow, Function.update_self]
      · rw [hcalls row hrow]
        exact hsave
      · rw [hplace]
        exact hk
  · intro call' save' hcommitted hsave' place envelope henvelope
    by_cases heq : call' = call
    · subst heq
      obtain rfl := Option.some.inj (hsave.symm.trans hsave')
      have hplace : place ∈ rows.map TableRow.place := by
        rw [hplaces, List.mem_range'_1]
        have hlt := (List.getElem?_eq_some_iff.1 henvelope).1
        omega
      obtain ⟨row, hrow, rfl⟩ := List.mem_map.1 hplace
      exact ⟨row, List.mem_append_right _ hrow, hcalls row hrow, rfl⟩
    -- a call that was committed before: its rows are still in the table
    · have hold : s.fates call' = .committed :=
        (Function.update_of_ne heq _ _).symm.trans hcommitted
      obtain ⟨row, hrow, hat⟩ := h.whole call' save' hold hsave' place envelope henvelope
      exact ⟨row, List.mem_append_left _ hrow, hat⟩
  · obtain ⟨steps, u, hrun, hfollows⟩ := h.relays
    exact ⟨steps, u, relayRun_grows (grows_append s.table rows) hrun, hfollows⟩

/-- A rollback. -/
theorem JourneyInv.rollback_step (h : JourneyInv K column config d₀ s) {call : ℕ}
    (hlt : call < s.client.saves.length) (hpending : s.fates call = .pending) :
    JourneyInv K column config d₀ { s with fates := Function.update s.fates call .undone } := by
  have hcommitted : ∀ call', Function.update s.fates call .undone call' = .committed ↔
      s.fates call' = .committed := by
    intro call'
    by_cases heq : call' = call
    · rw [heq, Function.update_self, hpending]
      simp
    · rw [Function.update_of_ne heq]
  refine ⟨h.client, ?_, h.ids, h.places, ?_, ?_, h.relays⟩
  · intro call' hcall'
    have hcall' : s.client.saves.length ≤ call' := hcall'
    exact (Function.update_of_ne (by omega) _ _).trans (h.pending call' hcall')
  · intro row hrow
    obtain ⟨hfate, hinserted⟩ := h.rows row hrow
    exact ⟨(hcommitted row.call).2 hfate, hinserted⟩
  · intro call' save hfate
    exact h.whole call' save ((hcommitted call').1 hfate)

/-- **One step keeps the invariant.** -/
theorem JourneyInv.step {step : JourneyStep ρ φ} (h : JourneyInv K column config d₀ s)
    (hstep : journeyRun K column config hooked s step = some t) :
    JourneyInv K column config d₀ t := by
  cases step with
  | client act =>
      obtain ⟨client, hclient, rfl⟩ := Option.map_eq_some_iff.1 hstep
      exact h.client_step hclient
  | commit call ids =>
      obtain ⟨save, hsave, hstep⟩ := Option.bind_eq_some_iff.1 hstep
      obtain ⟨rows, hrows, hstep⟩ := Option.bind_eq_some_iff.1 hstep
      split_ifs at hstep with hcommits
      obtain rfl := Option.some.inj hstep
      exact h.commit_step hsave hrows hcommits.1 hcommits.2.1 hcommits.2.2
  | rollback call =>
      obtain ⟨save, hsave, hstep⟩ := Option.bind_eq_some_iff.1 hstep
      split_ifs at hstep with hpending
      obtain rfl := Option.some.inj hstep
      exact h.rollback_step (List.getElem?_eq_some_iff.1 hsave).1 hpending
  | relays step =>
      obtain ⟨relays, hrelays, rfl⟩ := Option.map_eq_some_iff.1 hstep
      obtain ⟨steps, u, hrun, hfollows⟩ := h.relays
      obtain ⟨steps', u', hrun', hfollows'⟩ := follows_step s.relays u step relays hfollows hrelays
      exact ⟨h.client, h.pending, h.ids, h.places, h.rows, h.whole, steps ++ steps', u',
        Machine.exec_append_iff.2 ⟨u, hrun, hrun'⟩, hfollows'⟩

/-- The invariant of the journey, in every run. -/
theorem journeyInv {steps : List (JourneyStep ρ φ)}
    (h : (journeyRun K column config hooked).exec (.start d₀) steps = some s) :
    JourneyInv K column config d₀ s :=
  Machine.exec_invariant (fun _ _ _ hinv hstep => JourneyInv.step hinv hstep) h JourneyInv.start

/-! ### The blocks behind the rows -/

omit [DecidableEq ρ]

/-- Whether the function of a block resolved and what the block held was handed to the outbox. -/
def BlockPhase.handsOver : BlockPhase → Bool
  | .saving | .saved | .notSaved _ => true
  | _ => false

/-- A block that has made a call of `save` handed over what it wrote, once. -/
theorem BlockContract.of_saves {scope : AtomicScope} {log : BlockLog} (h : BlockContract scope log)
    (hsaves : log.saves ≠ []) : scope.phase.handsOver = true ∧
      ∃ tx, scope.tx = some tx ∧ log.saves = [(scope.written, tx)] := by
  have hdelivers := h.delivers
  unfold Delivers at hdelivers
  cases hphase : scope.phase with
  | running =>
      rw [hphase] at hdelivers
      exact absurd hdelivers.2.2 hsaves
  | threw error =>
      rw [hphase] at hdelivers
      exact absurd hdelivers.2.2 hsaves
  | flushing k =>
      rw [hphase] at hdelivers
      exact absurd hdelivers.2.2.2.2 hsaves
  | delivering k =>
      rw [hphase] at hdelivers
      exact absurd hdelivers.2.2.2.2 hsaves
  | broken k error =>
      rw [hphase] at hdelivers
      exact absurd hdelivers.2.2.2.2.1 hsaves
  | flushed =>
      rw [hphase] at hdelivers
      exact absurd hdelivers.2.2.2 hsaves
  | nothingToSave =>
      rw [hphase] at hdelivers
      exact absurd hdelivers.2.2.2.2 hsaves
  | saving =>
      rw [hphase] at hdelivers
      obtain ⟨-, -, tx, htx, -, hlog⟩ := hdelivers
      exact ⟨rfl, tx, htx, hlog⟩
  | saved =>
      rw [hphase] at hdelivers
      obtain ⟨-, -, tx, htx, -, hlog⟩ := hdelivers
      exact ⟨rfl, tx, htx, hlog⟩
  | notSaved error =>
      rw [hphase] at hdelivers
      obtain ⟨-, -, tx, htx, -, hlog⟩ := hdelivers
      exact ⟨rfl, tx, htx, hlog⟩

/-- The block a call of `save` was made for. -/
structure SavedBlock (client : AtomicState) (save : SaveCall) (scope : AtomicScope) : Prop where
  stands : client.scopes[save.scope]? = some scope
  tx : scope.tx = some save.tx
  phase : scope.phase.handsOver = true
  wrote : (client.logOf save.scope).accepted.mapM (fun e => forOutbox e.job) = .ok save.envelopes
  once : (client.logOf save.scope).saves = [(save.envelopes, save.tx)]

theorem savedBlock {client : AtomicState} (h : AtomicInv client) {save : SaveCall}
    (hsave : save ∈ client.saves) : ∃ scope, SavedBlock client save scope := by
  have hmem : (save.envelopes, save.tx) ∈ (client.logOf save.scope).saves :=
    List.mem_map.2 ⟨save, List.mem_filter.2 ⟨hsave, by simp⟩, rfl⟩
  have hlt : save.scope < client.scopes.length := by
    by_contra hge
    rw [h.fresh save.scope (by omega)] at hmem
    cases hmem
  have hscope := List.getElem?_eq_getElem hlt
  generalize client.scopes[save.scope] = scope at hscope
  have hblock := h.blocks save.scope scope hscope
  obtain ⟨hphase, tx, htx, hlog⟩ := hblock.of_saves (List.ne_nil_of_mem hmem)
  rw [hlog, List.mem_singleton, Prod.mk.injEq] at hmem
  obtain ⟨hwritten, hsame⟩ := hmem
  refine ⟨scope, hscope, by rw [htx, hsame], hphase, ?_, by rw [hlog, hwritten, hsame]⟩
  rw [hwritten]
  exact (hblock.written (by rw [htx]; rfl)).2

/-- Of two elements of a list that are filtered out alone, there is one. -/
theorem eq_of_filter_singleton {α : Type} {p : α → Bool} {l : List α} {a x y : α} {i j : ℕ}
    (h : l.filter p = [a]) (hi : l[i]? = some x) (hj : l[j]? = some y) (hx : p x = true)
    (hy : p y = true) : i = j := by
  have hle : ∀ {i j : ℕ} {x y : α}, l[i]? = some x → l[j]? = some y → p x = true → p y = true →
      ¬ i < j := by
    intro i j x y hi hj hx hy hlt
    have hcount : l.countP p = 1 := by rw [List.countP_eq_length_filter, h, List.length_singleton]
    rw [← List.take_append_drop j l, List.countP_append] at hcount
    have hfront : 0 < (l.take j).countP p :=
      List.countP_pos_iff.2 ⟨x, List.mem_of_getElem? ((List.getElem?_take_of_lt hlt).trans hi), hx⟩
    have hback : 0 < (l.drop j).countP p := by
      refine List.countP_pos_iff.2 ⟨y, List.mem_of_getElem? (i := 0) ?_, hy⟩
      rw [List.getElem?_drop, Nat.add_zero, hj]
    omega
  -- were one before the other, there would be one in front of `j` and another from `j` on
  have hij := hle hi hj hx hy
  have hji := hle hj hi hy hx
  omega

/-- One block makes one call of `save`. -/
theorem save_unique {client : AtomicState} (h : AtomicInv client) {call call' : ℕ}
    {save save' : SaveCall} (hsave : client.saves[call]? = some save)
    (hsave' : client.saves[call']? = some save') (hscope : save.scope = save'.scope) :
    call = call' := by
  obtain ⟨scope, hblock⟩ := savedBlock h (List.mem_of_getElem? hsave)
  obtain ⟨a, ha⟩ : ∃ a, (client.saves.filter fun call => call.scope = save.scope) = [a] := by
    have honce := congrArg List.length hblock.once
    rw [AtomicState.logOf, List.length_map] at honce
    exact List.length_eq_one_iff.1 honce
  exact eq_of_filter_singleton ha hsave hsave' (by simp) (by simp [hscope])

/-! ### The contract -/

/-- **The enqueue a row was written for**: one a block with a `tx` took, whose function resolved,
and whose only call of `save` was committed. -/
structure Stems (s : Journey δ ρ) (row : TableRow) (e : Enqueue) : Prop where
  committed : s.fates row.call = .committed
  block : ∃ save scope, s.client.saves[row.call]? = some save ∧ SavedBlock s.client save scope ∧
    (s.client.logOf save.scope).accepted[row.place]? = some e
  carries : ∃ envelope, forOutbox e.job = .ok envelope ∧
    storedData row.envelope.1 = storedData envelope

/-- **What is promised from end to end.** -/
structure JourneyContract (K : KeepingDriver δ φ) (d₀ : δ) (s : Journey δ ρ)
    (stored : List (TableRow × KeptJob)) : Prop where
  /-- The driver holds what it held, and the jobs of rows. -/
  jobs : K.jobs s.relays.driver = K.jobs d₀ ++ stored.map Prod.snd
  /-- A row yields at most one job. -/
  once : (stored.map fun p => p.1.id).Nodup
  /-- And that job carries what the row carries. -/
  carries : ∀ p ∈ stored, p.1 ∈ s.table ∧ storedData p.1.envelope.1 = some p.2.envelope
  /-- A row stems from one enqueue. -/
  stems : ∀ row ∈ s.table, ∃ e, Stems s row e ∧ ∀ e', Stems s row e' → e' = e
  /-- No two rows stem from the same. -/
  apart : ∀ row ∈ s.table, ∀ row' ∈ s.table, ∀ e, Stems s row e → Stems s row' e → row = row'
  /-- A block whose call was committed left nothing out. -/
  whole : ∀ call save, s.fates call = .committed → s.client.saves[call]? = some save →
    ∀ e ∈ (s.client.logOf save.scope).accepted, ∃ row ∈ s.table, Stems s row e
  /-- A row is marked once its job was stored. -/
  marked : ∀ p ∈ s.relays.marked, ∃ row job, (row, job) ∈ stored ∧ row.id = p.2

/-- The place of an enqueue among those its block took is the place of its envelope among those that
were saved. -/
theorem SavedBlock.place_iff {client : AtomicState} {save : SaveCall} {scope : AtomicScope}
    (h : SavedBlock client save scope) {place : ℕ} {envelope : Envelope} :
    save.envelopes[place]? = some envelope ↔
      ∃ e, (client.logOf save.scope).accepted[place]? = some e ∧
        forOutbox e.job = .ok envelope := by
  have hwrote := forall₂_of_mapM_eq_ok h.wrote
  constructor
  · intro henvelope
    obtain ⟨hlt, hat⟩ := List.getElem?_eq_some_iff.1 henvelope
    have hlt' : place < (client.logOf save.scope).accepted.length := hwrote.length_eq ▸ hlt
    refine ⟨_, List.getElem?_eq_getElem hlt', ?_⟩
    rw [List.forall₂_iff_get] at hwrote
    exact hat ▸ hwrote.2 place hlt' hlt
  · rintro ⟨e, he, hjob⟩
    obtain ⟨hlt, rfl⟩ := List.getElem?_eq_some_iff.1 he
    have hlt' : place < save.envelopes.length := hwrote.length_eq ▸ hlt
    rw [List.forall₂_iff_get] at hwrote
    have hat := hwrote.2 place hlt hlt'
    rw [List.get_eq_getElem] at hat
    rw [List.getElem?_eq_getElem hlt']
    exact congrArg some (Except.ok.inj (hat.symm.trans hjob))

section

variable {column : OutboxColumn} {config : ρ → RelayConfig}

/-- A row stems from the enqueue at its place. -/
theorem JourneyInv.stems_iff [DecidableEq ρ] (h : JourneyInv K column config d₀ s) {row : TableRow}
    (hrow : row ∈ s.table) {e : Enqueue} : Stems s row e ↔ ∃ save,
      s.client.saves[row.call]? = some save ∧
        (s.client.logOf save.scope).accepted[row.place]? = some e := by
  constructor
  · rintro ⟨-, ⟨save, scope, hsave, -, he⟩, -⟩
    exact ⟨save, hsave, he⟩
  · rintro ⟨save, hsave, he⟩
    obtain ⟨hcommitted, save', envelope, hsave', henvelope, hback⟩ := h.rows row hrow
    obtain rfl := Option.some.inj (hsave.symm.trans hsave')
    obtain ⟨scope, hblock⟩ := savedBlock h.client (List.mem_of_getElem? hsave)
    obtain ⟨e', he', hjob⟩ := hblock.place_iff.1 henvelope
    obtain rfl := Option.some.inj (he.symm.trans he')
    exact ⟨hcommitted, ⟨save, scope, hsave, hblock, he⟩, envelope, hjob,
      column.projects envelope row.envelope hback⟩

/-- Rows under different enqueues. -/
theorem JourneyInv.apart [DecidableEq ρ] (h : JourneyInv K column config d₀ s) {row row' : TableRow}
    (hrow : row ∈ s.table) (hrow' : row' ∈ s.table) {e : Enqueue} (he : Stems s row e)
    (he' : Stems s row' e) : row = row' := by
  obtain ⟨save, hsave, hat⟩ := (h.stems_iff hrow).1 he
  obtain ⟨save', hsave', hat'⟩ := (h.stems_iff hrow').1 he'
  have hscope : some save.scope = some save'.scope :=
    (scope_of_mem (List.mem_of_getElem? hat)).2.symm.trans
      (scope_of_mem (List.mem_of_getElem? hat')).2
  have hcall : row.call = row'.call := save_unique h.client hsave hsave' (Option.some.inj hscope)
  have hplace : row.place = row'.place := by
    rw [← hcall, hsave] at hsave'
    obtain rfl := Option.some.inj hsave'
    -- the enqueues a block took have increasing numbers, so none stands at two places
    have horder : (s.client.logOf save.scope).accepted.Pairwise fun a b => a.number < b.number :=
      h.client.order.filter _
    have hnodup : (s.client.logOf save.scope).accepted.Nodup :=
      horder.imp fun {a b} hlt heq => absurd (heq ▸ hlt) (lt_irrefl _)
    exact hnodup.getElem_inj_iff.1 ((List.getElem?_eq_some_iff.1 hat).2.trans
      (List.getElem?_eq_some_iff.1 hat').2.symm)
  exact List.inj_on_of_nodup_map h.places hrow hrow' (by rw [hcall, hplace])

/-- A block whose call was committed left nothing out. -/
theorem JourneyInv.stems_whole [DecidableEq ρ] (h : JourneyInv K column config d₀ s) {call : ℕ}
    {save : SaveCall} (hfate : s.fates call = .committed)
    (hsave : s.client.saves[call]? = some save) {e : Enqueue}
    (he : e ∈ (s.client.logOf save.scope).accepted) : ∃ row ∈ s.table, Stems s row e := by
  obtain ⟨scope, hblock⟩ := savedBlock h.client (List.mem_of_getElem? hsave)
  obtain ⟨place, hplace, hat⟩ := List.mem_iff_getElem.1 he
  have hat : (s.client.logOf save.scope).accepted[place]? = some e :=
    List.getElem?_eq_some_iff.2 ⟨hplace, hat⟩
  obtain ⟨envelope, hjob⟩ := exists_of_mapM_eq_ok hblock.wrote he
  obtain ⟨row, hrow, rfl, rfl⟩ := h.whole call save hfate hsave place envelope
    (hblock.place_iff.2 ⟨e, hat, hjob⟩)
  exact ⟨row, hrow, (h.stems_iff hrow).2 ⟨save, hsave, hat⟩⟩

/-- The rows behind what relays stored. -/
theorem exists_rows {table : List TableRow} (l : List ((Unit × String) × KeptJob))
    (h : ∀ p ∈ l, ∃ row ∈ table, row.id = p.1.2) : ∃ stored : List (TableRow × KeptJob),
      (stored.map fun p => (((), p.1.id), p.2)) = l ∧ ∀ p ∈ stored, p.1 ∈ table := by
  induction l with
  | nil => exact ⟨[], rfl, List.forall_mem_nil _⟩
  | cons p l ih =>
      obtain ⟨⟨row, hrow, hid⟩, hrest⟩ := List.forall_mem_cons.1 h
      obtain ⟨stored, rfl, hstored⟩ := ih hrest
      refine ⟨(row, p.2) :: stored, ?_, List.forall_mem_cons.2 ⟨hrow, hstored⟩⟩
      rw [List.map_cons, hid]

/-- **What is stored stems from committed blocks, each enqueue once**: in every interleaving of the
client, the database, the relays and the driver, over a driver that keeps its jobs and relays that
share their definitions. -/
theorem journey_contract [DecidableEq ρ] {hooked : ρ → Bool}
    (hconfig : ∀ relay relay', config relay = config relay')
    (hfresh : ∀ job ∈ K.jobs d₀, ∀ rowId, job.id ≠ "outbox-" ++ rowId)
    {steps : List (JourneyStep ρ φ)}
    (h : (journeyRun K column config hooked).exec (.start d₀) steps = some s) :
    ∃ stored, JourneyContract K d₀ s stored := by
  have hinv := journeyInv h
  obtain ⟨relaySteps, u, hrun, hfollows⟩ := hinv.relays
  have hbacked : BackedInv K (tableRelaying config s.table) d₀ u := backedInv_of_fresh hfresh hrun
  -- the row a job was stored from is the one that stands under its id
  have hread : ∀ id envelope, (tableRelaying config s.table).rows () id = some envelope →
      ∃ row ∈ s.table, row.id = id ∧ row.envelope.1 = envelope := by
    intro id envelope hrow
    obtain ⟨row, hfind, rfl⟩ := Option.map_eq_some_iff.1 hrow
    exact ⟨row, List.mem_of_find?_eq_some hfind, by simpa using List.find?_some hfind, rfl⟩
  obtain ⟨stored, hstored, htable⟩ := @exists_rows s.table u.stored (by
    rintro ⟨⟨⟨⟩, id⟩, job⟩ hmem
    obtain ⟨envelope, hrow, -⟩ := (hbacked.inv.origin _ _ hmem).envelope
    obtain ⟨row, hmem, hid, -⟩ := hread id envelope hrow
    exact ⟨row, hmem, hid⟩)
  refine ⟨stored, ?_, ?_, ?_, ?_, ?_, ?_, ?_⟩
  · rw [← hfollows.driver, hbacked.inv.jobs, ← hstored, List.map_map]
    rfl
  · have honce := hbacked.inv.once (fun _ _ => rfl) hconfig
    rw [← hstored, List.map_map] at honce
    refine List.Nodup.of_map (fun id => ((), id)) ?_
    rw [List.map_map]
    exact honce
  · rintro ⟨row, job⟩ hmem
    have hrow := htable _ hmem
    have hmem' : (((), row.id), job) ∈ u.stored := hstored ▸ List.mem_map.2 ⟨_, hmem, rfl⟩
    obtain ⟨envelope, hread', hjob⟩ := (hbacked.inv.origin _ _ hmem').envelope
    obtain ⟨row', hrow', hid, rfl⟩ := hread row.id envelope hread'
    obtain rfl := List.inj_on_of_nodup_map hinv.ids hrow' hrow hid
    exact ⟨hrow, hjob⟩
  · intro row hrow
    obtain ⟨-, save, envelope, hsave, henvelope, -⟩ := hinv.rows row hrow
    obtain ⟨scope, hblock⟩ := savedBlock hinv.client (List.mem_of_getElem? hsave)
    obtain ⟨e, hat, -⟩ := hblock.place_iff.1 henvelope
    refine ⟨e, (hinv.stems_iff hrow).2 ⟨save, hsave, hat⟩, ?_⟩
    intro e' he'
    obtain ⟨save', hsave', hat'⟩ := (hinv.stems_iff hrow).1 he'
    obtain rfl := Option.some.inj (hsave.symm.trans hsave')
    exact Option.some.inj (hat'.symm.trans hat)
  · intro row hrow row' hrow' e he he'
    exact hinv.apart hrow hrow' he he'
  · intro call save hfate hsave e he
    exact hinv.stems_whole hfate hsave he
  · rintro ⟨⟨⟩, id⟩ hmarked
    rw [← hfollows.marked] at hmarked
    obtain ⟨job, hjob⟩ := hbacked.marked _ hmarked
    rw [← hstored] at hjob
    obtain ⟨⟨row, job'⟩, hmem, heq⟩ := List.mem_map.1 hjob
    cases heq
    exact ⟨row, _, hmem, rfl⟩

end

end

/-! ### A job that makes the journey -/

/-- A column that gives back what can be stored as it was inserted. -/
def plainColumn : OutboxColumn where
  back envelope :=
    if h : (storedData envelope).isSome = true then some ⟨envelope, h⟩ else none
  projects := by
    intro envelope read h
    split_ifs at h
    cases h
    rfl

/-- A block with a `tx` enqueues a job and resolves, its call of `save` is committed, and a relay is
handed the row. -/
def firstJourney : List (JourneyStep Bool Fate) :=
  [.client (.atomic 0 (.str "tx")), .client (.enqueue 1 lineJob (.str "first") .undefined),
    .client (.resolve 0), .relays (.start false), .client (.answer 0 (.ok ())), .commit 0 ["1"],
    .relays (.claimed false ["1"]), .relays (.delivered false .answered)]

theorem journey_contract_example : ∃ s stored,
    (journeyRun memoryKeeper.toKeepingDriver plainColumn (fun _ => ⟨some [lineJob]⟩)
      fun _ => false).exec (.start emptyKeeper) firstJourney = some s ∧
    s.table.length = 1 ∧ JourneyContract memoryKeeper.toKeepingDriver emptyKeeper s stored := by
  obtain ⟨d, hdeliver⟩ := deliver_firstRow emptyKeeper
  obtain ⟨t, ht, hdriver, htable, hstands⟩ : ∃ t : Journey {m : MemoryDriver // LineInv m} Bool,
      (journeyRun memoryKeeper.toKeepingDriver plainColumn (fun _ => ⟨some [lineJob]⟩)
        fun _ => false).exec (.start emptyKeeper) (firstJourney.take 7) = some t ∧
      t.relays.driver = emptyKeeper ∧ t.table.length = 1 ∧
      StandsAt t.relays false .start (.delivering firstRow [] []) [.claimed [firstRow],
        .cycle (.attempted firstRow)] := ⟨_, rfl, rfl, rfl, rfl⟩
  obtain ⟨relays, hrelays, -⟩ := @StandsAt.delivered _ _ _ _ _ memoryKeeper.toKeepingDriver
    (tableRelaying (fun _ => ⟨some [lineJob]⟩) t.table) t.relays false .start _ _ _ (fun _ => false)
    firstRow [] [] hstands .answered _ d (hdriver ▸ hdeliver) rfl
  have hrun := Machine.exec_append_iff.2 ⟨t, ht, Machine.exec_singleton.2
    (show journeyRun memoryKeeper.toKeepingDriver plainColumn (fun _ => ⟨some [lineJob]⟩)
      (fun _ => false) t (.relays (.delivered false .answered)) =
      some { t with relays := relays } by
        simp only [journeyRun, hrelays, Option.map_some])⟩
  obtain ⟨stored, hcontract⟩ :=
    journey_contract (fun _ _ => rfl) (fun job hjob => by cases hjob) hrun
  exact ⟨_, stored, hrun, htable, hcontract⟩

end Jubs
